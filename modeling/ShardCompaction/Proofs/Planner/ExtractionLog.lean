import ShardCompaction.Proofs.Planner.Extraction
import ShardCompaction.Proofs.Planner.Noting

namespace ShardCompaction

variable {σ α : Type}

/-- The entry that reports a dropped shard. -/
def LogEntry.rangeMissing (table : Int64) (record : ShardRecord) : LogEntry :=
  ⟨.trace, "SHARD_RANGE_MISSING",
    [("table_id", Decimal.int64Text table), ("shard_uuid", record.uuid.toText)]⟩

/-- A record with the eligible shard that stands in its place, or with none if it was dropped. -/
abbrev Fate := ShardRecord × Option Shard

/-- The records that were dropped, in their order. -/
def Fate.dropped (fates : List Fate) : List ShardRecord := (fates.filter (·.2.isNone)).map Prod.fst

namespace Extraction

open Pass Exchange LogEntry

/-- What becomes of records, one after another. A shard counts for the first record with its id. -/
def fates : List ShardRecord → IdMap Shard → List Fate
  | [], _ => []
  | record :: rest, resolved =>
    match resolved[record.id]? with
    | some shard => (record, some shard) :: fates rest (resolved.erase record.id)
    | none => (record, none) :: fates rest resolved

theorem map_fst_fates (records : List ShardRecord) (resolved : IdMap Shard) :
    (fates records resolved).map Prod.fst = records := by
  induction records generalizing resolved with
  | nil => rfl
  | cons record records ih =>
    rw [fates]
    cases resolved[record.id]? <;> rw [List.map_cons, ih]

theorem resolved_of_mem_fates {records : List ShardRecord} {resolved : IdMap Shard}
    {record : ShardRecord} {shard : Shard} (h : (record, some shard) ∈ fates records resolved) :
    resolved[record.id]? = some shard := by
  induction records generalizing resolved with
  | nil => simp [fates] at h
  | cons first records ih =>
    rw [fates] at h
    cases hfirst : resolved[first.id]? with
    | none =>
      rw [hfirst, List.mem_cons] at h
      rcases h with he | h
      · simp at he
      · exact ih h
    | some found =>
      rw [hfirst, List.mem_cons] at h
      rcases h with he | h
      · obtain ⟨rfl, hshard⟩ := Prod.mk.inj he
        exact hfirst.trans hshard.symm
      · have hrest := ih h
        rw [Std.TreeMap.getElem?_erase] at hrest
        split at hrest
        · simp at hrest
        · exact hrest

/-- Of several records with one id only the first can stay. -/
theorem pairwise_fates (records : List ShardRecord) (resolved : IdMap Shard) :
    (fates records resolved).Pairwise fun a b => a.1.id = b.1.id → b.2 = none := by
  have hlater : ∀ {records : List ShardRecord} {resolved : IdMap Shard} {id : Int64},
      resolved[id]? = none → ∀ b ∈ fates records resolved, id = b.1.id → b.2 = none := by
    rintro records resolved id hnone ⟨record, fate⟩ hb rfl
    cases fate with
    | none => rfl
    | some shard => simp [resolved_of_mem_fates hb] at hnone
  induction records generalizing resolved with
  | nil => exact .nil
  | cons record records ih =>
    rw [fates]
    cases hrecord : resolved[record.id]? with
    | none => exact .cons (hlater hrecord) (ih resolved)
    | some shard =>
      have herased : (resolved.erase record.id)[record.id]? = none := by simp
      exact .cons (hlater herased) (ih (resolved.erase record.id))

theorem length_fates (fates : List Fate) :
    (fates.filterMap Prod.snd).length + (Fate.dropped fates).length = fates.length := by
  induction fates with
  | nil => rfl
  | cons fate fates ih =>
    obtain ⟨record, shard⟩ := fate
    rw [Fate.dropped, List.length_map] at ih ⊢
    cases shard with
    | none =>
      simp only [List.filterMap_cons, List.filter_cons, Option.isNone_none, if_true,
        List.length_cons]
      omega
    | some shard =>
      simp only [List.filterMap_cons, List.filter_cons, Option.isNone_some, Bool.false_eq_true,
        if_false, List.length_cons]
      omega

/-- Every record that is no delete-delta shard has a fate. The shards of the fates are the eligible
ones, each from a record with the id of the one in whose place it stands, which is the first record
with that id. -/
structure Sorts (records : List ShardRecord) (fates : List Fate) (e : EligibleShards) : Prop where
  candidates : fates.map Prod.fst = records.filter fun r => !r.isDelta
  shards : fates.filterMap Prod.snd = e.shards
  dropped : (Fate.dropped fates).length = e.dropped
  first : fates.Pairwise fun a b => a.1.id = b.1.id → b.2 = none
  source : ∀ fate ∈ fates, ∀ shard ∈ fate.2, ∃ source ∈ records, source.isDelta = false ∧
    source.id = fate.1.id ∧ ∃ temporal sort, shard = .ofRecord source temporal sort

/-- Calls without an answered index query, and no entries. -/
structure Quiet (calls : List Exchange) (entries : List LogEntry) (r : Except Abort α) : Prop where
  entries_eq : entries = []
  asked : calls.filterMap asked? = []
  noDefect : NoDefect r

theorem Quiet.ok (a : α) : Quiet [] [] (.ok a) := ⟨rfl, rfl, by simp [NoDefect]⟩

theorem Quiet.append {β : Type} {calls others : List Exchange} {entries more : List LogEntry}
    {r : Except Abort α} {r' : Except Abort β} (h : Quiet calls entries r)
    (h' : Quiet others more r') : Quiet (calls ++ others) (entries ++ more) r' := by
  refine ⟨?_, ?_, h'.noDefect⟩
  · rw [h.entries_eq, h'.entries_eq, List.append_nil]
  · rw [List.filterMap_append, h.asked, h'.asked, List.append_nil]

theorem Quiet.error {β : Type} {calls : List Exchange} {entries : List LogEntry} {a : Abort}
    (h : Quiet calls entries (.error a : Except Abort α)) :
    Quiet calls entries (.error a : Except Abort β) :=
  ⟨h.entries_eq, h.asked, fun d hd => h.noDefect d (by rw [Except.error.inj hd])⟩

theorem temporalLookup_quiet (store : MetadataStore σ) (table : Table) :
    Notes (temporalLookup store.recorded table) Quiet := by
  rw [temporalLookup]
  cases table.temporalColumn with
  | none => exact .pure (.ok none)
  | some id =>
    apply Notes.ask_bind store (.column table.id id)
    · intro e
      exact ⟨rfl, rfl, by simp [NoDefect]⟩
    · intro column
      split
      · exact .pure ⟨rfl, rfl, by simp [NoDefect]⟩
      · exact .throw ⟨rfl, rfl, by simp [NoDefect]⟩

theorem sortLookup_quiet (store : MetadataStore σ) (table : Table) (options : ExtractionOptions) :
    Notes (sortLookup store.recorded table options) Quiet := by
  rw [sortLookup]
  split
  · rw [map_eq_pure_bind]
    apply Notes.ask_bind store (.sortColumns table.id)
    · intro e
      exact ⟨rfl, rfl, by simp [NoDefect]⟩
    · intro columns
      exact .pure ⟨rfl, rfl, by simp [NoDefect]⟩
  · exact .pure (.ok none)

theorem columns_quiet (store : MetadataStore σ) (table : Table) (options : ExtractionOptions) :
    Notes (columns store.recorded table options) Quiet := by
  rw [columns_eq]
  apply (temporalLookup_quiet store table).bind
  · exact fun calls entries e h => h.error
  · intro temporal calls entries h
    apply (sortLookup_quiet store table options).bind
    · exact fun others more e h' => h.append h'.error
    · exact fun sort others more h' => .pure (h.append (h'.append (.ok _)))

/-- The queries of some batches of a table: each one that the store answers is reported, and if all
are answered they ask for all shards of the batches. -/
structure Queries (table : Int64) (batches : List (List ShardRecord)) (calls : List Exchange)
    (entries : List LogEntry) (r : Except Abort α) : Prop where
  entries_eq : entries = calls.filterMap indexBatch?
  isAbout : ∀ e ∈ entries, e.IsAbout table
  asked : ∀ a, r = .ok a → calls.filterMap asked? = batches.map (·.map ShardRecord.id)
  noDefect : NoDefect r

theorem queryBatches_notes (store : MetadataStore σ) (id : Int64) (c : RangeColumns)
    (batches : List (List ShardRecord)) (resolved : IdMap Shard) :
    Notes (queryBatches store.recorded id c batches resolved) (Queries id batches) := by
  induction batches generalizing resolved with
  | nil => exact .pure ⟨rfl, by simp, fun _ _ => rfl, by simp [NoDefect]⟩
  | cons batch batches ih =>
    rw [queryBatches]
    apply Notes.ask_bind store (.queryIndex id c.ids (batch.map ShardRecord.id))
    · intro e
      exact ⟨rfl, by simp, by simp, by simp [NoDefect]⟩
    · intro rows
      apply Notes.log_bind [.indexBatch id (batch.map ShardRecord.id).length rows.length]
        fun _ => rfl
      apply (ih (c.resolve batch rows resolved)).weaken
      intro calls entries r h
      refine ⟨congrArg _ h.entries_eq, ?_, ?_, h.noDefect⟩
      · exact List.forall_mem_cons.mpr ⟨isAbout_indexBatch _ _ _, h.isAbout⟩
      · exact fun a ha => congrArg _ (h.asked a ha)

/-- Collecting reports each record that it drops, in order. -/
theorem collect_notes (id : Int64) (records : List ShardRecord) (resolved : IdMap Shard) :
    Notes (collect id records resolved : Pass (Recorded σ) (List Shard)) fun calls entries r =>
      calls = [] ∧ entries = (Fate.dropped (fates records resolved)).map (rangeMissing id) ∧
        r = .ok ((fates records resolved).filterMap Prod.snd) := by
  induction records generalizing resolved with
  | nil => exact .pure ⟨rfl, rfl, rfl⟩
  | cons record records ih =>
    rw [collect, fates]
    cases resolved[record.id]? with
    | none =>
      apply Notes.log_bind [rangeMissing id record] fun _ => rfl
      apply (ih resolved).weaken
      intro calls entries r h
      obtain ⟨rfl, rfl, rfl⟩ := h
      exact ⟨rfl, rfl, rfl⟩
    | some shard =>
      apply (ih (resolved.erase record.id)).bind
      · intro calls entries e h
        exact absurd h.2.2 (by simp)
      · intro shards calls entries h
        obtain ⟨rfl, rfl, hshards⟩ := h
        obtain rfl := Except.ok.inj hshards
        exact .pure ⟨rfl, List.append_nil _, rfl⟩

/-- What extraction asks and reports about a table. If it gets through, it has asked for every
candidate, and has reported those that it dropped. -/
inductive Reports (table : Int64) (records : List ShardRecord) :
    List Exchange → List LogEntry → Except Abort EligibleShards → Prop
  | failed {calls : List Exchange} (e : MetadataError)
    (habout : ∀ e ∈ calls.filterMap indexBatch?, e.IsAbout table) :
    Reports table records calls (calls.filterMap indexBatch?) (.error (.store e))
  | done {calls : List Exchange} {fates : List Fate} {e : EligibleShards}
    (habout : ∀ e ∈ calls.filterMap indexBatch?, e.IsAbout table)
    (hasked : (calls.filterMap asked?).flatten =
      (records.filter fun r => !r.isDelta).map ShardRecord.id)
    (hqueries : e.indexQueries = (calls.filterMap asked?).length) (hsorts : Sorts records fates e) :
    Reports table records calls
      (calls.filterMap indexBatch? ++ (Fate.dropped fates).map (rangeMissing table)) (.ok e)

theorem Reports.steps {table : Int64} {records : List ShardRecord} {calls : List Exchange}
    {entries : List LogEntry} {r : Except Abort EligibleShards}
    (h : Reports table records calls entries r) :
    ∀ e ∈ entries, e.event ∈ LogEntry.steps ∧ e.IsAbout table := by
  have hbatch : ∀ e ∈ calls.filterMap indexBatch?, e.event ∈ LogEntry.steps := by
    intro e he
    obtain ⟨⟨q, answer⟩, -, he⟩ := List.mem_filterMap.mp he
    rw [indexBatch?.eq_def] at he
    split at he
    · obtain rfl := Option.some.inj he
      exact indexBatch_mem_steps _ _ _
    · simp at he
  cases h with
  | failed e habout => exact fun e he => ⟨hbatch e he, habout e he⟩
  | done habout hasked hqueries hsorts =>
    intro e he
    rcases List.mem_append.mp he with he | he
    · exact ⟨hbatch e he, habout e he⟩
    · obtain ⟨record, -, rfl⟩ := List.mem_map.mp he
      exact ⟨by simp [LogEntry.steps, rangeMissing], rfl⟩

/-- Calls that ask for no statistics may come before. -/
theorem Reports.prepend {table : Int64} {records : List ShardRecord} {calls others : List Exchange}
    {entries more : List LogEntry} {r : Except Abort EligibleShards} {a : α}
    (h : Reports table records others more r) (hquiet : Quiet calls entries (.ok a)) :
    Reports table records (calls ++ others) (entries ++ more) r := by
  have hbatch : (calls ++ others).filterMap indexBatch? = others.filterMap indexBatch? := by
    rw [List.filterMap_append, indexBatch_eq_nil hquiet.asked, List.nil_append]
  have hasked : (calls ++ others).filterMap asked? = others.filterMap asked? := by
    rw [List.filterMap_append, hquiet.asked, List.nil_append]
  rw [hquiet.entries_eq, List.nil_append]
  cases h with
  | failed e habout =>
    rw [← hbatch] at habout ⊢
    exact .failed e habout
  | done habout hall hqueries hsorts =>
    rw [← hbatch] at habout ⊢
    exact .done habout (hasked ▸ hall) (hasked ▸ hqueries) hsorts

theorem sorts_fates {c : RangeColumns} {records : List ShardRecord} {resolved : IdMap Shard}
    {e : EligibleShards}
    (h : c.ResolvedFrom (fun _ => True) (records.filter fun r => !r.isDelta) resolved)
    (hshards : e.shards =
      (fates (records.filter fun r => !r.isDelta) resolved).filterMap Prod.snd)
    (hdropped : e.dropped = (records.filter fun r => !r.isDelta).length - e.shards.length) :
    Sorts records (fates (records.filter fun r => !r.isDelta) resolved) e := by
  have hfates := map_fst_fates (records.filter fun r => !r.isDelta) resolved
  refine ⟨hfates, hshards.symm, ?_, pairwise_fates _ _, ?_⟩
  · have hlength := length_fates (fates (records.filter fun r => !r.isDelta) resolved)
    have hall := congrArg List.length hfates
    rw [List.length_map] at hall
    rw [hdropped, hshards]
    omega
  · intro fate hfate shard hs
    obtain ⟨record, _⟩ := fate
    obtain rfl := Option.mem_def.mp hs
    obtain ⟨source, hsource, hid, hres⟩ := h _ _ (resolved_of_mem_fates hfate)
    obtain ⟨temporal, sort, he⟩ := hres.exists_ranges
    obtain ⟨hmem, hdelta⟩ := List.mem_filter.mp hsource
    exact ⟨source, hmem, by simpa using hdelta, hid, temporal, sort, he⟩

/-- The shards that queries resolve are made of records of their batches. -/
theorem resolvedFrom_of_queryBatches {store : MetadataStore σ} {id : Int64} {c : RangeColumns}
    {records : List ShardRecord} {size : Nat} {s : Session σ} {resolved : IdMap Shard}
    (h : outcome (queryBatches store id c (batches size records) ∅) s = .ok resolved) :
    c.ResolvedFrom (fun _ => True) records resolved := by
  have hindex : ∀ shards, StoreCall.Answers (fun _ => True) (store.queryIndex id c.ids shards)
      fun rows => ∀ row ∈ rows, True := fun _ _ _ _ _ _ => ⟨trivial, fun _ _ => trivial⟩
  have hbatches : ∀ batch ∈ batches size records, ∀ r ∈ batch, r ∈ records :=
    fun batch hb r hr => mem_of_mem_batches hb hr
  have hreads := queryBatches_reads hindex hbatches RangeColumns.resolvedFrom_empty
  exact (hreads s _ _ trivial (eq_ok_iff.mpr ⟨h, rfl⟩)).2.2

theorem ofColumns_notes (store : MetadataStore σ) (table : Table) (records : List ShardRecord)
    (batchSize : Nat) (c : RangeColumns) :
    Notes (ofColumns store.recorded table records batchSize c) (Reports table.id records) := by
  intro s
  apply (queryBatches_notes store table.id c _ ∅ s).bind
  · intro calls entries a _ h
    match a with
    | .store e =>
      rw [h.entries_eq]
      exact .failed e (h.entries_eq ▸ h.isAbout)
    | .defect d => exact absurd rfl (h.noDefect d)
  · intro resolved calls entries hout h
    -- What is recorded does not say where resolved shards come from. The outcome does.
    have hresolved := resolvedFrom_of_queryBatches hout
    apply (collect_notes table.id _ resolved).bind
    · intro others more a hcollect
      exact absurd hcollect.2.2 (by simp)
    · intro shards others more hcollect
      obtain ⟨rfl, rfl, hshards⟩ := hcollect
      apply Notes.pure
      rw [List.append_nil, List.append_nil, List.append_nil, h.entries_eq]
      refine .done (h.entries_eq ▸ h.isAbout) ?_ ?_
        (sorts_fates hresolved (Except.ok.inj hshards) rfl)
      · rw [h.asked resolved rfl, ← List.map_flatten, flatten_batches]
      · rw [h.asked resolved rfl, List.length_map]

theorem ofRecords_notes (store : MetadataStore σ) (table : Table) (records : List ShardRecord)
    (options : ExtractionOptions) :
    Notes (ofRecords store.recorded table records options) (Reports table.id records) := by
  rw [ofRecords_eq]
  apply (columns_quiet store table options).bind
  · intro calls entries a h
    match a with
    | .store e =>
      have hnone := indexBatch_eq_nil h.asked
      rw [h.entries_eq, ← hnone]
      exact .failed e (by simp [hnone])
    | .defect d => exact absurd rfl (h.noDefect d)
  · intro c calls entries h
    apply (ofColumns_notes store table records options.batchSize c).weaken
    exact fun others more r hreports => hreports.prepend h

end Extraction

end ShardCompaction
