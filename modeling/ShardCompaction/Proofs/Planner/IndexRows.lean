import ShardCompaction.Proofs.Partition.Classification
import ShardCompaction.Proofs.Planner.Alike
import ShardCompaction.Proofs.Planner.Calls
import ShardCompaction.Proofs.Planner.CatalogExtraction

namespace ShardCompaction

variable {σ τ α β : Type}

namespace RangeColumns

variable {c : RangeColumns}

/-- The shard that rows make of a record: the last one of its rows that can be decoded counts. -/
def lastDecoded? (c : RangeColumns) (rows : List IndexRow) (record : ShardRecord) : Option Shard :=
  ((rows.filter fun row => row.shard = record.id).filterMap (c.annotate? record)).getLast?

theorem entry?_eq (c : RangeColumns) (batch : List ShardRecord) :
    c.entry? batch = fun row =>
      ((byId batch)[row.shard]?.bind (c.annotate? · row)).map fun shard => (row.shard, shard) := by
  funext row
  unfold entry?
  cases hr : (byId batch)[row.shard]? with
  | none => rfl
  | some record => rw [Option.bind_some, Option.bind_some, (mem_of_byId hr).2]

/-- After a batch each of its records stands for the shard that its rows make. -/
theorem getElem?_resolve (c : RangeColumns) (batch : List ShardRecord) (rows : List IndexRow)
    (resolved : IdMap Shard) (id : Int64) :
    (c.resolve batch rows resolved)[id]? =
      ((byId batch)[id]?.bind (c.lastDecoded? rows)).or resolved[id]? := by
  rw [resolve_eq_fill, entry?_eq, FilledMap.getElem?_fill_filterMap IndexRow.shard]
  congr 1
  have hown : ∀ row ∈ rows.filter fun row => row.shard = id,
      (byId batch)[row.shard]?.bind (c.annotate? · row) =
        (byId batch)[id]?.bind (c.annotate? · row) := by
    intro row hrow
    rw [of_decide_eq_true (List.mem_filter.mp hrow).2]
  rw [List.filterMap_congr hown]
  cases hr : (byId batch)[id]? with
  | none => simp
  | some record =>
    obtain rfl := (mem_of_byId hr).2
    rfl

theorem resolve_congr {batch : List ShardRecord} {rows rows' : List IndexRow}
    {resolved resolved' : IdMap Shard}
    (hrows : ∀ r ∈ batch, c.lastDecoded? rows r = c.lastDecoded? rows' r)
    (h : ∀ id : Int64, resolved[id]? = resolved'[id]?) (id : Int64) :
    (c.resolve batch rows resolved)[id]? = (c.resolve batch rows' resolved')[id]? := by
  rw [getElem?_resolve, getElem?_resolve, h]
  cases hr : (byId batch)[id]? with
  | none => rfl
  | some r => rw [Option.bind_some, Option.bind_some, hrows r (mem_of_byId hr).1]

end RangeColumns

/-- Answers to a request that hold the same rows for the requested ids, at most one for each. The
order of the rows may differ, and so may rows for other ids. -/
structure SameRows (ids : List Int64) (rows rows' : List IndexRow) : Prop where
  single : ∀ id ∈ ids, (rows.countP fun row => row.shard = id) ≤ 1
  perm : (rows.filter fun row => row.shard ∈ ids).Perm (rows'.filter fun row => row.shard ∈ ids)

-- The ids are walked by a list function: a decision by the type of ids could try all of them.
instance (ids : List Int64) (rows rows' : List IndexRow) : Decidable (SameRows ids rows rows') :=
  decidable_of_iff
    ((ids.all fun id => (rows.countP fun row => row.shard = id) ≤ 1) = true ∧
      (rows.filter fun row => row.shard ∈ ids).Perm (rows'.filter fun row => row.shard ∈ ids))
    ⟨fun ⟨hsingle, hperm⟩ =>
        ⟨fun id hid => of_decide_eq_true (List.all_eq_true.mp hsingle id hid), hperm⟩,
      fun h => ⟨List.all_eq_true.mpr fun id hid => decide_eq_true (h.single id hid), h.perm⟩⟩

theorem SameRows.filter_eq {ids : List Int64} {rows rows' : List IndexRow}
    (h : SameRows ids rows rows') {id : Int64} (hid : id ∈ ids) :
    (rows.filter fun row => row.shard = id) = rows'.filter fun row => row.shard = id := by
  have hrequested : ∀ l : List IndexRow,
      (l.filter fun row => row.shard ∈ ids).filter (fun row => row.shard = id) =
        l.filter fun row => row.shard = id := by
    intro l
    rw [List.filter_filter]
    refine List.filter_congr fun row _ => ?_
    by_cases he : row.shard = id <;> simp [he, hid]
  have hperm := h.perm.filter fun row => row.shard = id
  have hlen := h.single id hid
  rw [hrequested, hrequested] at hperm
  rw [List.countP_eq_length_filter] at hlen
  generalize (rows.filter fun row => row.shard = id) = own at hperm hlen ⊢
  match own with
  | [] => exact hperm.nil_eq
  | [row] => exact hperm.singleton_eq
  | _ :: _ :: _ => simp at hlen

/-- Two results are related if both are values that are, or both are the same error. -/
def Related (Q : α → β → Prop) {ε : Type} : Except ε α → Except ε β → Prop
  | .ok a, .ok b => Q a b
  | .error e, .error e' => e = e'
  | _, _ => False

theorem related_eq_iff {ε : Type} {x y : Except ε α} : Related Eq x y ↔ x = y := by
  cases x <;> cases y <;> simp [Related]

/-- From related states two calls give related answers, or fail alike, and leave related states. -/
def StoreCall.Matches (R : σ → τ → Prop) (c : StoreCall σ α) (d : StoreCall τ β)
    (Q : α → β → Prop) : Prop :=
  ∀ a b, R a b → Related Q (outcome c a) (outcome d b) ∧ R (stateAfter c a) (stateAfter d b)

namespace Pass

/-- From sessions with related stores two passes end with related results or stop for the same
reason, and leave related stores. Their logs may differ. -/
def Matches (R : σ → τ → Prop) (x : Pass σ α) (y : Pass τ β) (Q : α → β → Prop) : Prop :=
  ∀ s t, R s.store t.store → Related Q (outcome x s) (outcome y t) ∧
    R (stateAfter x s).store (stateAfter y t).store

namespace Matches

variable {γ δ : Type} {R : σ → τ → Prop} {x : Pass σ α} {y : Pass τ β} {P : α → β → Prop}
  {Q : γ → δ → Prop}

theorem pure {a : α} {b : β} (h : P a b) :
    Matches R (Pure.pure a : Pass σ α) (Pure.pure b) P := fun _ _ hst => ⟨h, hst⟩

theorem log (f g : Log → Log) : Matches R (log f) (log g) fun _ _ => True :=
  fun _ _ hst => ⟨trivial, hst⟩

theorem call {c : StoreCall σ α} {d : StoreCall τ β} (h : StoreCall.Matches R c d P) :
    Matches R (call c) (call d) P := by
  intro s t hst
  obtain ⟨hout, hafter⟩ := h _ _ hst
  rw [outcome_call, outcome_call, stateAfter_call, stateAfter_call]
  refine ⟨?_, hafter⟩
  cases hc : outcome c s.store <;> cases hd : outcome d t.store <;> rw [hc, hd] at hout
  case error.error => exact congrArg Abort.store hout
  all_goals exact hout

theorem bind {f : α → Pass σ γ} {g : β → Pass τ δ} (hx : Matches R x y P)
    (hf : ∀ a b, P a b → Matches R (f a) (g b) Q) : Matches R (x >>= f) (y >>= g) Q := by
  intro s t hst
  obtain ⟨hout, hafter⟩ := hx s t hst
  rw [outcome_bind, outcome_bind, stateAfter_bind, stateAfter_bind]
  cases ha : outcome x s <;> cases hb : outcome y t <;> rw [ha, hb] at hout
  case ok.ok a b => exact hf a b hout _ _ hafter
  case error.error => exact ⟨hout, hafter⟩
  all_goals exact hout.elim

/-- Passes that are alike have the same results, and what follows may use that they have them. -/
theorem bind_alike {y : Pass τ α} {f : α → Pass σ γ} {g : α → Pass τ δ} (hx : Alike R x y)
    (hf : ∀ a, MayGive R x a → Matches R (f a) (g a) Q) : Matches R (x >>= f) (y >>= g) Q := by
  have hgives : Matches R x y fun a b => a = b ∧ MayGive R x a := by
    intro s t hst
    obtain ⟨hout, hafter, -⟩ := hx s t hst
    refine ⟨?_, hafter⟩
    rw [← hout]
    cases ha : outcome x s with
    | error e => rfl
    | ok a => exact ⟨rfl, s, _, hst, ha⟩
  apply hgives.bind
  intro a b hab
  obtain ⟨rfl, ha⟩ := hab
  exact hf a ha

end Matches

end Pass

/-- Stores that answer alike what extraction asks about some records, but for the rows of the
batches: of these only the ones for requested ids are the same, up to their order. -/
structure MetadataStore.DifferInRows (R : σ → τ → Prop) (m : MetadataStore σ) (n : MetadataStore τ)
    (table : Table) (records : List ShardRecord) (options : ExtractionOptions) : Prop where
  column : ∀ id, StoreCall.Alike R (m.column table.id id) (n.column table.id id)
  sortColumns : StoreCall.Alike R (m.sortColumns table.id) (n.sortColumns table.id)
  rows : ∀ c, Pass.MayGive R (Extraction.columns m table options) c →
    ∀ batch ∈ batches options.batchSize (records.filter fun r => !r.isDelta),
      StoreCall.Matches R (m.queryIndex table.id c.ids (batch.map ShardRecord.id))
        (n.queryIndex table.id c.ids (batch.map ShardRecord.id))
        (SameRows (batch.map ShardRecord.id))

namespace Extraction

open Findings Pass

variable {R : σ → τ → Prop} {m : MetadataStore σ} {n : MetadataStore τ} {table : Table}
  {records : List ShardRecord} {options : ExtractionOptions}

theorem queryBatches_matches {id : Int64} {c : RangeColumns} {batches : List (List ShardRecord)}
    (h : ∀ batch ∈ batches,
      StoreCall.Matches R (m.queryIndex id c.ids (batch.map ShardRecord.id))
        (n.queryIndex id c.ids (batch.map ShardRecord.id)) (SameRows (batch.map ShardRecord.id)))
    {resolved resolved' : IdMap Shard} (hsame : ∀ id : Int64, resolved[id]? = resolved'[id]?) :
    Matches R (queryBatches m id c batches resolved) (queryBatches n id c batches resolved')
      fun found found' => ∀ id : Int64, found[id]? = found'[id]? := by
  induction batches generalizing resolved resolved' with
  | nil => exact .pure hsame
  | cons batch batches ih =>
    obtain ⟨hbatch, hrest⟩ := List.forall_mem_cons.mp h
    rw [queryBatches, queryBatches]
    apply (Matches.call hbatch).bind
    intro rows rows' hrows
    apply (Matches.log _ _).bind
    intro _ _ _
    refine ih hrest (RangeColumns.resolve_congr (fun r hr => ?_) hsame)
    rw [RangeColumns.lastDecoded?, RangeColumns.lastDecoded?,
      hrows.filter_eq (List.mem_map_of_mem hr)]

theorem collect_matches (id : Int64) (records : List ShardRecord) {resolved resolved' : IdMap Shard}
    (h : ∀ id : Int64, resolved[id]? = resolved'[id]?) :
    Matches R (collect id records resolved) (collect id records resolved') Eq := by
  intro s t hst
  obtain ⟨s', hs, hs'⟩ := collect_gives (· = s.store) id records h s rfl
  obtain ⟨t', ht, ht'⟩ := collect_gives (· = t.store) id records (fun _ => rfl) t rfl
  obtain ⟨hsout, rfl⟩ := eq_ok_iff.mp hs
  obtain ⟨htout, rfl⟩ := eq_ok_iff.mp ht
  rw [hsout, htout, hs', ht']
  exact ⟨rfl, hst⟩

theorem ofRecords_matches (h : m.DifferInRows R n table records options) :
    Matches R (ofRecords m table records options) (ofRecords n table records options) Eq := by
  rw [ofRecords_eq, ofRecords_eq]
  apply Matches.bind_alike (columns_alike h.column h.sortColumns options)
  intro c hc
  rw [ofColumns, ofColumns]
  apply (queryBatches_matches (h.rows c hc) fun _ => rfl).bind
  intro resolved resolved' hresolved
  apply (collect_matches table.id _ hresolved).bind
  intro shards _ hshards
  obtain rfl := hshards
  exact .pure rfl

end Extraction

/-- A batch of records with the rows that the store answers its query with. -/
structure AnsweredBatch where
  records : List ShardRecord
  rows : List IndexRow

namespace AnsweredBatch

/-- The query of the batch and its answer. -/
def exchange (table : Int64) (c : RangeColumns) (b : AnsweredBatch) : Exchange :=
  ⟨.queryIndex table c.ids (b.records.map ShardRecord.id), .ok b.rows⟩

/-- The shards that the rows make of the records, in the order of the records. -/
def shards (c : RangeColumns) (b : AnsweredBatch) : List Shard :=
  b.records.filterMap (c.lastDecoded? b.rows)

end AnsweredBatch

namespace RangeColumns

variable {c : RangeColumns}

/-- Resolves batches one after another. -/
def resolveAll (c : RangeColumns) (answered : List AnsweredBatch) (resolved : IdMap Shard) :
    IdMap Shard :=
  answered.foldl (fun resolved b => c.resolve b.records b.rows resolved) resolved

theorem getElem?_resolve_of_notMem {batch : List ShardRecord} {id : Int64}
    (h : id ∉ batch.map ShardRecord.id) (rows : List IndexRow) (resolved : IdMap Shard) :
    (c.resolve batch rows resolved)[id]? = resolved[id]? := by
  have hnone : (byId batch)[id]? = none := by
    refine Option.eq_none_iff_forall_ne_some.mpr fun r hr => ?_
    obtain ⟨hmem, rfl⟩ := mem_of_byId hr
    exact h (List.mem_map_of_mem hmem)
  rw [getElem?_resolve, hnone, Option.bind_none, Option.none_or]

theorem getElem?_resolveAll_of_notMem {answered : List AnsweredBatch} {id : Int64}
    (h : id ∉ (answered.flatMap AnsweredBatch.records).map ShardRecord.id)
    (resolved : IdMap Shard) : (c.resolveAll answered resolved)[id]? = resolved[id]? := by
  induction answered generalizing resolved with
  | nil => rfl
  | cons b answered ih =>
    rw [List.flatMap_cons, List.map_append, List.mem_append, not_or] at h
    exact (ih h.2 _).trans (getElem?_resolve_of_notMem h.1 b.rows resolved)

/-- If ids do not repeat, each batch makes its shards, whatever was resolved before. -/
theorem filterMap_resolveAll {answered : List AnsweredBatch}
    (hnd : ((answered.flatMap AnsweredBatch.records).map ShardRecord.id).Nodup)
    {resolved : IdMap Shard}
    (hnew : ∀ r ∈ answered.flatMap AnsweredBatch.records, resolved[r.id]? = none) :
    ((answered.flatMap AnsweredBatch.records).filterMap fun r =>
        (c.resolveAll answered resolved)[r.id]?) =
      answered.flatMap (AnsweredBatch.shards c) := by
  induction answered generalizing resolved with
  | nil => rfl
  | cons b answered ih =>
    rw [List.flatMap_cons, List.map_append, List.nodup_append'] at hnd
    rw [List.flatMap_cons, List.forall_mem_append] at hnew
    obtain ⟨hb, hrest, hdisjoint⟩ := hnd
    rw [List.flatMap_cons, List.flatMap_cons, List.filterMap_append]
    congr 1
    · refine List.filterMap_congr fun r hr => ?_
      have hlast : (byId b.records)[r.id]? = some r := FilledMap.getElem?_fill_of_nodup hb hr
      have hlater := hdisjoint (List.mem_map_of_mem hr)
      refine (getElem?_resolveAll_of_notMem hlater _).trans ?_
      rw [getElem?_resolve, hlast, hnew.1 r hr, Option.bind_some, Option.or_none]
    · refine ih hrest fun r hr => ?_
      have hearlier : r.id ∉ b.records.map ShardRecord.id :=
        fun h => hdisjoint h (List.mem_map_of_mem hr)
      rw [getElem?_resolve_of_notMem hearlier, hnew.2 r hr]

end RangeColumns

namespace Extraction

open Findings Pass

variable {R : σ → τ → Prop} {m : MetadataStore σ} {n : MetadataStore τ} {table : Table}
  {records : List ShardRecord} {options : ExtractionOptions}

theorem queryBatches_answered (store : MetadataStore σ) (id : Int64) (c : RangeColumns)
    (batches : List (List ShardRecord)) (resolved : IdMap Shard) :
    Records (queryBatches store id c batches resolved)
      (queryBatches store.recorded id c batches resolved)
      fun calls r => ∀ found, r = .ok found → ∃ answered : List AnsweredBatch,
        answered.map AnsweredBatch.records = batches ∧
        calls = answered.map (AnsweredBatch.exchange id c) ∧
        found = c.resolveAll answered resolved := by
  induction batches generalizing resolved with
  | nil =>
    apply Records.pure
    intro found hfound
    exact ⟨[], rfl, rfl, (Except.ok.inj hfound).symm⟩
  | cons batch batches ih =>
    rw [queryBatches, queryBatches]
    apply Records.ask_bind store (.queryIndex id c.ids (batch.map ShardRecord.id))
    · simp
    · intro rows
      apply Records.log_bind
      apply Records.weaken (ih (c.resolve batch rows resolved))
      intro calls s h found hfound
      obtain ⟨answered, rfl, rfl, rfl⟩ := h found hfound
      exact ⟨⟨batch, rows⟩ :: answered, rfl, rfl, rfl⟩

theorem collect_taken (id : Int64) (records : List ShardRecord) (resolved : IdMap Shard) :
    Records (collect id records resolved : Pass σ (List Shard)) (collect id records resolved)
      fun calls r => calls = [] ∧ r = .ok (taken (fun id => resolved[id]?) records) := by
  apply (collect_records id records resolved).weaken
  intro calls s h
  obtain ⟨_, hs, -⟩ := collect_gives (fun _ => True) id records (fun _ => rfl) s trivial
  exact ⟨h.1, (eq_ok_iff.mp hs).1⟩

/-- Where the eligible shards of an extraction come from: after lookups of the columns there is one
query for each batch, and its answer makes the shards of the batch. -/
structure DrawnFrom (store : MetadataStore σ) (s : Session σ) (table : Table)
    (records : List ShardRecord) (options : ExtractionOptions) (calls : List Exchange)
    (e : EligibleShards) (c : RangeColumns) (lookups : List Exchange)
    (answered : List AnsweredBatch) : Prop where
  columns_eq : outcome (columns store table options) s = .ok c
  lookups_eq : lookups.map Exchange.request = columnRequests table options
  batches_eq : answered.map AnsweredBatch.records =
    batches options.batchSize (records.filter fun r => !r.isDelta)
  calls_eq : calls = lookups ++ answered.map (AnsweredBatch.exchange table.id c)
  shards_eq : e.shards = answered.flatMap (AnsweredBatch.shards c)

theorem ofRecords_drawn (store : MetadataStore σ) (s : Session σ) (table : Table)
    (options : ExtractionOptions) (hnd : (records.map ShardRecord.id).Nodup) :
    RecordsAt s (ofRecords store table records options)
      (ofRecords store.recorded table records options)
      fun calls r => ∀ e, r = .ok e → ∃ c lookups answered,
        DrawnFrom store s table records options calls e c lookups answered := by
  have hcandidates : ((records.filter fun r => !r.isDelta).map ShardRecord.id).Nodup :=
    hnd.sublist (List.filter_sublist.map _)
  rw [ofRecords_eq, ofRecords_eq]
  apply (columns_records store table options s).bind
  · simp
  intro c lookups hcolumns h
  obtain ⟨c', hc⟩ := h
  obtain rfl := hc.eq c rfl
  have hlookups := Follows.complete hc.ends rfl
  apply Records.bind (queryBatches_answered store table.id c _ ∅)
  · simp
  intro resolved calls h
  obtain ⟨answered, hbatches, rfl, rfl⟩ := h resolved rfl
  have hrecords : (answered.flatMap AnsweredBatch.records) =
      records.filter fun r => !r.isDelta := by
    rw [List.flatMap_def, hbatches, flatten_batches]
  apply (collect_taken table.id _ _).bind
  · simp
  intro shards more hcollect
  obtain ⟨rfl, hshards⟩ := hcollect
  apply Records.pure
  intro e he
  obtain rfl := Except.ok.inj he
  refine ⟨c, lookups, answered, hcolumns, hlookups, hbatches, by simp, ?_⟩
  rw [Except.ok.inj hshards, taken_of_nodup hcandidates, ← hrecords]
  rw [← hrecords] at hcandidates
  exact RangeColumns.filterMap_resolveAll hcandidates fun _ _ => by simp

/-- Stores that differ in the order of rows and in rows for other shards than the requested ones let
extraction end alike. In any store, if ids do not repeat, the eligible shards are those of the
answers, batch by batch: of several rows for a record the last one that can be decoded is taken, and
rows that cannot be decoded count for nothing. The answers are recorded by a store that answers as
the given one does. -/
theorem ofRecords_takes_last_decoded_rows {ρ : Type} (table : Table) (records : List ShardRecord)
    (options : ExtractionOptions) :
    (∀ (R : σ → τ → Prop) (m : MetadataStore σ) (n : MetadataStore τ),
      m.DifferInRows R n table records options → ∀ s t, R s.store t.store →
        outcome (ofRecords m table records options) s =
          outcome (ofRecords n table records options) t) ∧
    ((records.map ShardRecord.id).Nodup → ∀ (store : MetadataStore ρ) (s : Session ρ), ∃ calls,
      outcome (ofRecords store.recorded table records options) (s.recorded []) =
        outcome (ofRecords store table records options) s ∧
      stateAfter (ofRecords store.recorded table records options) (s.recorded []) =
        (stateAfter (ofRecords store table records options) s).recorded calls ∧
      ∀ e, outcome (ofRecords store table records options) s = .ok e → ∃ c lookups answered,
        DrawnFrom store s table records options calls e c lookups answered) := by
  refine ⟨fun R m n h s t hst => ?_, fun hnd store s => ?_⟩
  case refine_2 => exact ofRecords_drawn store s table options hnd []
  exact related_eq_iff.mp (ofRecords_matches h s t hst).1

/-- A store that answers every index query by one function. -/
def answeringStore (answer : List Int64 → List IndexRow) : MetadataStore Unit where
  table _ := pure .daily
  tables := pure [.daily]
  column table column := pure ⟨table, column, "day", .date, 0, none⟩
  sortColumns _ := pure []
  shards _ := pure []
  queryIndex _ _ shards := pure (answer shards)

/-- The row of a shard that lies within a day. -/
def dayRow (day : Int64) (shard : Int64) : IndexRow :=
  ⟨shard, [some (.integer day)], [some (.integer day)]⟩

/-- A row without statistics. -/
def emptyRow (shard : Int64) : IndexRow := ⟨shard, [none], [none]⟩

/-- Rows in reverse order, after rows for shards that were not asked for: those of other batches, a
delete-delta shard and an unknown one. -/
def strayRows (shards : List Int64) : List IndexRow :=
  ([1, 2, 3, 4, 9].filter (· ∉ shards)).map (dayRow 9) ++ shards.reverse.map (dayRow 8)

/-- Several rows for each shard. Of the second one none can be decoded. -/
def repeatedRows (shards : List Int64) : List IndexRow :=
  shards.flatMap fun id =>
    if id = 2 then [emptyRow id, emptyRow id]
    else [dayRow 8 id, emptyRow id, dayRow 9 id, emptyRow id]

theorem ofRecords_takes_last_decoded_rows_of_answers :
    let records : List ShardRecord :=
      [.plain 1 1 false, .plain 2 2 false, .plain 4 4 true, .plain 3 3 false]
    let m := answeringStore (·.map (dayRow 8))
    let n := answeringStore strayRows
    let store := answeringStore repeatedRows
    let s : Session Unit := .start () (.empty .error)
    m.DifferInRows Eq n .daily records ⟨false, 2⟩ ∧
      outcome (ofRecords m .daily records ⟨false, 2⟩) s =
        outcome (ofRecords n .daily records ⟨false, 2⟩) s ∧
      ∃ e calls c lookups answered,
        outcome (ofRecords store .daily records ⟨false, 2⟩) s = .ok e ∧
        e.shards.map (fun shard => (shard.uuid, shard.temporalRange)) =
          [(.ofNat 1, some (.single .date 9 9)), (.ofNat 3, some (.single .date 9 9))] ∧
        DrawnFrom store s .daily records ⟨false, 2⟩ calls e c lookups answered := by
  intro records m n store s
  have hdiffer : m.DifferInRows Eq n .daily records ⟨false, 2⟩ := by
    refine ⟨fun _ => StoreCall.alike_self _, StoreCall.alike_self _, fun c _ batch hbatch => ?_⟩
    have hrows : ∀ batch ∈ batches 2 (records.filter fun r => !r.isDelta),
        SameRows (batch.map ShardRecord.id) ((batch.map ShardRecord.id).map (dayRow 8))
          (strayRows (batch.map ShardRecord.id)) := by decide +kernel
    exact fun a b hab => ⟨hrows batch hbatch, hab⟩
  obtain ⟨hsame, hdrawn⟩ :=
    @ofRecords_takes_last_decoded_rows Unit Unit Unit .daily records ⟨false, 2⟩
  have hok : Pass.yields (ofRecords store .daily records ⟨false, 2⟩) s (fun e =>
      e.shards.map (fun shard => (shard.uuid, shard.temporalRange)) =
        [(.ofNat 1, some (.single .date 9 9)), (.ofNat 3, some (.single .date 9 9))]) = true := by
    decide +kernel
  obtain ⟨e, s', he, hshards⟩ := Pass.exists_ok_of_yields hok
  have hout := (eq_ok_iff.mp he).1
  obtain ⟨calls, -, -, hcalls⟩ := hdrawn (by decide) store s
  obtain ⟨c, lookups, answered, hfrom⟩ := hcalls e hout
  exact ⟨hdiffer, hsame Eq m n hdiffer s s rfl, e, calls, c, lookups, answered, hout,
    of_decide_eq_true hshards, hfrom⟩

end Extraction

end ShardCompaction
