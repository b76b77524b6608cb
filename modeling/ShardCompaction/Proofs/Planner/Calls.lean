import ShardCompaction.Proofs.Compaction.Plan
import ShardCompaction.Proofs.Planner.Recording

namespace ShardCompaction

variable {σ α : Type}

/-- What a pass gets to know from its store. -/
structure Findings where
  table : Table
  records : List ShardRecord
  columns : RangeColumns

namespace Findings

/-- An answer that the findings were made from. -/
def Agrees (f : Findings) : Exchange → Prop
  | ⟨.table _, .ok table⟩ => f.table = table
  | ⟨.shards _, .ok records⟩ => f.records = records
  | ⟨.column _ _, .ok column⟩ => f.columns.temporal = some column
  | ⟨.sortColumns _, .ok columns⟩ => f.columns.sort = some columns
  | _ => True

/-- The lookups of columns: the temporal one if there is one, then the sort columns if they are
wanted. -/
def columnRequests (table : Table) (options : ExtractionOptions) : List Request :=
  table.temporalColumn.toList.map (.column table.id) ++
    if options.includeSortColumns then [.sortColumns table.id] else []

/-- One index query for each batch of the records that are no delete-delta shards. -/
def indexRequests (f : Findings) (options : ExtractionOptions) : List Request :=
  (batches options.batchSize (f.records.filter fun r => !r.isDelta)).map fun batch =>
    .queryIndex f.table.id f.columns.ids (batch.map ShardRecord.id)

/-- All calls of a pass, in their order. -/
def requests (f : Findings) (id : Int64) (options : ExtractionOptions) : List Request :=
  [.table id, .shards f.table.id] ++ (columnRequests f.table options ++ f.indexRequests options)

/-- Columns that were not looked up are not there. -/
structure Wants (f : Findings) (options : ExtractionOptions) : Prop where
  temporal : f.table.temporalColumn = none → f.columns.temporal = none
  sort : options.includeSortColumns = false → f.columns.sort = none

end Findings

namespace Extraction

open Findings Pass

variable {store : MetadataStore σ} {table : Table} {options : ExtractionOptions}
  {records : List ShardRecord}

/-- Calls that look up columns by a plan. What they find out agrees with their answers, and is the
result if there is one. -/
structure LooksUp (plan : List Request) (agrees : α → Exchange → Prop) (calls : List Exchange)
    (r : Except Abort α) (found : α) : Prop where
  agrees : ∀ call ∈ calls, agrees found call
  ends : Follows.Ends plan calls (abort? r)
  eq : ∀ a, r = .ok a → a = found

theorem LooksUp.single {q : Request} {answer : Except MetadataError q.Answer}
    {agrees : α → Exchange → Prop} {r : Except Abort α} {found : α}
    (hagrees : agrees found ⟨q, answer⟩) (hends : Follows.Ends [q] [⟨q, answer⟩] (abort? r))
    (heq : ∀ a, r = .ok a → a = found) : LooksUp [q] agrees [⟨q, answer⟩] r found :=
  ⟨List.forall_mem_singleton.mpr hagrees, hends, heq⟩

theorem temporalLookup_records (store : MetadataStore σ) (table : Table) :
    Records (temporalLookup store table) (temporalLookup store.recorded table) fun calls r =>
      ∃ temporal, (table.temporalColumn = none → temporal = none) ∧
        LooksUp (table.temporalColumn.toList.map (.column table.id))
          (fun temporal call => ∀ records sort, Agrees ⟨table, records, temporal, sort⟩ call)
          calls r temporal := by
  rw [temporalLookup, temporalLookup]
  cases table.temporalColumn with
  | none => exact .pure ⟨none, fun _ => rfl, by simp, .nil, fun a ha => (Except.ok.inj ha).symm⟩
  | some columnId =>
    have hends := Follows.single (.column table.id columnId)
    apply Records.ask_bind store (.column table.id columnId)
    · intro e
      exact ⟨none, by simp, .single (fun _ _ => trivial) (hends (.error e)) (by simp)⟩
    · intro column
      have hcolumn := hends (.ok column)
      rw [Exchange.failure?] at hcolumn
      by_cases htype : column.type.isTemporal = true
      · rw [if_pos htype] at hcolumn
        simp only [if_pos htype]
        apply Records.pure
        refine ⟨some column, by simp, .single (fun _ _ => rfl) hcolumn ?_⟩
        exact fun a ha => (Except.ok.inj ha).symm
      · rw [if_neg htype] at hcolumn
        simp only [if_neg htype]
        apply Records.throw
        exact ⟨some column, by simp, .single (fun _ _ => rfl) hcolumn (by simp)⟩

theorem sortLookup_records (store : MetadataStore σ) (table : Table)
    (options : ExtractionOptions) :
    Records (sortLookup store table options) (sortLookup store.recorded table options)
      fun calls r => ∃ sort, (options.includeSortColumns = false → sort = none) ∧
        LooksUp (if options.includeSortColumns then [.sortColumns table.id] else [])
          (fun sort call => ∀ records temporal, Agrees ⟨table, records, temporal, sort⟩ call)
          calls r sort := by
  rw [sortLookup, sortLookup]
  cases options.includeSortColumns with
  | false => exact .pure ⟨none, fun _ => rfl, by simp, .nil, fun a ha => (Except.ok.inj ha).symm⟩
  | true =>
    have hends := Follows.single (.sortColumns table.id)
    rw [if_pos rfl, if_pos rfl, if_pos rfl, map_eq_pure_bind, map_eq_pure_bind]
    apply Records.ask_bind store (.sortColumns table.id)
    · intro e
      exact ⟨none, by simp, .single (fun _ _ => trivial) (hends (.error e)) (by simp)⟩
    · intro columns
      apply Records.pure
      refine ⟨some columns, by simp, .single (fun _ _ => rfl) (hends (.ok columns)) ?_⟩
      exact fun a ha => (Except.ok.inj ha).symm

/-- The lookups of the columns of a table. -/
structure FindsColumns (table : Table) (options : ExtractionOptions) (calls : List Exchange)
    (r : Except Abort RangeColumns) (c : RangeColumns) : Prop
    extends LooksUp (columnRequests table options)
      (fun c call => ∀ records, Agrees ⟨table, records, c⟩ call) calls r c where
  temporal : table.temporalColumn = none → c.temporal = none
  sort : options.includeSortColumns = false → c.sort = none

theorem columns_records (store : MetadataStore σ) (table : Table) (options : ExtractionOptions) :
    Records (columns store table options) (columns store.recorded table options) fun calls r =>
      ∃ c, FindsColumns table options calls r c := by
  rw [columns_eq, columns_eq]
  apply (temporalLookup_records store table).bind
  · intro calls e h
    obtain ⟨temporal, hnone, hlooks⟩ := h
    refine ⟨⟨temporal, none⟩, ⟨?_, hlooks.ends.halt _, by simp⟩, hnone, fun _ => rfl⟩
    exact fun call hcall records => hlooks.agrees call hcall records none
  · intro temporal calls h
    obtain ⟨found, hnone, htemporal⟩ := h
    obtain rfl := htemporal.eq temporal rfl
    have agrees : ∀ {others : List Exchange} {sort : Option (List TableColumn)},
        (∀ call ∈ others, ∀ records temporal, Agrees ⟨table, records, temporal, sort⟩ call) →
        ∀ call ∈ calls ++ others, ∀ records, Agrees ⟨table, records, temporal, sort⟩ call := by
      intro others sort hothers call hcall records
      exact (List.mem_append.mp hcall).elim (htemporal.agrees call · records sort)
        (hothers call · records temporal)
    apply (sortLookup_records store table options).bind
    · intro others e h
      obtain ⟨sort, hwanted, hsort⟩ := h
      exact ⟨⟨temporal, sort⟩, ⟨agrees hsort.agrees, hsort.ends.prepend htemporal.ends, by simp⟩,
        hnone, hwanted⟩
    · intro sort others h
      obtain ⟨found, hwanted, hsort⟩ := h
      obtain rfl := hsort.eq sort rfl
      apply Records.pure
      rw [List.append_nil]
      exact ⟨⟨temporal, sort⟩, ⟨agrees hsort.agrees, hsort.ends.prepend htemporal.ends,
        fun a ha => (Except.ok.inj ha).symm⟩, hnone, hwanted⟩

theorem queryBatches_records (store : MetadataStore σ) (id : Int64) (c : RangeColumns)
    (batches : List (List ShardRecord)) (resolved : IdMap Shard) :
    Records (queryBatches store id c batches resolved)
      (queryBatches store.recorded id c batches resolved)
      fun calls r => Follows.Ends (batches.map fun batch =>
        .queryIndex id c.ids (batch.map ShardRecord.id)) calls (abort? r) := by
  induction batches generalizing resolved with
  | nil => exact .pure .nil
  | cons batch batches ih =>
    have hfirst := fun answer =>
      Follows.single (.queryIndex id c.ids (batch.map ShardRecord.id)) answer
    rw [queryBatches, queryBatches, List.map_cons]
    apply Records.ask_bind store (.queryIndex id c.ids (batch.map ShardRecord.id))
    · intro e
      exact (hfirst (.error e)).stop _
    · intro rows
      apply Records.log_bind
      apply Records.weaken (ih (c.resolve batch rows resolved))
      intro calls s hends
      exact hends.prepend (hfirst (.ok rows))

/-- Collecting makes no call and succeeds. -/
theorem collect_records (id : Int64) (records : List ShardRecord) (resolved : IdMap Shard) :
    Records (collect id records resolved : Pass σ (List Shard)) (collect id records resolved)
      fun calls r => calls = [] ∧ ∃ shards, r = .ok shards := by
  induction records generalizing resolved with
  | nil => exact .pure ⟨rfl, [], rfl⟩
  | cons record records ih =>
    rw [collect, collect]
    cases resolved[record.id]? with
    | none => exact .log_bind (ih resolved)
    | some shard =>
      apply (ih (resolved.erase record.id)).bind
      · intro calls e h
        obtain ⟨-, shards, hs⟩ := h
        simp at hs
      · intro shards calls h
        obtain ⟨rfl, -⟩ := h
        exact .pure ⟨rfl, _, rfl⟩

/-- The calls of extraction, with what they find out about a table and its records. -/
structure Extracts (table : Table) (records : List ShardRecord) (options : ExtractionOptions)
    (calls : List Exchange) (r : Except Abort EligibleShards) (f : Findings) : Prop where
  table : f.table = table
  records : f.records = records
  wants : f.Wants options
  agrees : ∀ call ∈ calls, f.Agrees call
  ends : Follows.Ends (columnRequests f.table options ++ f.indexRequests options) calls (abort? r)

theorem agrees_of_ends {f : Findings} {calls : List Exchange} {stop : Option Abort}
    (h : Follows.Ends (f.indexRequests options) calls stop) : ∀ call ∈ calls, f.Agrees call := by
  intro call hcall
  obtain ⟨batch, -, hq⟩ := List.mem_map.mp (h.order.subset (List.mem_map_of_mem hcall))
  obtain ⟨q, answer⟩ := call
  obtain rfl : _ = q := hq
  cases answer <;> trivial

theorem ofRecords_records (store : MetadataStore σ) (table : Table) (records : List ShardRecord)
    (options : ExtractionOptions) :
    Records (ofRecords store table records options)
      (ofRecords store.recorded table records options)
      fun calls r => ∃ f, Extracts table records options calls r f := by
  rw [ofRecords, ofRecords]
  apply (columns_records store table options).bind
  · intro calls a h
    obtain ⟨c, hc⟩ := h
    exact ⟨⟨table, records, c⟩, rfl, rfl, ⟨hc.temporal, hc.sort⟩,
      fun call hcall => hc.agrees call hcall records, hc.ends.halt _⟩
  · intro c calls h
    obtain ⟨c', hc⟩ := h
    obtain rfl := hc.eq c rfl
    let f : Findings := ⟨table, records, c⟩
    have extracts : ∀ others r, Follows.Ends (f.indexRequests options) others (abort? r) →
        Extracts table records options (calls ++ others) r f := by
      intro others r hends
      refine ⟨rfl, rfl, ⟨hc.temporal, hc.sort⟩, ?_, hends.prepend hc.ends⟩
      intro call hcall
      exact (List.mem_append.mp hcall).elim (hc.agrees call · records) (agrees_of_ends hends call)
    apply Records.bind (queryBatches_records store table.id c _ ∅)
    · intro others a h
      exact ⟨f, extracts others _ h⟩
    · intro resolved others h
      apply (collect_records table.id _ resolved).bind
      · intro more a h
        obtain ⟨-, shards, hs⟩ := h
        simp at hs
      · intro shards more hcollect
        obtain ⟨rfl, -⟩ := hcollect
        apply Records.pure
        rw [List.append_nil, List.append_nil]
        exact ⟨f, extracts others _ h⟩

end Extraction

namespace Planner

open Findings Pass

/-- The planner on the store that records what it is asked. -/
def recorded (p : Planner σ) : Planner (Recorded σ) := ⟨p.store.recorded, p.compactor, p.options⟩

/-- The calls of a pass, with what they find out. -/
structure Consults (p : Planner σ) (id : Int64) (calls : List Exchange) (stop : Option Abort)
    (f : Findings) : Prop where
  wants : f.Wants p.options
  agrees : ∀ call ∈ calls, f.Agrees call
  ends : Follows.Ends (f.requests id p.options) calls stop

/-- The survey of a pass: its calls, and the table that they find. -/
def Surveys (p : Planner σ) (id : Int64) (calls : List Exchange)
    (r : Except Abort (Table × EligibleShards)) : Prop :=
  ∃ f, p.Consults id calls (abort? r) f ∧ ∀ found, r = .ok found → found.1 = f.table

theorem survey_records (p : Planner σ) (id : Int64) :
    Records (p.survey id) (p.recorded.survey id) (p.Surveys id) := by
  have hfirst := fun answer => Follows.single (.table id) answer
  rw [survey, survey]
  apply Records.ask_bind p.store (.table id)
  · intro e
    refine ⟨⟨default, [], none, none⟩, ⟨⟨fun _ => rfl, fun _ => rfl⟩, ?_, ?_⟩, by simp⟩
    · intro call hcall
      obtain rfl := List.mem_singleton.mp hcall
      trivial
    · exact (hfirst (.error e)).stop _
  · intro table
    have hsecond := fun answer => (hfirst (.ok table)).append (.single (.shards table.id) answer)
    simp only [Extraction.ofTable, bind_assoc]
    apply Records.ask_bind p.store (.shards table.id)
    · intro e
      refine ⟨⟨table, [], none, none⟩, ⟨⟨fun _ => rfl, fun _ => rfl⟩, ?_, ?_⟩, by simp⟩
      · intro call hcall
        rcases List.mem_cons.mp hcall with rfl | hcall
        · rfl
        · obtain rfl := List.mem_singleton.mp hcall
          trivial
      · exact (hsecond (.error e)).stop _
    · intro records
      have surveys : ∀ {calls r f}, Extraction.Extracts table records p.options calls r f →
          p.Consults id
            (⟨.table id, .ok table⟩ :: ⟨.shards table.id, .ok records⟩ :: calls) (abort? r) f := by
        intro calls r f h
        obtain ⟨rfl, rfl, hwants, hagrees, hends⟩ := h
        refine ⟨hwants, ?_, hends.prepend (hsecond (.ok f.records))⟩
        intro call hcall
        rcases List.mem_cons.mp hcall with rfl | hcall
        · rfl
        · rcases List.mem_cons.mp hcall with rfl | hcall
          · rfl
          · exact hagrees call hcall
      apply (Extraction.ofRecords_records p.store table records p.options).bind
      · intro calls a h
        obtain ⟨f, hf⟩ := h
        exact ⟨f, surveys hf, by simp⟩
      · intro eligible calls h
        obtain ⟨f, hf⟩ := h
        apply Records.pure
        rw [List.append_nil]
        refine ⟨f, surveys hf, ?_⟩
        intro found hfound
        obtain rfl := Except.ok.inj hfound
        exact hf.table.symm

theorem settle_records (p : Planner σ) (id : Int64) (table : Table) (eligible : EligibleShards) :
    Records (p.settle id table eligible) (p.recorded.settle id table eligible) fun calls r =>
      calls = [] ∧ r = ((p.compactor.plan table eligible.shards).map CompactionPlan.sets).mapError
        .defect := by
  intro s before
  refine ⟨[], ?_, ?_, rfl, outcome_settle table eligible⟩
  · rw [outcome_settle, outcome_settle]
    rfl
  · rw [List.append_nil, settle, settle]
    dsimp only [recorded]
    cases p.compactor.plan table eligible.shards <;> rfl

/-- The calls of a pass and how it ends: as their first failure says, or, if there is none, with
what the compactor makes of the table and its eligible shards. The pass surveys them from `s`. -/
structure Passes (p : Planner σ) (id : Int64) (s : Session σ) (f : Findings)
    (calls : List Exchange) (failure : Option MetadataError)
    (r : Except Abort (List OrganizationSet)) : Prop where
  wants : f.Wants p.options
  agrees : ∀ call ∈ calls, f.Agrees call
  follows : Follows (f.requests id p.options) calls failure
  fails : ∀ e ∈ failure, r = .error (.store e)
  plans : failure = none → ∃ eligible, outcome (p.survey id) s = .ok (f.table, eligible) ∧
    r = ((p.compactor.plan f.table eligible.shards).map CompactionPlan.sets).mapError .defect

theorem work_recordsAt (p : Planner σ) (id : Int64) (s : Session σ) :
    RecordsAt s (p.work id) (p.recorded.work id) fun calls r =>
      ∃ f failure, p.Passes id s f calls failure r := by
  rw [work_eq, work_eq]
  apply (survey_records p id s).bind
  · intro calls a _ h
    obtain ⟨f, ⟨hwants, hagrees, hends⟩, -⟩ := h
    match a with
    | .store e =>
      refine ⟨f, some e, hwants, hagrees, hends, ?_, by simp⟩
      intro e' he
      rw [Option.some.inj he]
    | .defect _ => exact hends.elim
  · intro found calls hsurvey h
    obtain ⟨f, ⟨hwants, hagrees, hends⟩, hfound⟩ := h
    obtain ⟨table, eligible⟩ := found
    obtain rfl : table = f.table := hfound _ rfl
    refine (settle_records p id f.table eligible).weaken ?_ _
    intro others s' h
    obtain ⟨rfl, hr⟩ := h
    rw [List.append_nil]
    exact ⟨f, none, hwants, hagrees, hends, by simp, fun _ => ⟨eligible, hsurvey, hr⟩⟩

theorem planTable_recordsAt {p : Planner σ} {id : Int64} {s : Session σ}
    {P : List Exchange → Except Abort (List OrganizationSet) → Prop}
    (h : RecordsAt (opened id s) (p.work id) (p.recorded.work id) P) :
    RecordsAt s (p.planTable id) (p.recorded.planTable id) P := by
  intro before
  obtain ⟨calls, hout, hafter, hP⟩ := h before
  have hopened : opened id (s.recorded before) = (opened id s).recorded before := rfl
  have hclosed : ∀ r (s : Session σ) calls, closed id r (s.recorded calls) =
      (closed id r s).recorded calls := by
    intro r s calls
    match r with
    | .ok _ => rfl
    | .error (.store _) => rfl
    | .error (.defect _) => rfl
  refine ⟨calls, ?_, ?_, ?_⟩
  · rw [outcome_planTable, outcome_planTable, hopened, hout]
  · rw [stateAfter_planTable, stateAfter_planTable, hopened, hout, hafter, hclosed]
  · rwa [outcome_planTable]

/-- What the calls of a pass are and how it ends, for every store. They are recorded by a store that
answers as the given one does, on which the pass does the same. The calls come in their order, the
first one that fails is the last one made and its error is that of the pass; if none fails, the
whole plan of calls is carried out, and the pass ends with the plan of the eligible shards or with
its defect. -/
theorem planTable_calls (p : Planner σ) (id : Int64) (s : Session σ) :
    ∃ f calls failure,
      outcome (p.recorded.planTable id) (s.recorded []) = outcome (p.planTable id) s ∧
      stateAfter (p.recorded.planTable id) (s.recorded []) =
        (stateAfter (p.planTable id) s).recorded calls ∧
      p.Passes id (opened id s) f calls failure (outcome (p.planTable id) s) := by
  obtain ⟨calls, hout, hafter, f, failure, hpasses⟩ :=
    planTable_recordsAt (work_recordsAt p id (opened id s)) []
  exact ⟨f, calls, failure, hout, hafter, hpasses⟩

/-- A table with two small shards that have one identifier. -/
def twinStore : MetadataStore Unit where
  table _ := pure (.plain 1)
  tables := pure [.plain 1]
  column table column := throw (.columnNotFound table column)
  sortColumns _ := pure []
  shards _ := pure [.plain 1 1 false, .plain 2 1 false]
  queryIndex _ _ _ := pure [⟨1, [], []⟩, ⟨2, [], []⟩]

def twinPlanner : Planner Unit := ⟨twinStore, ⟨.utc, 100, 100⟩, .default⟩

/-- A pass all of whose calls succeed can still end without sets: two shards with one identifier do
not go into one set. -/
theorem planTable_of_twins_gives_no_sets :
    (stateAfter (twinPlanner.recorded.planTable 1)
        ((Session.start () (.empty .error)).recorded [])).store.calls.length = 3 ∧
      (∀ call ∈ (stateAfter (twinPlanner.recorded.planTable 1)
        ((Session.start () (.empty .error)).recorded [])).store.calls, call.failure? = none) ∧
      ¬∃ sets, outcome (twinPlanner.planTable 1) (.start () (.empty .error)) = .ok sets := by
  refine ⟨by decide +kernel, by decide +kernel, ?_⟩
  intro h
  obtain ⟨sets, hsets⟩ := h
  have hfails : (outcome (twinPlanner.planTable 1) (.start () (.empty .error))).isOk = false := by
    decide +kernel
  rw [hsets] at hfails
  exact Bool.noConfusion hfails

end Planner

end ShardCompaction
