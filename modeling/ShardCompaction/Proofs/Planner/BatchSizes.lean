import Mathlib.Algebra.Order.Floor.Div
import ShardCompaction.Proofs.Metadata.LastWrites
import ShardCompaction.Proofs.Planner.Calls
import ShardCompaction.Proofs.Planner.CatalogExtraction

namespace ShardCompaction

/-- A list cut into pieces of at most `size` items, with no more pieces than that takes. A size of
zero counts as one. -/
structure Batched {α : Type} (size : Nat) (items : List α) (pieces : List (List α)) : Prop where
  flatten : pieces.flatten = items
  length : pieces.length = items.length ⌈/⌉ max size 1
  sizes : ∀ piece ∈ pieces, 1 ≤ piece.length ∧ piece.length ≤ max size 1

theorem ceilDiv_of_pos {n size : Nat} (hn : 0 < n) (hsize : 0 < size) :
    n ⌈/⌉ size = (n - size) ⌈/⌉ size + 1 := by
  rw [Nat.ceilDiv_eq_add_pred_div, Nat.ceilDiv_eq_add_pred_div]
  by_cases h : size ≤ n
  · rw [← Nat.add_div_right _ hsize]
    congr 1
    omega
  · have hfirst : n + size - 1 = n - 1 + size := by omega
    have hrest : n - size + size - 1 = size - 1 := by omega
    rw [hfirst, hrest, Nat.add_div_right _ hsize, Nat.div_eq_of_lt (by omega),
      Nat.div_eq_of_lt (by omega)]

theorem batched_batches {α : Type} (size : Nat) (items : List α) :
    Batched size items (batches size items) := by
  refine ⟨flatten_batches size items, ?_, ?_⟩
  · induction items using batches.induct size with
    | case1 => simp [batches]
    | case2 item rest ih =>
      have hrest : (rest.drop (size - 1)).length = (item :: rest).length - max size 1 := by
        rw [List.length_drop, List.length_cons]
        omega
      rw [batches, List.length_cons, ih, hrest, ← ceilDiv_of_pos (by simp) (by omega)]
  · induction items using batches.induct size with
    | case1 => simp [batches]
    | case2 item rest ih =>
      rw [batches]
      refine List.forall_mem_cons.mpr ⟨?_, ih⟩
      rw [List.length_cons, List.length_take]
      omega

theorem Batched.map {α β : Type} {size : Nat} {items : List α} {pieces : List (List α)}
    (h : Batched size items pieces) (f : α → β) :
    Batched size (items.map f) (pieces.map (List.map f)) := by
  refine ⟨?_, ?_, ?_⟩
  · rw [← h.flatten, List.map_flatten]
  · rw [List.length_map, List.length_map, h.length]
  · intro piece hpiece
    obtain ⟨whole, hwhole, rfl⟩ := List.mem_map.mp hpiece
    rw [List.length_map]
    exact h.sizes whole hwhole

/-- The shards that an index query names. -/
def Request.indexed? : Request → Option (List Int64)
  | .queryIndex _ _ named => some named
  | _ => none

/-- The shards that the index queries among some requests name, query by query. -/
def indexed (requests : List Request) : List (List Int64) := requests.filterMap Request.indexed?

namespace Findings

theorem indexed_requests (f : Findings) (options : ExtractionOptions) :
    indexed (columnRequests f.table options ++ f.indexRequests options) =
      (batches options.batchSize (f.records.filter fun r => !r.isDelta)).map
        (List.map ShardRecord.id) := by
  have hcolumns : indexed (columnRequests f.table options) = [] := by
    rw [columnRequests]
    cases f.table.temporalColumn <;> cases options.includeSortColumns <;> rfl
  have hindex : indexed (f.indexRequests options) =
      (batches options.batchSize (f.records.filter fun r => !r.isDelta)).map
        (List.map ShardRecord.id) := by
    rw [indexed, indexRequests, List.filterMap_map]
    exact congrFun List.filterMap_eq_map _
  rw [indexed, List.filterMap_append, ← indexed, hcolumns, List.nil_append, ← indexed, hindex]

end Findings

/-- What was extracted, apart from the number of queries that it took. -/
def EligibleShards.withoutQueries (e : EligibleShards) : EligibleShards :=
  { e with indexQueries := 0 }

namespace CatalogStore

open Extraction

variable {table : Table} {records : List ShardRecord} {options : ExtractionOptions}
  {s : Session CatalogStore}

theorem sameContent_columns {c : RangeColumns}
    (h : outcome (columns asMetadataStore table options) s = .ok c) :
    s.store.SameContent (stateAfter (columns asMetadataStore table options) s).store := by
  have hcolumn : ∀ id ∈ table.temporalColumn, StoreCall.Answers s.store.SameContent
      (asMetadataStore.column table.id id) fun _ => True := by
    intro id _ store a store' hI ha
    exact ⟨(s.store.answers_column table.id id store a store' hI ha).1, trivial⟩
  have hsort : StoreCall.Answers s.store.SameContent (asMetadataStore.sortColumns table.id)
      fun _ => True := by
    intro store a store' hI ha
    exact ⟨(s.store.answers_sortColumns table.id store a store' hI ha).1, trivial⟩
  exact (columns_reads hcolumn hsort options s c _ ⟨_, rfl⟩ (eq_ok_iff.mpr ⟨h, rfl⟩)).1

theorem outcome_ofRecords (table : Table) (records : List ShardRecord)
    (options : ExtractionOptions) (s : Session CatalogStore) :
    outcome (ofRecords asMetadataStore table records options) s =
      (outcome (columns asMetadataStore table options) s).map
        (s.store.extracted table records options.batchSize) := by
  rw [ofRecords_eq, outcome_bind]
  cases hc : outcome (columns asMetadataStore table options) s with
  | error a => rfl
  | ok c =>
    obtain ⟨s', hs', -⟩ := s.store.ofColumns_gives table records options.batchSize c _
      (sameContent_columns hc)
    exact (eq_ok_iff.mp hs').1

theorem call_read {α : Type} (f : CatalogStore → Except MetadataError α)
    (s : Session CatalogStore) :
    outcome (Pass.call (read f)) s = (f s.store).mapError .store ∧
      stateAfter (Pass.call (read f)) s = s := by
  rw [Pass.outcome_call, Pass.stateAfter_call, outcome_read, stateAfter_read]
  exact ⟨rfl, rfl⟩

/-- The work of a pass on a store held in memory. -/
theorem outcome_work_eq (compactor : Compactor) (options : ExtractionOptions) (id : Int64)
    (s : Session CatalogStore) :
    outcome (Planner.work ⟨asMetadataStore, compactor, options⟩ id) s =
      (do
        let table ← (s.store.table? id).mapError .store
        let records ← (s.store.shards? table.id).mapError .store
        let c ← outcome (columns asMetadataStore table options) s
        ((compactor.plan table
          (s.store.extracted table records options.batchSize c).shards).map
            CompactionPlan.sets).mapError .defect) := by
  have htable : outcome (Pass.call (asMetadataStore.table id)) s =
        (s.store.table? id).mapError .store ∧
      stateAfter (Pass.call (asMetadataStore.table id)) s = s := call_read (·.table? id) s
  have hshards : ∀ table, outcome (Pass.call (asMetadataStore.shards table)) s =
        (s.store.shards? table).mapError .store ∧
      stateAfter (Pass.call (asMetadataStore.shards table)) s = s :=
    fun table => call_read (·.shards? table) s
  simp only [Planner.outcome_work, Planner.survey, ofTable, bind_assoc, outcome_bind, htable,
    hshards, outcome_ofRecords]
  refine bind_congr fun table => bind_congr fun records => ?_
  cases outcome (columns asMetadataStore table options) s <;> rfl

theorem length_indexed (requests : List Request) :
    (indexed requests).length =
      requests.countP fun q => (Operation.read q).isIndexQuery := by
  rw [indexed, List.length_filterMap_eq_countP]
  refine List.countP_congr fun q _ => ?_
  cases q <;> rfl

/-- Every index query among the calls was counted, from `n` on. -/
def Counted (n : UInt64) (r : Recorded CatalogStore) : Prop :=
  r.inner.indexQueries = n + UInt64.ofNat (indexed (r.calls.map Exchange.request)).length

theorem counted_record (n : UInt64) (q : Request) :
    StoreCall.Answers (Counted n) (asMetadataStore.record q) fun _ => True := by
  intro r a r' h hr
  obtain ⟨-, rfl⟩ := eq_ok_iff.mp hr
  refine ⟨?_, trivial⟩
  rw [Counted, length_indexed] at h ⊢
  rw [MetadataStore.stateAfter_record, stateAfter_ask, List.map_append, List.countP_append,
    List.map_singleton, List.countP_singleton]
  cases (Operation.read q).isIndexQuery with
  | false => exact h
  | true =>
    rw [if_pos rfl, if_pos rfl, UInt64.ofNat_add, ← UInt64.add_assoc, ← h]
    rfl

theorem ofRecords_counted (table : Table) (records : List ShardRecord)
    (options : ExtractionOptions) (n : UInt64) :
    Pass.Reads (Counted n) (ofRecords asMetadataStore.recorded table records options)
      fun _ => True := by
  have hcolumn : ∀ id ∈ table.temporalColumn, StoreCall.Answers (Counted n)
      (asMetadataStore.recorded.column table.id id) fun _ => True :=
    fun id _ => counted_record n (.column table.id id)
  have hindex : ∀ ids shards, StoreCall.Answers (Counted n)
      (asMetadataStore.recorded.queryIndex table.id ids shards) fun rows => ∀ row ∈ rows, True := by
    intro ids shards r rows r' hr hrows
    exact ⟨(counted_record n (.queryIndex table.id ids shards) r rows r' hr hrows).1, by simp⟩
  exact (ofRecords_reads (R := fun _ _ => True) hcolumn (counted_record n (.sortColumns table.id))
    hindex options records).weaken fun _ _ => trivial

/-- The index queries of an extraction: they name the ids in their order, batch by batch, and the
extraction and the store have counted them. -/
structure Queries (size : Nat) (ids : List Int64) (queries : List (List Int64))
    (e : EligibleShards) (before after : CatalogStore) : Prop where
  batched : Batched size ids queries
  reported : e.indexQueries = queries.length
  counted : after.indexQueries = before.indexQueries + UInt64.ofNat queries.length

theorem ofRecords_queries (s : Session CatalogStore) (table : Table) (records : List ShardRecord)
    (options : ExtractionOptions) :
    ∃ calls,
      outcome (ofRecords asMetadataStore.recorded table records options) (s.recorded []) =
        outcome (ofRecords asMetadataStore table records options) s ∧
      stateAfter (ofRecords asMetadataStore.recorded table records options) (s.recorded []) =
        (stateAfter (ofRecords asMetadataStore table records options) s).recorded calls ∧
      ∀ e, outcome (ofRecords asMetadataStore table records options) s = .ok e →
        Queries options.batchSize ((records.filter fun r => !r.isDelta).map ShardRecord.id)
          (indexed (calls.map Exchange.request)) e s.store
          (stateAfter (ofRecords asMetadataStore table records options) s).store := by
  obtain ⟨calls, hout, hafter, f, hextracts⟩ :=
    ofRecords_records asMetadataStore table records options s []
  rw [List.nil_append] at hafter
  refine ⟨calls, hout, hafter, ?_⟩
  intro e he
  have hindexed : indexed (calls.map Exchange.request) =
      (batches options.batchSize (records.filter fun r => !r.isDelta)).map
        (List.map ShardRecord.id) := by
    rw [he] at hextracts
    have hcalls := Follows.complete hextracts.ends rfl
    rw [hcalls, f.indexed_requests options, hextracts.records]
  constructor
  case batched => exact hindexed ▸ (batched_batches _ _).map ShardRecord.id
  case reported =>
    rw [outcome_ofRecords, Checked.map_eq_ok_iff] at he
    obtain ⟨c, -, rfl⟩ := he
    rw [hindexed, List.length_map]
    rfl
  case counted =>
    have hstart : Counted s.store.indexQueries (s.recorded []).store := (UInt64.add_zero _).symm
    exact (ofRecords_counted table records options _ _ e _ hstart
      (eq_ok_iff.mpr ⟨hout.trans he, hafter⟩)).1

/-- How many shards an index query names shows in the queries alone. For every size, extraction ends
with the same error or the same shards, and so does a pass. The queries of an extraction that
succeeds are recorded by a store that answers as the given one does. -/
theorem batch_size_shows_in_queries_alone (s : Session CatalogStore) (table : Table)
    (records : List ShardRecord) (includeSort : Bool) (size : Nat) :
    (∀ other, (outcome (ofRecords asMetadataStore table records ⟨includeSort, size⟩) s).map
        EligibleShards.withoutQueries =
      (outcome (ofRecords asMetadataStore table records ⟨includeSort, other⟩) s).map
        EligibleShards.withoutQueries) ∧
    (∀ other compactor id,
      outcome (Planner.planTable ⟨asMetadataStore, compactor, ⟨includeSort, size⟩⟩ id) s =
        outcome (Planner.planTable ⟨asMetadataStore, compactor, ⟨includeSort, other⟩⟩ id) s) ∧
    ∃ calls,
      outcome (ofRecords asMetadataStore.recorded table records ⟨includeSort, size⟩)
          (s.recorded []) =
        outcome (ofRecords asMetadataStore table records ⟨includeSort, size⟩) s ∧
      stateAfter (ofRecords asMetadataStore.recorded table records ⟨includeSort, size⟩)
          (s.recorded []) =
        (stateAfter (ofRecords asMetadataStore table records ⟨includeSort, size⟩) s).recorded
          calls ∧
      ∀ e, outcome (ofRecords asMetadataStore table records ⟨includeSort, size⟩) s = .ok e →
        Queries size ((records.filter fun r => !r.isDelta).map ShardRecord.id)
          (indexed (calls.map Exchange.request)) e s.store
          (stateAfter (ofRecords asMetadataStore table records ⟨includeSort, size⟩) s).store := by
  refine ⟨fun other => ?_, fun other compactor id => ?_, ?_⟩
  · rw [outcome_ofRecords, outcome_ofRecords]
    -- The columns are looked up without regard to the size.
    have hcolumns : columns asMetadataStore table ⟨includeSort, size⟩ =
      columns asMetadataStore table ⟨includeSort, other⟩ := rfl
    rw [hcolumns]
    cases outcome (columns asMetadataStore table ⟨includeSort, other⟩) s <;> rfl
  · rw [Planner.outcome_planTable, Planner.outcome_planTable, outcome_work_eq, outcome_work_eq]
    rfl
  · exact ofRecords_queries s table records ⟨includeSort, size⟩

/-- Two shards, one of which the records name three times. Of batches of two the first one names it
once, and the second one twice. -/
def repeatedStore : CatalogStore :=
  empty.writeAll [.table (.plain 1), .shard (.plain 1 1 false), .shard (.plain 2 2 false)]

def repeatedRecords : List ShardRecord :=
  [.plain 1 1 false, .plain 2 2 false, .plain 1 3 false, .plain 4 4 true, .plain 1 5 false]

theorem batch_size_shows_in_queries_alone_of_repeats :
    ∃ e, outcome (ofRecords asMetadataStore (.plain 1) repeatedRecords ⟨false, 2⟩)
        (.start repeatedStore (.empty .error)) = .ok e ∧
      e.shards.map Shard.uuid = [.ofNat 5, .ofNat 2] ∧
      (∀ other, (outcome (ofRecords asMetadataStore (.plain 1) repeatedRecords ⟨false, other⟩)
        (.start repeatedStore (.empty .error))).map EligibleShards.withoutQueries =
          .ok e.withoutQueries) ∧
      ∃ queries, Queries 2 [1, 2, 1, 1] queries e repeatedStore
        (stateAfter (ofRecords asMetadataStore (.plain 1) repeatedRecords ⟨false, 2⟩)
          (.start repeatedStore (.empty .error))).store := by
  have hok : Pass.yields (ofRecords asMetadataStore (.plain 1) repeatedRecords ⟨false, 2⟩)
      (.start repeatedStore (.empty .error))
      (fun e => e.shards.map Shard.uuid = [.ofNat 5, .ofNat 2]) = true := by decide +kernel
  obtain ⟨e, s', he, huuids⟩ := Pass.exists_ok_of_yields hok
  have hout := (eq_ok_iff.mp he).1
  obtain ⟨hsame, -, calls, -, -, hqueries⟩ := batch_size_shows_in_queries_alone
    (.start repeatedStore (.empty .error)) (.plain 1) repeatedRecords false 2
  refine ⟨e, hout, of_decide_eq_true huuids, fun other => ?_, _, hqueries e hout⟩
  rw [← hsame other, hout]
  rfl

end CatalogStore

end ShardCompaction
