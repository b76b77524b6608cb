import ShardCompaction.Proofs.Metadata.Recorded
import ShardCompaction.Proofs.Metadata.SortKey

namespace ShardCompaction

namespace CatalogStore

namespace Write

def table? : Write → Option Table
  | .table t => some t
  | _ => none

def column? : Write → Option TableColumn
  | .column c => some c
  | _ => none

def shard? : Write → Option ShardRecord
  | .shard r => some r
  | _ => none

def stats? : Write → Option ColumnStats
  | .stats s => some s
  | _ => none

end Write

end CatalogStore

/-- The content of a catalog, written list after list. -/
def Catalog.writes (c : Catalog) : List CatalogStore.Write :=
  c.tables.map .table ++ c.columns.map .column ++ c.shards.map .shard ++ c.stats.map .stats

namespace CatalogStore

section LastWrites

variable (writes : List Write)

def lastTable? (id : Int64) : Option Table :=
  (writes.filterMap Write.table?).reverse.find? fun t => t.id = id

def lastColumn? (table id : Int64) : Option TableColumn :=
  (writes.filterMap Write.column?).reverse.find? fun c => (c.table, c.id) = (table, id)

/-- The last record with an id, whichever table it belongs to. -/
def lastShard? (id : Int64) : Option ShardRecord :=
  (writes.filterMap Write.shard?).reverse.find? fun r => r.id = id

def lastStats? (table shard column : Int64) : Option ColumnStats :=
  (writes.filterMap Write.stats?).reverse.find? fun s =>
    (s.table, s.shard, s.column) = (table, shard, column)

def lastMin (table shard column : Int64) : Option Value :=
  (lastStats? writes table shard column).bind ColumnStats.min

def lastMax (table shard column : Int64) : Option Value :=
  (lastStats? writes table shard column).bind ColumnStats.max

def lastBelongs (table shard : Int64) : Bool :=
  (lastShard? writes shard).any fun r => r.table = table

/-- All reads of a store answer from the last of some writes under each key. None of them changes
the store, but that an index query is counted. -/
structure AnswersFrom (store : CatalogStore) : Prop where
  table : ∀ id, asMetadataStore.table id store = match lastTable? writes id with
    | some t => .ok t store
    | none => .error (.tableNotFound id) store
  tables : ∃ tables, asMetadataStore.tables store = .ok tables store ∧
    (∀ t, t ∈ tables ↔ lastTable? writes t.id = some t) ∧
    tables.Pairwise fun a b => a.id < b.id
  column : ∀ table id, asMetadataStore.column table id store =
    match lastColumn? writes table id with
    | some c => .ok c store
    | none => .error (.columnNotFound table id) store
  sortColumns : ∀ table, ∃ columns, asMetadataStore.sortColumns table store = .ok columns store ∧
    (∀ c, c ∈ columns ↔
      lastColumn? writes table c.id = some c ∧ c.sortPosition.isSome = true) ∧
    columns.Pairwise fun a b => ∀ p ∈ a.sortPosition, ∀ q ∈ b.sortPosition,
      p < q ∨ p = q ∧ a.id < b.id
  shards : ∀ table, match lastTable? writes table with
    | none => asMetadataStore.shards table store = .error (.tableNotFound table) store
    | some _ => ∃ records, asMetadataStore.shards table store = .ok records store ∧
      (∀ r, r ∈ records ↔ lastShard? writes r.id = some r ∧ r.table = table) ∧
      records.Pairwise fun a b => a.id < b.id
  queryIndex : ∀ table columns shards, asMetadataStore.queryIndex table columns shards store =
    .ok ((shards.filter (lastBelongs writes table)).map fun shard =>
        { shard
          mins := columns.map (lastMin writes table shard)
          maxs := columns.map (lastMax writes table shard) })
      { store with indexQueries := store.indexQueries + 1 }

end LastWrites

/-- Everything that is written is entered into the map of its kind, in its turn. -/
theorem writeAll_eq (store : CatalogStore) (writes : List Write) :
    store.writeAll writes =
      { tableMap := FilledMap.fill Table.id (fun t => t) store.tableMap
          (writes.filterMap Write.table?)
        columnMap := FilledMap.fill (fun c => (c.table, c.id)) (fun c => c) store.columnMap
          (writes.filterMap Write.column?)
        shardMap := FilledMap.fill ShardRecord.id (fun r => r) store.shardMap
          (writes.filterMap Write.shard?)
        statsMap := FilledMap.fill (fun s => (s.table, s.shard, s.column))
          (fun s => (s.min, s.max)) store.statsMap (writes.filterMap Write.stats?)
        indexQueries := store.indexQueries } := by
  induction writes generalizing store with
  | nil => rfl
  | cons w writes ih =>
    have hwrite : store.writeAll (w :: writes) = (store.write w).writeAll writes := rfl
    rw [hwrite, ih]
    cases w with
    | table t => rfl
    | column c => rfl
    | shard r => rfl
    | stats s => rfl

/-- The maps of a store hold the last of some writes under each key. -/
structure HoldsLast (store : CatalogStore) (writes : List Write) : Prop where
  table : ∀ id, store.tableMap[id]? = lastTable? writes id
  column : ∀ table id, store.columnMap[(table, id)]? = lastColumn? writes table id
  shard : ∀ id, store.shardMap[id]? = lastShard? writes id
  stats : ∀ table shard column, store.statsMap[(table, shard, column)]? =
    (lastStats? writes table shard column).map fun s => (s.min, s.max)

instance : Std.TransCmp compareStatsKeys :=
  inferInstanceAs (Std.TransCmp
    (compareLex (compareBy fun k : StatsKey => k.1.toInt)
      (compareLex (compareBy fun k => k.2.1.toInt) (compareBy fun k => k.2.2.toInt))))

instance : Std.LawfulEqCmp compareStatsKeys where
  compare_self := by
    intro k
    rw [compareStatsKeys, Ordering.then_eq_eq]
    exact ⟨Std.ReflCmp.compare_self, Std.ReflCmp.compare_self⟩
  eq_of_compare := by
    intro a b h
    rw [compareStatsKeys, Ordering.then_eq_eq] at h
    exact Prod.ext (Std.LawfulEqCmp.eq_of_compare h.1) (Std.LawfulEqCmp.eq_of_compare h.2)

theorem holdsLast_writeAll (writes : List Write) : (empty.writeAll writes).HoldsLast writes := by
  rw [writeAll_eq]
  refine ⟨fun id => ?_, fun table id => ?_, fun id => ?_, fun table shard column => ?_⟩
  · simp only [FilledMap.getElem?_fill]
    simp [empty, lastTable?]
  · simp only [FilledMap.getElem?_fill]
    simp [empty, lastColumn?]
  · simp only [FilledMap.getElem?_fill]
    simp [empty, lastShard?]
  · simp only [FilledMap.getElem?_fill]
    simp [empty, lastStats?]

theorem pairwise_id_values {α : Type} {id : α → Int64} {m : IdMap α}
    (h : ∀ (k : Int64) (v : α), m[k]? = some v → id v = k) :
    m.values.Pairwise fun a b => id a < id b := by
  rw [FilledMap.values_eq_map_toList, List.pairwise_map]
  refine List.Pairwise.imp_of_mem ?_ Std.TreeMap.ordered_keys_toList
  intro a b ha hb hlt
  rw [h a.1 a.2 (Std.TreeMap.mem_toList_iff_getElem?_eq_some.mp ha),
    h b.1 b.2 (Std.TreeMap.mem_toList_iff_getElem?_eq_some.mp hb)]
  exact Int64.lt_iff_toInt_lt.mpr (compareBy_eq_lt_iff.mp hlt)

namespace HoldsLast

variable {store : CatalogStore} {writes : List Write}

theorem bounds_eq (h : store.HoldsLast writes) (table shard column : Int64) :
    store.bounds table shard column =
      (lastMin writes table shard column, lastMax writes table shard column) := by
  rw [bounds, h.stats, lastMin, lastMax]
  cases lastStats? writes table shard column <;> rfl

theorem rows_eq (h : store.HoldsLast writes) (table : Int64) (columns shards : List Int64) :
    store.rows table columns shards =
      (shards.filter (lastBelongs writes table)).map fun shard =>
        { shard
          mins := columns.map (lastMin writes table shard)
          maxs := columns.map (lastMax writes table shard) } := by
  have hbounds : ∀ shard, store.bounds table shard = fun column =>
      (lastMin writes table shard column, lastMax writes table shard column) :=
    fun shard => funext (h.bounds_eq table shard)
  simp only [rows, hbounds, List.map_map]
  rw [List.filter_congr (q := lastBelongs writes table)]
  · rfl
  · intro shard _
    rw [h.shard, lastBelongs]
    cases lastShard? writes shard <;> rfl

theorem answersFrom (h : store.HoldsLast writes) (hkeyed : store.WellKeyed) :
    AnswersFrom writes store := by
  constructor
  case table =>
    intro id
    simp only [asMetadataStore, read, table?, h.table]
    cases lastTable? writes id <;> rfl
  case tables =>
    refine ⟨store.tables, rfl, fun t => ?_, pairwise_id_values hkeyed.table⟩
    rw [tables, FilledMap.mem_values_iff]
    constructor
    · intro ht
      obtain ⟨id, hid⟩ := ht
      rw [hkeyed.table id t hid, ← h.table, hid]
    · intro ht
      exact ⟨t.id, (h.table t.id).trans ht⟩
  case column =>
    intro table id
    simp only [asMetadataStore, read, column?, h.column]
    cases lastColumn? writes table id <;> rfl
  case sortColumns =>
    intro table
    obtain ⟨hmem, hordered⟩ := isSortKey_sortColumns hkeyed table
    refine ⟨store.sortColumns table, rfl, fun c => ?_, hordered⟩
    rw [hmem, h.column, ← and_assoc]
    refine and_congr_left fun _ => ?_
    constructor
    · intro hc
      obtain ⟨hlast, rfl⟩ := hc
      exact hlast
    · intro hlast
      have hkey := hkeyed.column (table, c.id) c ((h.column table c.id).trans hlast)
      obtain rfl := (Prod.mk.inj hkey).1
      exact ⟨hlast, rfl⟩
  case shards =>
    intro table
    simp only [asMetadataStore, read, shards?, h.table]
    cases lastTable? writes table with
    | none => rfl
    | some t =>
      refine ⟨store.shardsOf table, rfl, fun r => ?_, ?_⟩
      · rw [hkeyed.mem_shardsOf_iff, h.shard]
      · exact (pairwise_id_values hkeyed.shard).filter _
  case queryIndex =>
    intro table columns shards
    rw [← h.rows_eq]
    rfl

end HoldsLast

/-- A write to a store, or a call that reads from it. -/
inductive Operation where
  | write (w : Write)
  | read (q : Request)

namespace Operation

def write? : Operation → Option Write
  | .write w => some w
  | .read _ => none

def isIndexQuery : Operation → Bool
  | .read (.queryIndex _ _ _) => true
  | _ => false

end Operation

def step (store : CatalogStore) : Operation → CatalogStore
  | .write w => store.write w
  | .read q => stateAfter (asMetadataStore.ask q) store

/-- The store after some operations, which begin at the empty store. -/
def after (operations : List Operation) : CatalogStore := operations.foldl step empty

theorem outcome_read {α : Type} (f : CatalogStore → Except MetadataError α)
    (store : CatalogStore) : outcome (CatalogStore.read f) store = f store := by
  rw [outcome, CatalogStore.read]
  cases f store <;> rfl

theorem stateAfter_read {α : Type} (f : CatalogStore → Except MetadataError α)
    (store : CatalogStore) : stateAfter (CatalogStore.read f) store = store := by
  rw [stateAfter, CatalogStore.read]
  cases f store <;> rfl

theorem stateAfter_ask (store : CatalogStore) (q : Request) :
    stateAfter (asMetadataStore.ask q) store =
      if Operation.isIndexQuery (.read q) then store.countQuery else store := by
  cases q with
  | table id => exact stateAfter_read _ store
  | tables => exact stateAfter_read (fun store => .ok store.tables) store
  | column table id => exact stateAfter_read _ store
  | sortColumns table => exact stateAfter_read (fun store => .ok (store.sortColumns table)) store
  | shards table => exact stateAfter_read _ store
  | queryIndex table columns shards => rfl

theorem foldl_step_eq (store : CatalogStore) (operations : List Operation) :
    operations.foldl step store =
      { store.writeAll (operations.filterMap Operation.write?) with
        indexQueries := store.indexQueries +
          UInt64.ofNat (operations.countP Operation.isIndexQuery) } := by
  induction operations generalizing store with
  | nil => simp [writeAll]
  | cons op operations ih =>
    rw [List.foldl_cons, ih]
    cases op with
    | write w =>
      have hcount : (Operation.write w).isIndexQuery = false := rfl
      rw [List.filterMap_cons, List.countP_cons, hcount]
      cases w with
      | table t => rfl
      | column c => rfl
      | shard r => rfl
      | stats s => rfl
    | read q =>
      rw [List.filterMap_cons, List.countP_cons, step, stateAfter_ask]
      cases hq : (Operation.read q).isIndexQuery with
      | false => rfl
      | true =>
        have hqueries : store.indexQueries + 1 +
            UInt64.ofNat (operations.countP Operation.isIndexQuery) = store.indexQueries +
            UInt64.ofNat (operations.countP Operation.isIndexQuery + 1) := by
          rw [UInt64.ofNat_add, UInt64.add_assoc, UInt64.add_comm 1]
          rfl
        simp only [if_true, writeAll_eq, countQuery, Operation.write?, hqueries]

theorem answersFrom_after (operations : List Operation) :
    AnswersFrom (operations.filterMap Operation.write?) (after operations) := by
  let writes := operations.filterMap Operation.write?
  have hholds : (empty.writeAll writes).HoldsLast writes := holdsLast_writeAll writes
  have hkeyed : (empty.writeAll writes).WellKeyed := (Reachable.empty.writeAll writes).wellKeyed
  rw [after, foldl_step_eq]
  exact HoldsLast.answersFrom { hholds with } { hkeyed with }

/-- After any writes and reads, every read answers from the last write under each key, and the only
trace of the reads is the count of index queries. A store that is made of a catalog answers from its
tables, columns, shards and statistics, written in this order. -/
theorem reads_answer_last_writes :
    (∀ operations, AnswersFrom (operations.filterMap Operation.write?) (after operations) ∧
      (after operations).indexQueries =
        UInt64.ofNat (operations.countP Operation.isIndexQuery)) ∧
    ∀ c : Catalog, AnswersFrom c.writes (ofCatalog c) ∧ (ofCatalog c).indexQueries = 0 := by
  refine ⟨fun operations => ⟨answersFrom_after operations, ?_⟩, fun c => ⟨?_, ?_⟩⟩
  · rw [after, foldl_step_eq]
    exact UInt64.zero_add _
  · exact (holdsLast_writeAll c.writes).answersFrom (reachable_ofCatalog c).wellKeyed
  · rw [ofCatalog, writeAll_eq]
    rfl

end CatalogStore

end ShardCompaction
