import ShardCompaction.Metadata.CatalogStore
import ShardCompaction.Proofs.FilledMap
import ShardCompaction.Proofs.Planner.Pass

namespace ShardCompaction

instance : Std.TransCmp compareColumnKeys :=
  inferInstanceAs (Std.TransCmp
    (compareLex (compareBy fun k : ColumnKey => k.1.toInt) (compareBy fun k => k.2.toInt)))

instance : Std.LawfulEqCmp compareColumnKeys where
  compare_self := by
    intro k
    rw [compareColumnKeys, Ordering.then_eq_eq]
    exact ⟨Std.ReflCmp.compare_self, Std.ReflCmp.compare_self⟩
  eq_of_compare := by
    intro a b h
    rw [compareColumnKeys, Ordering.then_eq_eq] at h
    exact Prod.ext (Std.LawfulEqCmp.eq_of_compare h.1) (Std.LawfulEqCmp.eq_of_compare h.2)

namespace CatalogStore

variable {store : CatalogStore}

/-- The stores that writes and index queries lead to. -/
inductive Reachable : CatalogStore → Prop
  | empty : Reachable empty
  | write {store : CatalogStore} (h : Reachable store) (w : Write) : Reachable (store.write w)
  | query {store : CatalogStore} (h : Reachable store) : Reachable store.countQuery

theorem Reachable.writeAll (h : Reachable store) (writes : List Write) :
    Reachable (store.writeAll writes) := by
  induction writes generalizing store with
  | nil => exact h
  | cons w writes ih => exact ih (h.write w)

theorem reachable_ofCatalog (c : Catalog) : Reachable (ofCatalog c) := Reachable.empty.writeAll _

/-- Tables, columns and shards stand under their own keys. -/
structure WellKeyed (store : CatalogStore) : Prop where
  table : ∀ (id : Int64) (t : Table), store.tableMap[id]? = some t → t.id = id
  column : ∀ (key : ColumnKey) (c : TableColumn), store.columnMap[key]? = some c →
    (c.table, c.id) = key
  shard : ∀ (id : Int64) (r : ShardRecord), store.shardMap[id]? = some r → r.id = id

theorem wellKeyed_empty : WellKeyed empty := by
  refine ⟨fun id t h => ?_, fun key c h => ?_, fun id r h => ?_⟩
  · simp [empty] at h
  · simp [empty] at h
  · simp [empty] at h

theorem keyed_insert {κ β : Type} {cmp : κ → κ → Ordering} [Std.TransCmp cmp]
    [Std.LawfulEqCmp cmp] [DecidableEq κ] (key : β → κ) {m : Std.TreeMap κ β cmp}
    (h : ∀ (k : κ) (v : β), m[k]? = some v → key v = k) (new : β) :
    ∀ (k : κ) (v : β), (m.insert (key new) new)[k]? = some v → key v = k := by
  intro k v hv
  rw [FilledMap.getElem?_insert_eq] at hv
  by_cases he : key new = k
  · rw [if_pos he] at hv
    rwa [← Option.some.inj hv]
  · rw [if_neg he] at hv
    exact h k v hv

theorem WellKeyed.write (h : WellKeyed store) (w : Write) : WellKeyed (store.write w) := by
  cases w with
  | table t => exact { h with table := keyed_insert Table.id h.table t }
  | column c => exact { h with column := keyed_insert (fun c => (c.table, c.id)) h.column c }
  | shard r => exact { h with shard := keyed_insert ShardRecord.id h.shard r }
  | stats s => exact { h with }

theorem Reachable.wellKeyed (h : Reachable store) : WellKeyed store := by
  induction h with
  | empty => exact wellKeyed_empty
  | write _ w ih => exact ih.write w
  | query _ ih => exact { ih with }

theorem column?_id (h : store.WellKeyed) {table id : Int64} {column : TableColumn}
    (hc : store.column? table id = .ok column) : column.id = id := by
  rw [column?] at hc
  split at hc
  case h_2 => simp at hc
  case h_1 found hm =>
    obtain rfl := Except.ok.inj hc
    exact (Prod.mk.inj (h.column _ _ hm)).2

/-- The stored shards of a table. -/
def shardsOf (store : CatalogStore) (table : Int64) : List ShardRecord :=
  store.shardMap.values.filter fun r => r.table = table

theorem WellKeyed.mem_shardsOf_iff (h : WellKeyed store) {table : Int64} {r : ShardRecord} :
    r ∈ store.shardsOf table ↔ store.shardMap[r.id]? = some r ∧ r.table = table := by
  rw [shardsOf, List.mem_filter, FilledMap.mem_values_iff, decide_eq_true_eq]
  constructor
  · intro hr
    obtain ⟨⟨id, hid⟩, ht⟩ := hr
    rw [h.shard id r hid]
    exact ⟨hid, ht⟩
  · intro hr
    exact ⟨⟨r.id, hr.1⟩, hr.2⟩

theorem WellKeyed.eq_of_id_eq (h : WellKeyed store) {table : Int64} {a b : ShardRecord}
    (ha : a ∈ store.shardsOf table) (hb : b ∈ store.shardsOf table) (he : a.id = b.id) : a = b := by
  have hsa := (h.mem_shardsOf_iff.mp ha).1
  have hsb := (h.mem_shardsOf_iff.mp hb).1
  rw [he, hsb] at hsa
  exact (Option.some.inj hsa).symm

/-- The stores that differ from one at most in the count of index queries. -/
def SameContent (store other : CatalogStore) : Prop :=
  ∃ indexQueries, other = { store with indexQueries }

theorem answers_read {α : Type} {f : CatalogStore → Except MetadataError α}
    (hf : ∀ n, f { store with indexQueries := n } = f store) :
    StoreCall.Answers store.SameContent (read f) fun a => f store = .ok a := by
  intro other a other' hsame h
  obtain ⟨n, rfl⟩ := hsame
  rw [read, hf] at h
  cases hs : f store with
  | error e => simp [hs] at h
  | ok b =>
    rw [hs] at h
    obtain ⟨rfl, rfl⟩ := EStateM.Result.ok.inj h
    exact ⟨⟨n, rfl⟩, rfl⟩

theorem answers_table (store : CatalogStore) (id : Int64) :
    StoreCall.Answers store.SameContent (asMetadataStore.table id)
      fun t => store.table? id = .ok t :=
  answers_read fun _ => rfl

theorem answers_column (store : CatalogStore) (table id : Int64) :
    StoreCall.Answers store.SameContent (asMetadataStore.column table id)
      fun c => store.column? table id = .ok c :=
  answers_read fun _ => rfl

theorem answers_shards (store : CatalogStore) (table : Int64) :
    StoreCall.Answers store.SameContent (asMetadataStore.shards table)
      fun records => store.shards? table = .ok records :=
  answers_read fun _ => rfl

theorem gives_read {α : Type} {f : CatalogStore → Except MetadataError α} {a : α}
    (hf : ∀ n, f { store with indexQueries := n } = f store) (h : f store = .ok a) :
    StoreCall.Gives store.SameContent (read f) a := by
  intro other hsame
  obtain ⟨n, rfl⟩ := hsame
  exact ⟨_, by rw [read, hf, h], ⟨n, rfl⟩⟩

theorem gives_sortColumns (store : CatalogStore) (table : Int64) :
    StoreCall.Gives store.SameContent (asMetadataStore.sortColumns table)
      (store.sortColumns table) :=
  gives_read (f := fun s => .ok (s.sortColumns table)) (fun _ => rfl) rfl

theorem gives_queryIndex (store : CatalogStore) (table : Int64) (columns shards : List Int64) :
    StoreCall.Gives store.SameContent (asMetadataStore.queryIndex table columns shards)
      (store.rows table columns shards) := by
  intro other hsame
  obtain ⟨n, rfl⟩ := hsame
  exact ⟨_, rfl, ⟨_, rfl⟩⟩

theorem answers_sortColumns (store : CatalogStore) (table : Int64) :
    StoreCall.Answers store.SameContent (asMetadataStore.sortColumns table)
      fun columns => columns = store.sortColumns table :=
  (store.gives_sortColumns table).answers

theorem answers_queryIndex (store : CatalogStore) (table : Int64) (columns shards : List Int64) :
    StoreCall.Answers store.SameContent (asMetadataStore.queryIndex table columns shards)
      fun rows => rows = store.rows table columns shards :=
  (store.gives_queryIndex table columns shards).answers

/-- What a row of a store says about its shard: the statistics of some columns. -/
def HasSlots (store : CatalogStore) (table : Int64) (columns : List Int64) (row : IndexRow) :
    Prop :=
  row.mins = columns.map (fun c => (store.bounds table row.shard c).1) ∧
    row.maxs = columns.map fun c => (store.bounds table row.shard c).2

theorem hasSlots_of_mem_rows {table : Int64} {columns shards : List Int64} {row : IndexRow}
    (h : row ∈ store.rows table columns shards) : store.HasSlots table columns row := by
  obtain ⟨shard, -, rfl⟩ := List.mem_map.mp h
  simp [HasSlots]

end CatalogStore

end ShardCompaction
