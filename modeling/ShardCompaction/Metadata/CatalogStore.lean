import ShardCompaction.Metadata.Catalog
import ShardCompaction.Metadata.IdMap
import ShardCompaction.Metadata.Store

namespace ShardCompaction

/-- The key of a column: its table, then its id. -/
abbrev ColumnKey := Int64 × Int64

def compareColumnKeys (a b : ColumnKey) : Ordering := (compareIds a.1 b.1).then (compareIds a.2 b.2)

/-- The key of statistics: table, shard and column. -/
abbrev StatsKey := Int64 × ColumnKey

def compareStatsKeys (a b : StatsKey) : Ordering :=
  (compareIds a.1 b.1).then (compareColumnKeys a.2 b.2)

/-- A shard is stored under its id alone, whichever table it belongs to. -/
structure CatalogStore where
  tableMap : IdMap Table
  columnMap : Std.TreeMap ColumnKey TableColumn compareColumnKeys
  shardMap : IdMap ShardRecord
  statsMap : Std.TreeMap StatsKey (Option Value × Option Value) compareStatsKeys
  indexQueries : UInt64

namespace CatalogStore

def empty : CatalogStore := ⟨∅, ∅, ∅, ∅, 0⟩

instance : Inhabited CatalogStore := ⟨empty⟩

/-- A write to the store. -/
inductive Write where
  | table (t : Table)
  | column (c : TableColumn)
  | shard (r : ShardRecord)
  | stats (s : ColumnStats)

def write (store : CatalogStore) : Write → CatalogStore
  | .table t => { store with tableMap := store.tableMap.insert t.id t }
  | .column c => { store with columnMap := store.columnMap.insert (c.table, c.id) c }
  | .shard r => { store with shardMap := store.shardMap.insert r.id r }
  | .stats s =>
    { store with statsMap := store.statsMap.insert (s.table, s.shard, s.column) (s.min, s.max) }

def writeAll (store : CatalogStore) (writes : List Write) : CatalogStore := writes.foldl write store

/-- Everything in the catalog, written in the order of its lists. -/
def ofCatalog (c : Catalog) : CatalogStore :=
  empty.writeAll
    (c.tables.map .table ++ c.columns.map .column ++ c.shards.map .shard ++ c.stats.map .stats)

def table? (store : CatalogStore) (id : Int64) : Except MetadataError Table :=
  match store.tableMap[id]? with
  | some t => .ok t
  | none => .error (.tableNotFound id)

def tables (store : CatalogStore) : List Table := store.tableMap.values

def column? (store : CatalogStore) (table column : Int64) : Except MetadataError TableColumn :=
  match store.columnMap[(table, column)]? with
  | some c => .ok c
  | none => .error (.columnNotFound table column)

/-- Columns at the same position of the sort key stay in the order of their ids. -/
def sortColumns (store : CatalogStore) (table : Int64) : List TableColumn :=
  let position (c : TableColumn) : Nat := (c.sortPosition.map UInt32.toNat).getD 0
  (store.columnMap.values.filter fun c => c.table = table && c.sortPosition.isSome).mergeSort
    fun a b => position a ≤ position b

/-- A table that was never written has no list of shards, even if shards name it. -/
def shards? (store : CatalogStore) (table : Int64) : Except MetadataError (List ShardRecord) :=
  match store.tableMap[table]? with
  | some _ => .ok (store.shardMap.values.filter fun r => r.table = table)
  | none => .error (.tableNotFound table)

/-- The statistics of a column in a shard, null where none were written. -/
def bounds (store : CatalogStore) (table shard column : Int64) : Option Value × Option Value :=
  store.statsMap[(table, shard, column)]?.getD (none, none)

/-- One row for each request of a shard that belongs to the table. -/
def rows (store : CatalogStore) (table : Int64) (columns shards : List Int64) : List IndexRow :=
  let belongs (shard : Int64) : Bool :=
    match store.shardMap[shard]? with
    | some r => r.table = table
    | none => false
  (shards.filter belongs).map fun shard =>
    let bounds := columns.map (store.bounds table shard)
    { shard, mins := bounds.map Prod.fst, maxs := bounds.map Prod.snd }

def countQuery (store : CatalogStore) : CatalogStore :=
  { store with indexQueries := store.indexQueries + 1 }

/-- A call that only reads. -/
def read (f : CatalogStore → Except MetadataError α) : StoreCall CatalogStore α := fun store =>
  match f store with
  | .ok a => .ok a store
  | .error e => .error e store

/-- The store as the planner reads it. -/
def asMetadataStore : MetadataStore CatalogStore where
  table id := read (·.table? id)
  tables := read fun store => .ok store.tables
  column table column := read (·.column? table column)
  sortColumns table := read fun store => .ok (store.sortColumns table)
  shards table := read (·.shards? table)
  queryIndex table columns shards := fun store =>
    .ok (store.rows table columns shards) store.countQuery

end CatalogStore

end ShardCompaction
