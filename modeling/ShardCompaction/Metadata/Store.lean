import ShardCompaction.Metadata.Error
import ShardCompaction.Metadata.IndexRow
import ShardCompaction.Shard.Basic

namespace ShardCompaction

/-- A call of a store with state `σ`. -/
abbrev StoreCall (σ : Type) := EStateM MetadataError σ

structure MetadataStore (σ : Type) where
  /-- The table with an id. -/
  table : Int64 → StoreCall σ Table
  /-- All tables, in ascending order of ids. -/
  tables : StoreCall σ (List Table)
  /-- A column, by table and column id. -/
  column : Int64 → Int64 → StoreCall σ TableColumn
  /-- The sort columns of a table, in the order of its sort key. -/
  sortColumns : Int64 → StoreCall σ (List TableColumn)
  /-- The shards of a table in ascending order of ids, delete-delta shards among them. -/
  shards : Int64 → StoreCall σ (List ShardRecord)
  /-- The statistics of columns for shards of a table: at most one row for each shard, with slots
  in the order of the columns. -/
  queryIndex : Int64 → List Int64 → List Int64 → StoreCall σ (List IndexRow)

end ShardCompaction
