import ShardCompaction.Proofs.Compaction.Plan
import ShardCompaction.Proofs.Metadata.IndexRow
import ShardCompaction.Proofs.Metadata.SortKey
import ShardCompaction.Proofs.Planner.CatalogExtraction

namespace ShardCompaction

namespace RangeColumns

/-- All columns that are asked for, in the order of their slots. -/
def all (c : RangeColumns) : List TableColumn := c.temporal.toList ++ c.sort.getD []

variable {c : RangeColumns} {stats : TableColumn → Stats} {record : ShardRecord} {row : IndexRow}
  {shard : Shard}

end RangeColumns

namespace CatalogStore

open Extraction

variable {store : CatalogStore} {c : RangeColumns} {table : Table} {options : ExtractionOptions}
  {r : ShardRecord} {shard : Shard}

/-- The statistics that a store has for a column in a shard. -/
def statsOf (store : CatalogStore) (table shard : Int64) (column : TableColumn) : Stats :=
  store.bounds table shard column.id

/-- Whether the store has the statistics that are needed: two integers for the temporal column, and
values of its type for each sort column if these are wanted. -/
def hasStats (store : CatalogStore) (table : Table) (options : ExtractionOptions)
    (r : ShardRecord) : Bool :=
  table.temporalColumn.all (fun id => Stats.integers (store.bounds table.id r.id id)) &&
    (!options.includeSortColumns || (store.sortColumns table.id).all fun column =>
      column.takes (store.statsOf table.id r.id column))

/-- Whether a record is to be kept: it is no delete-delta shard, is stored under the table, and has
its statistics. -/
def eligible (store : CatalogStore) (table : Table) (options : ExtractionOptions)
    (r : ShardRecord) : Bool :=
  !r.isDelta && store.holds table.id r.id && store.hasStats table options r

namespace Provides

end Provides

end CatalogStore

namespace Extraction

open CatalogStore

variable {table : Table} {options : ExtractionOptions} {records : List ShardRecord}
  {s : Session CatalogStore}

end Extraction

end ShardCompaction
