import ShardCompaction.Metadata.IndexRow
import ShardCompaction.Shard.Json

namespace ShardCompaction

/-- The statistics of one column in one shard. -/
structure ColumnStats where
  table : Int64
  shard : Int64
  column : Int64
  min : Option Value
  max : Option Value
  deriving DecidableEq

structure Catalog where
  tables : List Table
  columns : List TableColumn
  shards : List ShardRecord
  stats : List ColumnStats
  deriving DecidableEq

namespace ColumnStats

def fieldNames : List String := ["table_id", "shard_id", "column_id", "min", "max"]

def toJson (s : ColumnStats) : Json :=
  .record
    [("table_id", .int64 s.table),
      ("shard_id", .int64 s.shard),
      ("column_id", .int64 s.column),
      ("min", .option Value.toJson s.min),
      ("max", .option Value.toJson s.max)]

def ofJson? : Json → Option ColumnStats :=
  Json.asRecord? fieldNames do
    let table ← .required Json.asInt64?
    let shard ← .required Json.asInt64?
    let column ← .required Json.asInt64?
    let min ← .defaulted none (Json.asNullable? Value.ofJson?)
    let max ← .defaulted none (Json.asNullable? Value.ofJson?)
    pure { table, shard, column, min, max }

end ColumnStats

namespace IndexRow

def toJson (row : IndexRow) : Json :=
  .record
    [("shard_id", .int64 row.shard),
      ("mins", .list (.option Value.toJson) row.mins),
      ("maxs", .list (.option Value.toJson) row.maxs)]

def ofJson? : Json → Option IndexRow :=
  Json.asRecord? ["shard_id", "mins", "maxs"] do
    let shard ← .required Json.asInt64?
    let mins ← .required (Json.asList? (Json.asNullable? Value.ofJson?))
    let maxs ← .required (Json.asList? (Json.asNullable? Value.ofJson?))
    pure { shard, mins, maxs }

end IndexRow

namespace Catalog

def toJson (c : Catalog) : Json :=
  .record
    [("tables", .list Table.toJson c.tables),
      ("columns", .list TableColumn.toJson c.columns),
      ("shards", .list ShardRecord.toJson c.shards),
      ("stats", .list ColumnStats.toJson c.stats)]

/-- A list that is left out is empty. -/
def ofJson? : Json → Option Catalog :=
  Json.asRecord? ["tables", "columns", "shards", "stats"] do
    let tables ← .defaulted [] (Json.asList? Table.ofJson?)
    let columns ← .defaulted [] (Json.asList? TableColumn.ofJson?)
    let shards ← .defaulted [] (Json.asList? ShardRecord.ofJson?)
    let stats ← .defaulted [] (Json.asList? ColumnStats.ofJson?)
    pure { tables, columns, shards, stats }

end Catalog

end ShardCompaction
