import ShardCompaction.Table.Basic
import ShardCompaction.Value.Json

namespace ShardCompaction

namespace Table

def fieldNames : List String :=
  ["table_id", "distribution_id", "distribution_name", "bucket_count", "temporal_column_id",
    "organized", "supports_delta_delete"]

def toJson (t : Table) : Json :=
  .record
    [("table_id", .int64 t.id),
      ("distribution_id", .option .int64 t.distributionId),
      ("distribution_name", .option .text t.distributionName),
      ("bucket_count", .option .uint32 t.bucketCount),
      ("temporal_column_id", .option .int64 t.temporalColumn),
      ("organized", .bool t.organized),
      ("supports_delta_delete", .bool t.supportsDeltaDelete)]

def ofJson? : Json → Option Table :=
  Json.asRecord? fieldNames do
    let id ← .required Json.asInt64?
    let distributionId ← .defaulted none (Json.asNullable? Json.asInt64?)
    let distributionName ← .defaulted none (Json.asNullable? Json.asText?)
    let bucketCount ← .defaulted none (Json.asNullable? Json.asUInt32?)
    let temporalColumn ← .defaulted none (Json.asNullable? Json.asInt64?)
    let organized ← .defaulted false Json.asBool?
    let supportsDeltaDelete ← .defaulted false Json.asBool?
    pure { id, distributionId, distributionName, bucketCount, temporalColumn, organized,
           supportsDeltaDelete }

end Table

namespace TableColumn

def fieldNames : List String :=
  ["table_id", "column_id", "column_name", "data_type", "ordinal_position",
    "sort_ordinal_position"]

def toJson (c : TableColumn) : Json :=
  .record
    [("table_id", .int64 c.table),
      ("column_id", .int64 c.id),
      ("column_name", .text c.name),
      ("data_type", c.type.toJson),
      ("ordinal_position", .uint32 c.ordinal),
      ("sort_ordinal_position", .option .uint32 c.sortPosition)]

def ofJson? : Json → Option TableColumn :=
  Json.asRecord? fieldNames do
    let table ← .required Json.asInt64?
    let id ← .required Json.asInt64?
    let name ← .required Json.asText?
    let type ← .required ColumnType.ofJson?
    let ordinal ← .defaulted 0 Json.asUInt32?
    let sortPosition ← .defaulted none (Json.asNullable? Json.asUInt32?)
    pure { table, id, name, type, ordinal, sortPosition }

end TableColumn

end ShardCompaction
