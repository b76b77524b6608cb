import ShardCompaction.Shard.Basic
import ShardCompaction.Table.Json
import ShardCompaction.Uuid.Text

namespace ShardCompaction

namespace Uuid

def toJson (u : Uuid) : Json := .text u.toText

def ofJson? (j : Json) : Option Uuid := j.asText? >>= ofText?

end Uuid

namespace ShardRecord

def fieldNames : List String :=
  ["table_id", "shard_id", "shard_uuid", "bucket_number", "is_delta", "delta_uuid", "row_count",
    "compressed_size", "uncompressed_size"]

def toJson (r : ShardRecord) : Json :=
  .record
    [("table_id", .int64 r.table),
      ("shard_id", .int64 r.id),
      ("shard_uuid", r.uuid.toJson),
      ("bucket_number", .option .uint32 r.bucket),
      ("is_delta", .bool r.isDelta),
      ("delta_uuid", .option Uuid.toJson r.delta),
      ("row_count", .uint64 r.rows),
      ("compressed_size", .uint64 r.compressedBytes),
      ("uncompressed_size", .uint64 r.uncompressedBytes)]

def ofJson? : Json → Option ShardRecord :=
  Json.asRecord? fieldNames do
    let table ← .required Json.asInt64?
    let id ← .required Json.asInt64?
    let uuid ← .required Uuid.ofJson?
    let bucket ← .defaulted none (Json.asNullable? Json.asUInt32?)
    let isDelta ← .defaulted false Json.asBool?
    let delta ← .defaulted none (Json.asNullable? Uuid.ofJson?)
    let rows ← .defaulted 0 Json.asUInt64?
    let compressedBytes ← .defaulted 0 Json.asUInt64?
    let uncompressedBytes ← .defaulted 0 Json.asUInt64?
    pure { table, id, uuid, bucket, isDelta, delta, rows, compressedBytes, uncompressedBytes }

end ShardRecord

namespace Shard

def fieldNames : List String :=
  ["table_id", "bucket_number", "shard_uuid", "is_delta", "delta_shard_uuid", "row_count",
    "uncompressed_size", "sort_range", "temporal_range"]

def toJson (s : Shard) : Json :=
  .record
    [("table_id", .int64 s.table),
      ("bucket_number", .option .uint32 s.bucket),
      ("shard_uuid", s.uuid.toJson),
      ("is_delta", .bool s.isDelta),
      ("delta_shard_uuid", .option Uuid.toJson s.delta),
      ("row_count", .uint64 s.rows),
      ("uncompressed_size", .uint64 s.bytes),
      ("sort_range", .option ShardRange.toJson s.sortRange),
      ("temporal_range", .option ShardRange.toJson s.temporalRange)]

def ofJson? : Json → Option Shard :=
  Json.asRecord? fieldNames do
    let table ← .required Json.asInt64?
    let bucket ← .nullable Json.asUInt32?
    let uuid ← .required Uuid.ofJson?
    let isDelta ← .required Json.asBool?
    let delta ← .nullable Uuid.ofJson?
    let rows ← .required Json.asUInt64?
    let bytes ← .required Json.asUInt64?
    let sortRange ← .nullable ShardRange.ofJson?
    let temporalRange ← .nullable ShardRange.ofJson?
    pure { table, bucket, uuid, isDelta, delta, rows, bytes, sortRange, temporalRange }

end Shard

end ShardCompaction
