import ShardCompaction.Config.Basic
import ShardCompaction.Json.Reader
import ShardCompaction.Json.Record

namespace ShardCompaction.Config

def fieldNames : List String :=
  ["max_shard_size_bytes", "max_shard_rows", "time_zone", "index_batch_size",
    "include_sort_columns", "log_level"]

def toJson (c : Config) : Json :=
  .record
    [("max_shard_size_bytes", .uint64 c.maxBytes),
      ("max_shard_rows", .uint64 c.maxRows),
      ("time_zone", .text c.timeZone),
      ("index_batch_size", .uint64 c.batchSize),
      ("include_sort_columns", .bool c.includeSortColumns),
      ("log_level", .text c.logLevel)]

/-- Every field may be left out for its default. -/
def ofJson? : Json → Option Config :=
  Json.asRecord? fieldNames do
    let maxBytes ← .defaulted default.maxBytes Json.asUInt64?
    let maxRows ← .defaulted default.maxRows Json.asUInt64?
    let timeZone ← .defaulted default.timeZone Json.asText?
    let batchSize ← .defaulted default.batchSize Json.asUInt64?
    let includeSortColumns ← .defaulted default.includeSortColumns Json.asBool?
    let logLevel ← .defaulted default.logLevel Json.asText?
    pure { maxBytes, maxRows, timeZone, batchSize, includeSortColumns, logLevel }

/-- Reads settings and checks that they are valid. -/
def ofText (s : String) : Except ConfigError Config :=
  match Json.parse s >>= ofJson? with
  | none => .error (.malformed "")
  | some c => do
    c.validate
    pure c

end ShardCompaction.Config
