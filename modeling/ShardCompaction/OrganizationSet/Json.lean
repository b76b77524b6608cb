import ShardCompaction.OrganizationSet.Basic
import ShardCompaction.Shard.Json

namespace ShardCompaction

namespace Members

def toJson (m : Members) : Json :=
  .record (m.entries.map fun e => (e.1.toText, .option Uuid.toJson e.2))

def entryOfJson? (field : Option String × Json) : Option (Uuid × Option Uuid) := do
  let uuid ← field.1 >>= Uuid.ofText?
  let delta ← field.2.asNullable? Uuid.ofJson?
  some (uuid, delta)

/-- Of several entries of one shard the last one counts. -/
def ofJson? : Json → Option Members
  | .object fields => (fields.mapM entryOfJson?).map ofEntries
  | _ => none

end Members

namespace OrganizationSet

def fieldNames : List String :=
  ["table_id", "supports_delta_delete", "shards", "bucket_number", "priority"]

def toJson (s : OrganizationSet) : Json :=
  .record
    [("table_id", .int64 s.table),
      ("supports_delta_delete", .bool s.supportsDeltaDelete),
      ("shards", s.members.toJson),
      ("bucket_number", .option .uint32 s.bucket),
      ("priority", .int s.priority.toInt)]

def ofJson? : Json → Option OrganizationSet :=
  Json.asRecord? fieldNames do
    let table ← .required Json.asInt64?
    let supportsDeltaDelete ← .required Json.asBool?
    let members ← .required Members.ofJson?
    let bucket ← .nullable Json.asUInt32?
    let priority ← .required Json.asInt32?
    pure { table, supportsDeltaDelete, members, bucket, priority }

end OrganizationSet

end ShardCompaction
