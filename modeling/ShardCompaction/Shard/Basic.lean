import ShardCompaction.Uuid.Basic
import ShardCompaction.Value.Tuple

namespace ShardCompaction

/-- A stored shard. Index queries name it by its numeric id. -/
structure ShardRecord where
  table : Int64
  id : Int64
  uuid : Uuid
  bucket : Option UInt32
  isDelta : Bool
  delta : Option Uuid
  rows : UInt64
  compressedBytes : UInt64
  uncompressedBytes : UInt64
  deriving DecidableEq, Inhabited

/-- A shard as the planner sees it: identity, size, companion delete-delta shard, and the ranges
that were asked for. -/
structure Shard where
  table : Int64
  bucket : Option UInt32
  uuid : Uuid
  isDelta : Bool
  delta : Option Uuid
  rows : UInt64
  bytes : UInt64
  sortRange : Option ShardRange
  temporalRange : Option ShardRange
  deriving DecidableEq, Inhabited

/-- The view of a record with the given ranges. Its size in bytes is the uncompressed one. -/
def Shard.ofRecord (r : ShardRecord) (temporalRange sortRange : Option ShardRange) : Shard :=
  { table := r.table
    bucket := r.bucket
    uuid := r.uuid
    isDelta := r.isDelta
    delta := r.delta
    rows := r.rows
    bytes := r.uncompressedBytes
    sortRange
    temporalRange }

end ShardCompaction
