import ShardCompaction.Shard.Basic

namespace ShardCompaction

/-- Whether ranges over the sort columns are wanted, and how many shards one index query names. A
batch size of zero counts as one. -/
structure ExtractionOptions where
  includeSortColumns : Bool
  batchSize : Nat
  deriving DecidableEq

namespace ExtractionOptions

def defaultBatchSize : Nat := 1000

def default : ExtractionOptions := ⟨false, defaultBatchSize⟩

end ExtractionOptions

/-- Eligible shards in the order of their records, with the number of index queries made, of
delete-delta shards skipped, and of shards dropped for want of a range. -/
structure EligibleShards where
  shards : List Shard
  indexQueries : Nat
  deltas : Nat
  dropped : Nat
  deriving DecidableEq

end ShardCompaction
