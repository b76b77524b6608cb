import ShardCompaction.Compaction.Plan
import ShardCompaction.Json.Writer
import ShardCompaction.Shard.Eligible

namespace ShardCompaction

/-- Counters over planning passes, which wrap. -/
structure Metrics where
  passes : UInt64
  passesFailed : UInt64
  setsEmitted : UInt64
  shardsPlanned : UInt64
  shardsAdequate : UInt64
  singletonsDiscarded : UInt64
  indexQueries : UInt64
  shardsDropped : UInt64
  deltasSkipped : UInt64
  deriving DecidableEq

namespace Metrics

def zero : Metrics := ⟨0, 0, 0, 0, 0, 0, 0, 0, 0⟩

def addPass (m : Metrics) : Metrics := { m with passes := m.passes + 1 }

def addFailedPass (m : Metrics) : Metrics := { m with passesFailed := m.passesFailed + 1 }

def addExtraction (m : Metrics) (e : EligibleShards) : Metrics :=
  { m with
    indexQueries := m.indexQueries + UInt64.ofNat e.indexQueries
    shardsDropped := m.shardsDropped + UInt64.ofNat e.dropped
    deltasSkipped := m.deltasSkipped + UInt64.ofNat e.deltas }

def addPlan (m : Metrics) (sets : Nat) (stats : CompactionStats) : Metrics :=
  { m with
    setsEmitted := m.setsEmitted + UInt64.ofNat sets
    shardsPlanned := m.shardsPlanned + UInt64.ofNat stats.planned
    shardsAdequate := m.shardsAdequate + UInt64.ofNat stats.adequate
    singletonsDiscarded := m.singletonsDiscarded + UInt64.ofNat stats.singletons }

def toJson (m : Metrics) : Json :=
  .record
    [("passes", .uint64 m.passes),
      ("passes_failed", .uint64 m.passesFailed),
      ("sets_emitted", .uint64 m.setsEmitted),
      ("shards_planned", .uint64 m.shardsPlanned),
      ("shards_adequate", .uint64 m.shardsAdequate),
      ("singletons_discarded", .uint64 m.singletonsDiscarded),
      ("index_queries", .uint64 m.indexQueries),
      ("shards_dropped", .uint64 m.shardsDropped),
      ("deltas_skipped", .uint64 m.deltasSkipped)]

end Metrics

end ShardCompaction
