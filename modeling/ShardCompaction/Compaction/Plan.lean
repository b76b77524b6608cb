import ShardCompaction.Compaction.Runs
import ShardCompaction.OrganizationSet.Basic
import ShardCompaction.Partition

namespace ShardCompaction

/-- What a plan was made from: partition groups, shards that entered a run, shards left alone,
delete-delta shards, runs of one shard, and shards of emitted sets. -/
@[ext] structure CompactionStats where
  groups : Nat
  candidates : Nat
  adequate : Nat
  deltas : Nat
  singletons : Nat
  planned : Nat
  deriving DecidableEq

def CompactionStats.zero : CompactionStats := ⟨0, 0, 0, 0, 0, 0⟩

structure CompactionPlan where
  sets : List OrganizationSet
  stats : CompactionStats
  deriving DecidableEq

/-- A plan in the making: the open run, the sets emitted so far, newest first, and the counters. -/
structure Packing where
  run : OpenRun
  newestFirst : List OrganizationSet
  stats : CompactionStats

namespace Packing

def empty : Packing := ⟨.empty, [], .zero⟩

/-- Closes the open run. Two shards or more become an organization set; merging one shard with
itself gains nothing. -/
def close (table : Table) (p : Packing) : Except Defect Packing :=
  match p.run.newestFirst with
  | [] => .ok { p with run := .empty }
  | [_] => .ok { p with run := .empty, stats.singletons := p.stats.singletons + 1 }
  | newestFirst => do
    let set ← OrganizationSet.ofShards table newestFirst.reverse OrganizationSet.automaticPriority
    .ok { run := .empty, newestFirst := set :: p.newestFirst
          stats := { p.stats with planned := p.stats.planned + newestFirst.length } }

end Packing

namespace Compactor

/-- Packs one more shard. Delete-delta shards and adequate ones are left alone; one that the open
run cannot take closes it and opens the next. -/
def pack (c : Compactor) (table : Table) (p : Packing) (s : Shard) : Except Defect Packing :=
  if s.isDelta then .ok { p with stats.deltas := p.stats.deltas + 1 }
  else if c.isAdequate s then .ok { p with stats.adequate := p.stats.adequate + 1 }
  else
    let p := { p with stats.candidates := p.stats.candidates + 1 }
    match p.run.extend? c s with
    | some run => .ok { p with run }
    | none => do
      let p ← p.close table
      .ok { p with run := .single s }

/-- Packs the shards of a group. No run goes on from one group to the next. -/
def packGroup (c : Compactor) (table : Table) (p : Packing) (g : Group) :
    Except Defect Packing := do
  let p := { p with run := .empty, stats.groups := p.stats.groups + 1 }
  let p ← g.shards.foldlM (c.pack table) p
  p.close table

/-- The organization sets for shards of a table, in group order. -/
def plan (c : Compactor) (table : Table) (shards : List Shard) : Except Defect CompactionPlan := do
  let groups ← table.partition c.zone shards
  let p ← groups.foldlM (c.packGroup table) .empty
  .ok { sets := p.newestFirst.reverse, stats := p.stats }

end Compactor

end ShardCompaction
