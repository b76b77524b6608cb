import ShardCompaction.Day.Basic
import ShardCompaction.Grouping
import ShardCompaction.Shard.Basic
import ShardCompaction.Table.Basic

namespace ShardCompaction

/-- Shards with one key. An axis that the table is not partitioned by has no label. -/
structure Group where
  day : Option Int64
  bucket : Option UInt32
  shards : List Shard
  deriving DecidableEq

/-- The shards that are partitioned, with their days. On a temporal table a shard without a temporal
range is left out. -/
def Table.dated (table : Table) (zone : ZoneOffset) (shards : List Shard) :
    Except Defect (List (Option Int64 × Shard)) :=
  if table.isTemporal then
    (shards.filterMap fun s => s.temporalRange.map fun range => (range, s)).mapM fun entry => do
      let day ← entry.1.day zone
      pure (some day, entry.2)
  else .ok (shards.map fun s => (none, s))

/-- The bucket that a shard is grouped by. -/
def Table.bucketKey (table : Table) (s : Shard) : Option UInt32 :=
  if table.isBucketed then s.bucket else none

/-- Numbers that tell days apart, and buckets. -/
def dayCode : Option Int64 → Int
  | none => -0x8000000000000001
  | some day => day.toInt

def bucketCode : Option UInt32 → Int
  | none => -1
  | some bucket => bucket.toNat

theorem dayCode_inj {a b : Option Int64} (h : dayCode a = dayCode b) : a = b := by
  cases a with
  | none => cases b with
    | none => rfl
    | some b => exact absurd h (Int.ne_of_lt (Int.lt_of_lt_of_le (by decide) b.le_toInt))
  | some a => cases b with
    | none => exact absurd h (Int.ne_of_gt (Int.lt_of_lt_of_le (by decide) a.le_toInt))
    | some b => exact congrArg some (Int64.toInt_inj.mp h)

theorem bucketCode_inj {a b : Option UInt32} (h : bucketCode a = bucketCode b) : a = b := by
  cases a <;> cases b <;> simp only [bucketCode] at h
  · rfl
  · omega
  · omega
  · exact congrArg some (UInt32.toNat_inj.mp (by omega))

/-- Days come in the order in which they are first met and, within a day, buckets likewise. Every
day is computed before any group is formed. -/
def Table.partition (table : Table) (zone : ZoneOffset) (shards : List Shard) :
    Except Defect (List Group) := do
  let dated ← table.dated zone shards
  pure <| (groupByKey dayCode dated).flatMap fun (day, members) =>
    let keyed := members.map fun s => (table.bucketKey s, s)
    (groupByKey bucketCode keyed).map fun (bucket, shards) => { day, bucket, shards }

end ShardCompaction
