import ShardCompaction.Shard.Basic
import ShardCompaction.Zone.Basic

namespace ShardCompaction

/-- The limits of a compacted shard, and the zone in which days are told apart. -/
structure Compactor where
  zone : ZoneOffset
  maxBytes : UInt64
  maxRows : UInt64
  deriving DecidableEq

/-- A sum that 64 bits hold. -/
def checkedAdd (a b : UInt64) : Option UInt64 :=
  let sum := a + b
  if sum < a then none else some sum

theorem checkedAdd_eq_some_iff {a b c : UInt64} :
    checkedAdd a b = some c ↔ c.toNat = a.toNat + b.toNat := by
  have ha := a.toNat_lt
  have hb := b.toNat_lt
  have hc := c.toNat_lt
  have hs : (a + b).toNat = (a.toNat + b.toNat) % 0x10000000000000000 := UInt64.toNat_add a b
  simp only [checkedAdd, UInt64.lt_iff_toNat_lt]
  split
  · simp only [reduceCtorEq, false_iff]
    omega
  · rw [Option.some.injEq, ← UInt64.toNat_inj]
    omega

/-- A run that may still grow: its shards, newest first, and their totals. -/
structure OpenRun where
  newestFirst : List Shard
  rows : UInt64
  bytes : UInt64

namespace OpenRun

def empty : OpenRun := ⟨[], 0, 0⟩

def single (s : Shard) : OpenRun := ⟨[s], s.rows, s.bytes⟩

/-- The run with one more shard, if both totals stay within the limits. A total that overflows
exceeds every limit. -/
def extend? (c : Compactor) (run : OpenRun) (s : Shard) : Option OpenRun := do
  let rows ← checkedAdd run.rows s.rows
  let bytes ← checkedAdd run.bytes s.bytes
  if rows ≤ c.maxRows ∧ bytes ≤ c.maxBytes then some ⟨s :: run.newestFirst, rows, bytes⟩
  else none

end OpenRun

namespace Compactor

/-- A shard that already meets one of the limits is left alone. -/
def isAdequate (c : Compactor) (s : Shard) : Bool := c.maxRows ≤ s.rows || c.maxBytes ≤ s.bytes

end Compactor

end ShardCompaction
