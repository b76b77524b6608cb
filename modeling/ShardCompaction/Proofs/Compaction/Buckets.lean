import ShardCompaction.Proofs.Compaction.Plan

namespace ShardCompaction.Compactor

variable {c : Compactor} {table : Table} {shards run : List Shard} {plan : CompactionPlan}
  {groups : List Group} {g : Group} {set : OrganizationSet}

/-- A set that merges a run of a group. -/
structure Closes (c : Compactor) (table : Table) (g : Group) (run : List Shard)
    (set : OrganizationSet) : Prop where
  cut : run ∈ c.groupRuns g
  two_le : 2 ≤ run.length
  mem : ∀ s ∈ run, s ∈ g.shards
  merges : set.Merges table run 0

theorem exists_closes (hset : OrganizationSet.ofShards table run 0 = .ok set)
    (hrun : run ∈ c.mergedRuns groups) : ∃ g ∈ groups, c.Closes table g run set := by
  obtain ⟨g, hg, hcut, htwo⟩ := mem_mergedRuns.mp hrun
  have hmem : ∀ s ∈ run, s ∈ g.shards := fun s hs =>
    List.mem_of_mem_filter (mem_candidates_of_groupRuns hcut hs)
  exact ⟨g, hg, hcut, htwo, hmem, OrganizationSet.merges_of_ofShards hset⟩

/-- On a table without buckets every group has none. -/
theorem bucket_of_unbucketed (h : table.partition c.zone shards = .ok groups) (hg : g ∈ groups)
    (ht : table.isBucketed = false) : g.bucket = none := by
  obtain ⟨hne, hkeys⟩ := Table.group_of_partition h hg
  obtain ⟨s, hs⟩ := List.exists_mem_of_ne_nil _ hne
  rw [← (hkeys s hs).2, Table.bucketKey, ht]
  rfl

/-- The number of a set is that of its group if the table has buckets, and otherwise only if its
members have none. -/
theorem Closes.bucket_eq_iff (hclose : c.Closes table g run set)
    (h : table.partition c.zone shards = .ok groups) (hg : g ∈ groups) :
    set.bucket = g.bucket ↔ table.isBucketed = true ∨ ∀ s ∈ run, s.bucket = none := by
  obtain ⟨first, hfirst⟩ : ∃ s, s ∈ run :=
    List.exists_mem_of_length_pos (by have := hclose.two_le; omega)
  cases ht : table.isBucketed with
  | true =>
    have hgroup := same_bucket_of_groupRuns h ht hg hclose.cut first hfirst
    have hset := hclose.merges.bucket first hfirst
    exact iff_of_true (hset.symm.trans hgroup) (.inl rfl)
  | false =>
    rw [bucket_of_unbucketed h hg ht]
    constructor
    · intro hnone
      exact .inr fun s hs => (hclose.merges.bucket s hs).trans hnone
    · intro hall
      have hnone := hall.resolve_left (by simp) first hfirst
      exact (hclose.merges.bucket first hfirst).symm.trans hnone

/-- Each set of a plan comes from one group and has the bucket number that all its members have. It
is the number of the group if the table has buckets. If it has none, the group has no number, and
then the set has the number of its group only if its members have none. -/
theorem plan_set_buckets (h : c.plan table shards = .ok plan) :
    ∃ groups, table.partition c.zone shards = .ok groups ∧
      (table.isBucketed = false → ∀ g ∈ groups, g.bucket = none) ∧
      ∀ set ∈ plan.sets, ∃ g ∈ groups, ∃ run, c.Closes table g run set ∧
        (∀ s ∈ run, s.bucket = set.bucket) ∧
        (set.bucket = g.bucket ↔ table.isBucketed = true ∨ ∀ s ∈ run, s.bucket = none) := by
  obtain ⟨groups, hgroups, hsets, -⟩ := plan_eq_ok_iff.mp h
  refine ⟨groups, hgroups, fun ht g hg => bucket_of_unbucketed hgroups hg ht, ?_⟩
  intro set hset
  obtain ⟨run, hrun, hmerge⟩ := Checked.exists_of_mem_right hsets hset
  obtain ⟨g, hg, hclose⟩ := exists_closes hmerge hrun
  exact ⟨g, hg, run, hclose, hclose.merges.bucket, hclose.bucket_eq_iff hgroups hg⟩

/-- Two shards with bucket number 7. -/
def numberedSeven : List Shard :=
  [{ Shard.plain 1 10 10 with bucket := some 7 }, { Shard.plain 2 10 10 with bucket := some 7 }]

def sevenPlan : CompactionPlan :=
  ⟨[⟨1, false, ⟨[(.ofNat 1, none), (.ofNat 2, none)], by decide⟩, some 7, 0⟩], ⟨1, 2, 0, 0, 0, 2⟩⟩

theorem plan_set_buckets_of_numberedSeven :
    (⟨.utc, 100, 100⟩ : Compactor).plan { Table.plain 1 with bucketCount := some 8 }
        numberedSeven = .ok sevenPlan ∧
      ∃ groups, Table.partition { Table.plain 1 with bucketCount := some 8 } .utc numberedSeven =
          .ok groups ∧
        ∀ set ∈ sevenPlan.sets, ∃ g ∈ groups, set.bucket = g.bucket := by
  have h : (⟨.utc, 100, 100⟩ : Compactor).plan { Table.plain 1 with bucketCount := some 8 }
      numberedSeven = .ok sevenPlan := by decide
  obtain ⟨groups, hgroups, -, hsets⟩ := plan_set_buckets h
  refine ⟨h, groups, hgroups, ?_⟩
  intro set hset
  obtain ⟨g, hg, run, -, -, hiff⟩ := hsets set hset
  exact ⟨g, hg, hiff.mpr (.inl rfl)⟩

/-- Without buckets the same shards make the same set, and its number is not that of the group. -/
theorem plan_of_numberedSeven_unbucketed :
    (Table.plain 1).isBucketed = false ∧
      (⟨.utc, 100, 100⟩ : Compactor).plan (.plain 1) numberedSeven = .ok sevenPlan ∧
      (Table.plain 1).partition .utc numberedSeven = .ok [⟨none, none, numberedSeven⟩] ∧
      ∃ set ∈ sevenPlan.sets, set.bucket = some 7 := by
  refine ⟨by decide, by decide, by decide, _, List.mem_singleton_self _, rfl⟩

end ShardCompaction.Compactor
