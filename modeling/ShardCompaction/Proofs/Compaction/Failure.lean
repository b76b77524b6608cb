import ShardCompaction.Proofs.Compaction.Plan
import ShardCompaction.Proofs.Day
import ShardCompaction.Proofs.OrganizationSet.FirstFlaw

namespace ShardCompaction

/-- A bucket number is foreign only if it differs from that of another shard. -/
theorem OrganizationSet.mixed_of_ofShards {table : Table} {shards : List Shard} {priority : Int32}
    {id : Int64} {expected found : Option UInt32}
    (h : ofShards table shards priority = .error (.mixedBuckets id expected found)) :
    ∃ a ∈ shards, ∃ b ∈ shards, a.bucket ≠ b.bucket := by
  have hne : shards ≠ [] := by
    rintro rfl
    simp [ofShards] at h
  obtain ⟨i, -, first, hfirst, s, hs, hd⟩ := exists_firstFlaw hne h
  by_cases hb : s.bucket ≠ first.bucket
  · exact ⟨s, List.mem_of_getElem? hs, first, List.mem_of_head? hfirst, hb⟩
  · simp [hb] at hd

theorem ShardRange.day_ne_mixedBuckets (range : ShardRange) (zone : ZoneOffset) (id : Int64)
    (expected found : Option UInt32) :
    range.day zone ≠ .error (.mixedBuckets id expected found) := by
  intro h
  have hmillis : ∀ millis, dayOfMillis zone millis ≠ .error (.mixedBuckets id expected found) := by
    intro millis hd
    have hlocal := (dayOfMillis_eq_error hd).1
    simp at hlocal
  rw [day] at h
  repeat' split at h
  case h_2 => exact hmillis _ h
  case h_3 => exact hmillis _ h
  all_goals simp at h

namespace Compactor

variable {c : Compactor}

/-- A run that is merged breaks an assumption: it mixes buckets or repeats an identifier. -/
def Defective (run : List Shard) : Prop :=
  (∃ a ∈ run, ∃ b ∈ run, a.bucket ≠ b.bucket) ∨ ¬(run.map Shard.uuid).Nodup

theorem ofShards_isError_iff {run : List Shard} (h : 2 ≤ run.length) (table : Table) :
    (∃ d, OrganizationSet.ofShards table run OrganizationSet.automaticPriority = .error d) ↔
      Defective run := by
  have hn : run ≠ [] := List.length_pos_iff.mp (by omega)
  rw [Checked.isError_iff, OrganizationSet.ofShards_isOk_iff, Defective, not_and, not_and_or]
  simp only [hn, ne_eq, not_false_eq_true, forall_const, not_forall, exists_prop]

theorem merge_isError_iff (table : Table) (groups : List Group) :
    (∃ d, ((c.mergedRuns groups).mapM fun run =>
        OrganizationSet.ofShards table run OrganizationSet.automaticPriority) = .error d) ↔
      ∃ g ∈ groups, ∃ run ∈ c.groupRuns g, 2 ≤ run.length ∧ Defective run := by
  rw [Checked.mapM_isError_iff]
  constructor
  · intro h
    obtain ⟨run, hrun, hd⟩ := h
    obtain ⟨g, hg, hr, hl⟩ := mem_mergedRuns.mp hrun
    exact ⟨g, hg, run, hr, hl, (ofShards_isError_iff hl table).mp hd⟩
  · intro h
    obtain ⟨g, hg, run, hr, hl, hd⟩ := h
    exact ⟨run, mem_mergedRuns.mpr ⟨g, hg, hr, hl⟩, (ofShards_isError_iff hl table).mpr hd⟩

theorem plan_ne_mixedBuckets {table : Table} (ht : table.isBucketed = true) (shards : List Shard)
    (id : Int64) (expected found : Option UInt32) :
    c.plan table shards ≠ .error (.mixedBuckets id expected found) := by
  intro h
  rw [plan_eq] at h
  rcases Checked.bind_eq_error_iff.mp h with hp | ⟨groups, hg, hrest⟩
  · -- Partitioning reports nothing but ranges without a day.
    obtain ⟨s, -, hs⟩ := Table.dated_eq_error (Table.partition_eq_error_iff.mp hp)
    obtain ⟨-, range, -, hd⟩ := Table.dayKey_eq_error_iff.mp hs
    exact range.day_ne_mixedBuckets _ _ _ _ hd
  · rw [map_eq_pure_bind] at hrest
    rcases Checked.bind_eq_error_iff.mp hrest with hm | ⟨sets, -, he⟩
    · obtain ⟨run, hrun, hd⟩ := Checked.mapM_eq_error hm
      obtain ⟨g, hgm, hr, -⟩ := mem_mergedRuns.mp hrun
      obtain ⟨a, ha, b, hb, hne⟩ := OrganizationSet.mixed_of_ofShards hd
      have hsame := same_bucket_of_groupRuns hg ht hgm hr
      exact hne ((hsame a ha).trans (hsame b hb).symm)
    · simp [pure, Except.pure] at he

/-- Planning fails exactly on a range without a day on a temporal table and on a defective run of
some group that is long enough to be merged. Buckets never clash on a bucketed table, and no input
makes a total wrap: after any candidates the totals are the sums over the open run, from which the
walk goes on, and this is the open run of the loop. -/
theorem plan_fails_iff (c : Compactor) (table : Table) (shards : List Shard) :
    ((∃ d, c.plan table shards = .error d) ↔
      (table.isTemporal = true ∧
        ∃ s ∈ shards, ∃ range ∈ s.temporalRange, ∃ d, range.day c.zone = .error d) ∨
      ∃ groups, table.partition c.zone shards = .ok groups ∧
        ∃ g ∈ groups, ∃ run ∈ c.groupRuns g, 2 ≤ run.length ∧ Defective run) ∧
    (table.isBucketed = true → ∀ id expected found,
      c.plan table shards ≠ .error (.mixedBuckets id expected found)) ∧
    (∀ candidates : List Shard,
      let run := candidates.foldl (OpenRun.next c) .empty
      run.rows.toNat = totalRows run.members ∧ run.bytes.toNat = totalBytes run.members ∧
        ∃ closed, ∀ rest, c.runs (candidates ++ rest) = closed ++ c.walk run rest) ∧
    ∀ (p q : Packing) (met : List Shard),
      met.foldlM (c.pack table) { p with run := .empty } = .ok q →
        q.run = (met.filter c.isCandidate).foldl (OpenRun.next c) .empty := by
  refine ⟨?_, ?_, ?_, fun p q met h => OpenRun.run_of_foldlM_pack h⟩
  · rw [plan_eq, Checked.bind_isError_iff, Table.partition_isError_iff]
    refine or_congr_right (exists_congr fun groups => and_congr_right fun _ => ?_)
    rw [map_eq_pure_bind, Checked.bind_isError_iff, merge_isError_iff]
    simp [pure, Except.pure]
  · intro ht id expected found
    exact plan_ne_mixedBuckets ht shards id expected found
  · intro candidates run
    have hx : run.Exact := OpenRun.exact_foldl_next OpenRun.exact_empty c candidates
    exact ⟨hx.rows, hx.bytes, walk_append c .empty candidates⟩

end Compactor

end ShardCompaction
