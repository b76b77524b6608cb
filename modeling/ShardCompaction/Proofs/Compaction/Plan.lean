import ShardCompaction.Compaction.Plan
import ShardCompaction.Proofs.Compaction.Greedy
import ShardCompaction.Proofs.OrganizationSet.OfShards
import ShardCompaction.Proofs.Partition

namespace ShardCompaction

theorem countP_add_length_flatten {α : Type} {runs : List (List α)} (h : ∀ run ∈ runs, run ≠ []) :
    (runs.countP fun run => run.length = 1) +
      (runs.filter fun run => 2 ≤ run.length).flatten.length = runs.flatten.length := by
  induction runs with
  | nil => rfl
  | cons run runs ih =>
    obtain ⟨hr, hrest⟩ := List.forall_mem_cons.mp h
    have hpos := List.length_pos_iff.mpr hr
    have ht := ih hrest
    rw [List.countP_cons, List.filter_cons, List.flatten_cons, List.length_append]
    by_cases h1 : run.length = 1
    · simp only [h1, decide_true, if_true, show ¬2 ≤ 1 by omega, decide_false, Bool.false_eq_true,
        if_false]
      omega
    · simp only [h1, decide_false, Bool.false_eq_true, if_false, show 2 ≤ run.length by omega,
        decide_true, if_true, List.flatten_cons, List.length_append]
      omega

def CompactionStats.counters (s : CompactionStats) : List Nat :=
  [s.groups, s.candidates, s.adequate, s.deltas, s.singletons, s.planned]

namespace Compactor

variable {c : Compactor}

/-- The shards of a group that enter the walk, in their order. -/
def candidates (c : Compactor) (g : Group) : List Shard := g.shards.filter c.isCandidate

theorem isGreedyCut_groupRuns (c : Compactor) (g : Group) :
    c.IsGreedyCut (c.candidates g) (c.groupRuns g) :=
  isGreedyCut_runs fun _ hs => (List.mem_filter.mp hs).2

theorem flatten_allRuns (c : Compactor) (groups : List Group) :
    (c.allRuns groups).flatten = groups.flatMap c.candidates := by
  rw [allRuns, List.flatMap_def, List.flatten_flatten, List.map_map, List.flatMap_def]
  exact congrArg _ (List.map_congr_left fun g _ => (isGreedyCut_groupRuns c g).flatten_eq)

theorem nonempty_of_mem_allRuns {groups : List Group} {run : List Shard}
    (h : run ∈ c.allRuns groups) : run ≠ [] := by
  obtain ⟨g, -, hr⟩ := List.mem_flatMap.mp h
  exact (isGreedyCut_groupRuns c g).nonempty run hr

theorem mem_mergedRuns {groups : List Group} {run : List Shard} :
    run ∈ c.mergedRuns groups ↔ ∃ g ∈ groups, run ∈ c.groupRuns g ∧ 2 ≤ run.length := by
  simp only [mergedRuns, allRuns, List.mem_filter, List.mem_flatMap, decide_eq_true_eq]
  constructor
  · intro h
    obtain ⟨⟨g, hg, hr⟩, hl⟩ := h
    exact ⟨g, hg, hr, hl⟩
  · intro h
    obtain ⟨g, hg, hr, hl⟩ := h
    exact ⟨⟨g, hg, hr⟩, hl⟩

theorem mem_candidates_of_groupRuns {g : Group} {run : List Shard} (hr : run ∈ c.groupRuns g)
    {s : Shard} (hs : s ∈ run) : s ∈ c.candidates g := (isGreedyCut_groupRuns c g).mem hr hs

theorem same_bucket_of_groupRuns {table : Table} {shards : List Shard} {groups : List Group}
    (h : table.partition c.zone shards = .ok groups) (ht : table.isBucketed = true) {g : Group}
    (hg : g ∈ groups) {run : List Shard} (hr : run ∈ c.groupRuns g) :
    ∀ s ∈ run, s.bucket = g.bucket := by
  intro s hs
  have hm := List.mem_of_mem_filter (mem_candidates_of_groupRuns hr hs)
  have hk := ((Table.group_of_partition h hg).2 s hm).2
  rwa [Table.bucketKey, if_pos ht] at hk

theorem stats_shards (c : Compactor) (groups : List Group) :
    (c.stats groups).candidates + (c.stats groups).adequate + (c.stats groups).deltas =
      (groups.flatMap Group.shards).length := by
  simp only [stats, tally]
  induction groups.flatMap Group.shards with
  | nil => rfl
  | cons s shards ih =>
    rw [List.countP_cons, List.countP_cons, List.countP_cons, List.length_cons, ← ih]
    cases hd : s.isDelta <;> cases ha : c.isAdequate s <;> simp [isCandidate, hd, ha] <;> omega

theorem stats_candidates (c : Compactor) (groups : List Group) :
    (c.stats groups).candidates = (groups.flatMap c.candidates).length := by
  simp only [stats, tally, List.countP_eq_length_filter, List.filter_flatMap]
  rfl

theorem stats_runs (c : Compactor) (groups : List Group) :
    (c.stats groups).singletons + (c.stats groups).planned = (c.stats groups).candidates := by
  have hn : ∀ run ∈ c.allRuns groups, run ≠ [] := fun _ hr => nonempty_of_mem_allRuns hr
  rw [stats_candidates, ← flatten_allRuns]
  exact countP_add_length_flatten hn

theorem plan_eq_ok_iff {table : Table} {shards : List Shard} {plan : CompactionPlan} :
    c.plan table shards = .ok plan ↔
      ∃ groups, table.partition c.zone shards = .ok groups ∧
        List.Forall₂ (fun run set => OrganizationSet.ofShards table run 0 = .ok set)
          (c.mergedRuns groups) plan.sets ∧
        plan.stats = c.stats groups := by
  rw [plan_eq, Checked.bind_eq_ok_iff]
  refine exists_congr fun groups => and_congr_right fun _ => ?_
  rw [map_eq_pure_bind, Checked.bind_eq_ok_iff]
  constructor
  · intro h
    obtain ⟨sets, hs, he⟩ := h
    obtain rfl := Except.ok.inj he
    exact ⟨Checked.mapM_eq_ok_iff.mp hs, rfl⟩
  · intro h
    obtain ⟨hs, he⟩ := h
    exact ⟨plan.sets, Checked.mapM_eq_ok_iff.mpr hs, by rw [← he]; rfl⟩

theorem planned_eq_sum_size {table : Table} {groups : List Group} {sets : List OrganizationSet}
    (h : List.Forall₂ (fun run set => OrganizationSet.ofShards table run 0 = .ok set)
      (c.mergedRuns groups) sets) :
    (c.stats groups).planned = (sets.map OrganizationSet.size).sum := by
  have hplanned : (c.stats groups).planned = (c.mergedRuns groups).flatten.length := rfl
  rw [hplanned]
  generalize c.mergedRuns groups = runs at h
  induction h with
  | nil => rfl
  | cons hs _ ih =>
    rw [List.flatten_cons, List.length_append, ih, List.map_cons, List.sum_cons,
      (OrganizationSet.merges_of_ofShards hs).size_eq]

theorem counters_le {table : Table} {shards : List Shard} {groups : List Group}
    (h : table.partition c.zone shards = .ok groups) :
    ∀ n ∈ (c.stats groups).counters, n ≤ shards.length := by
  have hl := (Table.partition_perm h).length_eq
  have hf := List.length_filter_le table.keeps shards
  have hs := stats_shards c groups
  have hr := stats_runs c groups
  have hg : groups.length ≤ (groups.flatMap Group.shards).length := by
    have hne : ∀ g ∈ groups, g.shards ≠ [] := fun g hg => (Table.group_of_partition h hg).1
    clear h hl hs hr
    induction groups with
    | nil => simp
    | cons g groups ih =>
      obtain ⟨hg, hrest⟩ := List.forall_mem_cons.mp hne
      have hpos := List.length_pos_iff.mpr hg
      have ht := ih hrest
      rw [List.flatMap_cons, List.length_append, List.length_cons]
      omega
  have hgroups : (c.stats groups).groups = groups.length := rfl
  intro n hn
  simp only [CompactionStats.counters, List.mem_cons, List.not_mem_nil, or_false] at hn
  omega

/-- A plan made of cuts of groups into runs: runs of two or more become sets, in group order and
then in run order, and the counters say what there was. -/
structure MergesCuts (c : Compactor) (table : Table) (groups : List Group)
    (cut : Group → List (List Shard)) (plan : CompactionPlan) : Prop where
  sets_eq : ((groups.flatMap cut).filter fun run => 2 ≤ run.length).map
    (OrganizationSet.ofShards table · 0) = plan.sets.map .ok
  groups_eq : plan.stats.groups = groups.length
  candidates_eq : plan.stats.candidates = (groups.flatMap c.candidates).length
  adequate_eq : plan.stats.adequate = (groups.flatMap Group.shards).countP fun s =>
    !s.isDelta && (c.maxRows ≤ s.rows || c.maxBytes ≤ s.bytes)
  deltas_eq : plan.stats.deltas = (groups.flatMap Group.shards).countP Shard.isDelta
  singletons_eq : plan.stats.singletons = (groups.flatMap cut).countP fun run => run.length = 1
  planned_eq : plan.stats.planned = (plan.sets.map OrganizationSet.size).sum

theorem mergesCuts_of_plan {table : Table} {groups : List Group} {plan : CompactionPlan}
    {cut : Group → List (List Shard)}
    (hsets : List.Forall₂ (fun run set => OrganizationSet.ofShards table run 0 = .ok set)
      (c.mergedRuns groups) plan.sets)
    (hstats : plan.stats = c.stats groups)
    (hcut : ∀ g ∈ groups, c.IsGreedyCut (c.candidates g) (cut g)) :
    c.MergesCuts table groups cut plan := by
  have hruns : groups.flatMap cut = c.allRuns groups := by
    rw [allRuns, List.flatMap_def, List.flatMap_def]
    apply congrArg
    apply List.map_congr_left
    intro g hg
    exact (hcut g hg).unique (isGreedyCut_groupRuns c g)
  have hok : List.Forall₂ (· = ·)
      ((c.mergedRuns groups).map (OrganizationSet.ofShards table · 0)) (plan.sets.map .ok) := by
    rw [List.forall₂_map_left_iff, List.forall₂_map_right_iff]
    exact hsets
  rw [List.forall₂_eq_eq_eq] at hok
  refine ⟨?_, ?_, ?_, ?_, ?_, ?_, ?_⟩
  · rw [hruns]
    exact hok
  · rw [hstats]
    rfl
  · rw [hstats, stats_candidates]
  · rw [hstats]
    rfl
  · rw [hstats]
    rfl
  · rw [hstats, hruns]
    rfl
  · rw [hstats, planned_eq_sum_size hsets]

/-- Each partition group has exactly one greedy cut, and a plan is made of these cuts. -/
theorem plan_merges_greedy_cuts {table : Table} {shards : List Shard} {plan : CompactionPlan}
    (h : c.plan table shards = .ok plan) :
    ∃ groups, table.partition c.zone shards = .ok groups ∧
      (∀ g ∈ groups, ∃! runs, c.IsGreedyCut (c.candidates g) runs) ∧
      (∀ cut : Group → List (List Shard),
        (∀ g ∈ groups, c.IsGreedyCut (c.candidates g) (cut g)) →
          c.MergesCuts table groups cut plan) ∧
      ∀ n ∈ plan.stats.counters, n ≤ shards.length := by
  obtain ⟨groups, hg, hsets, hstats⟩ := plan_eq_ok_iff.mp h
  refine ⟨groups, hg, ?_, ?_, ?_⟩
  · intro g _
    exact ⟨c.groupRuns g, isGreedyCut_groupRuns c g,
      fun runs hr => hr.unique (isGreedyCut_groupRuns c g)⟩
  · intro cut hcut
    exact mergesCuts_of_plan hsets hstats hcut
  · rw [hstats]
    exact counters_le hg

end Compactor

/-- A shard that has neither a bucket nor ranges. -/
def Shard.plain (uuid : Nat) (rows bytes : UInt64) : Shard :=
  { table := 1, bucket := none, uuid := .ofNat uuid, isDelta := false, delta := none, rows, bytes
    sortRange := none, temporalRange := none }

/-- A record of five rows and five bytes in table 1. -/
def ShardRecord.plain (id : Int64) (uuid : Nat) (isDelta : Bool) : ShardRecord :=
  { table := 1, id, uuid := .ofNat uuid, bucket := none, isDelta, delta := none, rows := 5
    compressedBytes := 5, uncompressedBytes := 5 }

/-- A table that is not partitioned. -/
def Table.plain (id : Int64) : Table :=
  { id, distributionId := none, distributionName := none, bucketCount := none
    temporalColumn := none, organized := false, supportsDeltaDelete := false }

namespace Compactor

theorem plan_merges_greedy_cuts_of_three :
    ∃ plan, (⟨.utc, 100, 100⟩ : Compactor).plan (.plain 1)
        [.plain 1 40 1, .plain 2 60 1, .plain 3 1 30] = .ok plan ∧
      ∃ groups, (Table.plain 1).partition .utc
          [.plain 1 40 1, .plain 2 60 1, .plain 3 1 30] = .ok groups ∧
        (∀ g ∈ groups, ∃! runs, (⟨.utc, 100, 100⟩ : Compactor).IsGreedyCut
          ((⟨.utc, 100, 100⟩ : Compactor).candidates g) runs) ∧
        (∀ cut : Group → List (List Shard),
          (∀ g ∈ groups, (⟨.utc, 100, 100⟩ : Compactor).IsGreedyCut
            ((⟨.utc, 100, 100⟩ : Compactor).candidates g) (cut g)) →
            (⟨.utc, 100, 100⟩ : Compactor).MergesCuts (.plain 1) groups cut plan) ∧
        ∀ n ∈ plan.stats.counters, n ≤ 3 := by
  have h : (⟨.utc, 100, 100⟩ : Compactor).plan (.plain 1)
      [.plain 1 40 1, .plain 2 60 1, .plain 3 1 30] =
        .ok ⟨[⟨1, false, ⟨[(.ofNat 1, none), (.ofNat 2, none)], by decide⟩, none, 0⟩],
          ⟨1, 3, 0, 0, 1, 2⟩⟩ := by decide
  obtain ⟨groups, hg, hu, hc, hn⟩ := plan_merges_greedy_cuts h
  exact ⟨_, h, groups, hg, hu, hc, hn⟩

end Compactor

end ShardCompaction
