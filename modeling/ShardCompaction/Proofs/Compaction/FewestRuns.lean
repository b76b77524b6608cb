import Mathlib.Order.Bounds.Defs
import ShardCompaction.Proofs.Compaction.Plan

namespace ShardCompaction.Compactor

variable {c : Compactor}

/-- A cut of a list into consecutive runs, none empty and all within the limits. -/
structure IsCut (c : Compactor) (shards : List Shard) (runs : List (List Shard)) : Prop where
  flatten_eq : runs.flatten = shards
  nonempty : ∀ run ∈ runs, run ≠ []
  fits : ∀ run ∈ runs, c.Fits run

theorem IsGreedyCut.isCut {shards : List Shard} {runs : List (List Shard)}
    (h : c.IsGreedyCut shards runs) : c.IsCut shards runs := ⟨h.flatten_eq, h.nonempty, h.fits⟩

theorem IsCut.tail {shards run : List Shard} {runs : List (List Shard)}
    (h : c.IsCut shards (run :: runs)) : c.IsCut runs.flatten runs :=
  ⟨rfl, fun r hr => h.nonempty r (List.mem_cons_of_mem _ hr),
    fun r hr => h.fits r (List.mem_cons_of_mem _ hr)⟩

theorem Fits.of_suffix {xs ys : List Shard} (h : c.Fits ys) (hs : xs <:+ ys) : c.Fits xs := by
  obtain ⟨zs, rfl⟩ := hs
  simp only [Fits, totalRows_append, totalBytes_append] at h ⊢
  omega

/-- A greedy cut that is not behind another cut is not behind it after one more run of each. -/
theorem IsGreedyCut.suffix_tail {shards run other : List Shard} {runs others : List (List Shard)}
    (h : c.IsGreedyCut shards (run :: runs)) (hf : c.Fits other)
    (hs : shards <:+ other ++ others.flatten) : runs.flatten <:+ others.flatten := by
  have hcut : run ++ runs.flatten = shards := h.flatten_eq
  obtain ⟨ahead, he⟩ := hs
  rcases List.append_eq_append_iff.mp he with ⟨left, hother, hleft⟩ | ⟨more, -, hmore⟩
  · -- What is left of the other run fits, so the greedy run goes at least as far.
    have hfit : c.Fits left := hf.of_suffix ⟨ahead, hother.symm⟩
    obtain ⟨beyond, hrun⟩ := h.prefix_head ⟨_, hleft.symm⟩ hfit
    rw [← hcut, ← hrun, List.append_assoc] at hleft
    exact ⟨beyond, List.append_cancel_left hleft⟩
  · rw [hmore, ← hcut, ← List.append_assoc]
    exact List.suffix_append _ _

/-- A greedy cut that is not behind another cut has no more runs left to make. -/
theorem IsGreedyCut.length_le_of_suffix {shards all : List Shard} {runs others : List (List Shard)}
    (h : c.IsGreedyCut shards runs) (ho : c.IsCut all others) (hs : shards <:+ all) :
    runs.length ≤ others.length := by
  induction others generalizing shards all runs with
  | nil =>
    have hall : all = [] := ho.flatten_eq.symm
    rw [hall, List.suffix_nil] at hs
    have hnone : runs.flatten = [] := h.flatten_eq.trans hs
    cases runs with
    | nil => exact Nat.le_refl 0
    | cons run runs =>
      exact absurd (List.append_eq_nil_iff.mp hnone).1 (h.nonempty run List.mem_cons_self)
  | cons other others ih =>
    cases runs with
    | nil => exact Nat.zero_le _
    | cons run runs =>
      have hfit := ho.fits other List.mem_cons_self
      have htail := h.suffix_tail hfit (ho.flatten_eq ▸ hs)
      exact Nat.succ_le_succ (ih h.tail ho.tail htail)

/-- A group is cut into as few runs as it can be. -/
theorem isLeast_length_groupRuns (c : Compactor) (g : Group) :
    IsLeast {n | ∃ runs, c.IsCut (c.candidates g) runs ∧ runs.length = n}
      (c.groupRuns g).length := by
  refine ⟨⟨_, (isGreedyCut_groupRuns c g).isCut, rfl⟩, ?_⟩
  intro n hn
  obtain ⟨runs, hruns, rfl⟩ := hn
  exact (isGreedyCut_groupRuns c g).length_le_of_suffix hruns List.suffix_rfl

/-- Cuts of several groups, one for each. -/
abbrev AreCuts (c : Compactor) (groups : List Group) (cuts : List (List (List Shard))) : Prop :=
  List.Forall₂ (fun g runs => c.IsCut (c.candidates g) runs) groups cuts

theorem isLeast_length_allRuns (c : Compactor) (groups : List Group) :
    IsLeast {n | ∃ cuts, c.AreCuts groups cuts ∧ cuts.flatten.length = n}
      (c.allRuns groups).length := by
  constructor
  · refine ⟨groups.map c.groupRuns, ?_, by rw [allRuns, List.flatMap_def]⟩
    rw [AreCuts, List.forall₂_map_right_iff, List.forall₂_same]
    exact fun g _ => (isGreedyCut_groupRuns c g).isCut
  · intro n hn
    obtain ⟨cuts, hcuts, rfl⟩ := hn
    induction hcuts with
    | nil => exact Nat.le_refl 0
    | @cons g runs groups cuts hruns _ ih =>
      have hfirst := (isLeast_length_groupRuns c g).2 ⟨runs, hruns, rfl⟩
      rw [allRuns, List.flatMap_cons, List.length_append, List.flatten_cons, List.length_append]
      exact Nat.add_le_add hfirst ih

/-- Every run is a set or a single shard. -/
theorem length_mergedRuns_add (c : Compactor) (groups : List Group) :
    (c.mergedRuns groups).length + (c.stats groups).singletons = (c.allRuns groups).length := by
  have hsplit :=
    List.length_eq_countP_add_countP (fun run => 2 ≤ run.length) (l := c.allRuns groups)
  have hone : (c.allRuns groups).countP (fun run => ¬decide (2 ≤ run.length) = true) =
      (c.stats groups).singletons := by
    refine List.countP_congr fun run hrun => ?_
    have hpos := List.length_pos_iff.mpr (nonempty_of_mem_allRuns hrun)
    simp only [decide_eq_true_eq]
    omega
  rw [hone] at hsplit
  rw [hsplit, mergedRuns, List.countP_eq_length_filter]

/-- Within each group and over all of them, a plan has as few runs as cuts into consecutive runs
within the limits can have. Its runs are its sets and the shards that were left single. -/
theorem plan_makes_fewest_runs {table : Table} {shards : List Shard} {plan : CompactionPlan}
    (h : c.plan table shards = .ok plan) :
    ∃ groups, table.partition c.zone shards = .ok groups ∧
      (∀ g ∈ groups, IsLeast {n | ∃ runs, c.IsCut (c.candidates g) runs ∧ runs.length = n}
        (c.groupRuns g).length) ∧
      IsLeast {n | ∃ cuts, c.AreCuts groups cuts ∧ cuts.flatten.length = n}
        (plan.sets.length + plan.stats.singletons) := by
  obtain ⟨groups, hgroups, hsets, hstats⟩ := plan_eq_ok_iff.mp h
  refine ⟨groups, hgroups, fun g _ => isLeast_length_groupRuns c g, ?_⟩
  have hruns : plan.sets.length + plan.stats.singletons = (c.allRuns groups).length := by
    rw [← hsets.length_eq, hstats, length_mergedRuns_add]
  rw [hruns]
  exact isLeast_length_allRuns c groups

/-- The second and the third shard make a set between two that stay single. -/
theorem plan_makes_fewest_runs_of_four :
    ∃ plan groups, (⟨.utc, 100, 100⟩ : Compactor).plan (.plain 1)
        [.plain 1 60 1, .plain 2 50 1, .plain 3 40 1, .plain 4 70 1] = .ok plan ∧
      (Table.plain 1).partition .utc
        [.plain 1 60 1, .plain 2 50 1, .plain 3 40 1, .plain 4 70 1] = .ok groups ∧
      (∀ g ∈ groups, IsLeast {n | ∃ runs, (⟨.utc, 100, 100⟩ : Compactor).IsCut
        ((⟨.utc, 100, 100⟩ : Compactor).candidates g) runs ∧ runs.length = n}
          ((⟨.utc, 100, 100⟩ : Compactor).groupRuns g).length) ∧
      IsLeast {n | ∃ cuts, (⟨.utc, 100, 100⟩ : Compactor).AreCuts groups cuts ∧
        cuts.flatten.length = n} 3 := by
  have h : (⟨.utc, 100, 100⟩ : Compactor).plan (.plain 1)
      [.plain 1 60 1, .plain 2 50 1, .plain 3 40 1, .plain 4 70 1] =
        .ok ⟨[⟨1, false, ⟨[(.ofNat 2, none), (.ofNat 3, none)], by decide⟩, none, 0⟩],
          ⟨1, 4, 0, 0, 2, 2⟩⟩ := by decide
  obtain ⟨groups, hgroups, hgroup, hall⟩ := plan_makes_fewest_runs h
  exact ⟨_, groups, h, hgroups, hgroup, hall⟩

end ShardCompaction.Compactor
