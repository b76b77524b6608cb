import Mathlib.Data.List.Flatten
import ShardCompaction.Proofs.Compaction.Plan

namespace ShardCompaction.Compactor

variable {c : Compactor} {table : Table} {shards : List Shard} {plan : CompactionPlan}

/-- A set merges a run of two or more candidates within the limits, all of one day. -/
structure Packs (c : Compactor) (table : Table) (shards run : List Shard) (set : OrganizationSet) :
    Prop where
  merges : set.Merges table run 0
  two_le : 2 ≤ run.length
  mem : ∀ s ∈ run, s ∈ shards
  candidate : ∀ s ∈ run, c.isCandidate s = true
  fits : c.Fits run
  day : ∃ day, ∀ s ∈ run, table.dayKey c.zone s = .ok day

theorem packs_of_mem_mergedRuns {groups : List Group}
    (hg : table.partition c.zone shards = .ok groups) {run : List Shard}
    (hr : run ∈ c.mergedRuns groups) {set : OrganizationSet}
    (hset : OrganizationSet.ofShards table run 0 = .ok set) : c.Packs table shards run set := by
  obtain ⟨g, hgm, hrun, hlen⟩ := mem_mergedRuns.mp hr
  have hcand : ∀ s ∈ run, s ∈ g.shards ∧ c.isCandidate s = true := by
    intro s hs
    exact List.mem_filter.mp (mem_candidates_of_groupRuns hrun hs)
  have hmem : ∀ s ∈ run, s ∈ shards := by
    intro s hs
    have hflat := List.mem_flatMap.mpr ⟨g, hgm, (hcand s hs).1⟩
    exact List.mem_of_mem_filter ((Table.partition_perm hg).subset hflat)
  have hday : ∀ s ∈ run, table.dayKey c.zone s = .ok g.day := by
    intro s hs
    exact ((Table.group_of_partition hg hgm).2 s (hcand s hs).1).1
  have hfits := (isGreedyCut_groupRuns c g).fits run hrun
  exact ⟨OrganizationSet.merges_of_ofShards hset, hlen, hmem, fun s hs => (hcand s hs).2, hfits,
    g.day, hday⟩

theorem packs_of_plan (h : c.plan table shards = .ok plan) {set : OrganizationSet}
    (hs : set ∈ plan.sets) : ∃ run, c.Packs table shards run set := by
  obtain ⟨groups, hg, hsets, -⟩ := plan_eq_ok_iff.mp h
  obtain ⟨run, hr, hset⟩ := Checked.exists_of_mem_right hsets hs
  exact ⟨run, packs_of_mem_mergedRuns hg hr hset⟩

theorem uuids_perm_of_merged {runs : List (List Shard)} {sets : List OrganizationSet}
    (h : List.Forall₂ (fun run set => OrganizationSet.ofShards table run 0 = .ok set) runs sets) :
    (sets.flatMap fun set => set.members.uuids).Perm (runs.flatten.map Shard.uuid) := by
  induction h with
  | nil => exact .refl _
  | cons hs _ ih =>
    rw [List.flatMap_cons, List.flatten_cons, List.map_append]
    exact (OrganizationSet.merges_of_ofShards hs).uuids_perm.append ih

/-- The merged runs hold each of the shards at most once. -/
theorem subperm_of_mergedRuns {groups : List Group}
    (hg : table.partition c.zone shards = .ok groups) :
    (c.mergedRuns groups).flatten.Subperm shards := by
  have hmerged : (c.mergedRuns groups).flatten.Sublist (c.allRuns groups).flatten :=
    List.Sublist.flatten List.filter_sublist
  have hcand : (c.allRuns groups).flatten.Sublist (groups.flatMap Group.shards) := by
    rw [flatten_allRuns]
    exact List.Sublist.flatMap_right groups fun g _ => List.filter_sublist
  have hkept := (Table.partition_perm hg).subperm.trans List.filter_sublist.subperm
  exact (hmerged.trans hcand).subperm.trans hkept

theorem disjoint_sets_of_plan (h : c.plan table shards = .ok plan)
    (hnd : (shards.map Shard.uuid).Nodup) :
    plan.sets.Pairwise fun a b => a.members.uuids.Disjoint b.members.uuids := by
  obtain ⟨groups, hg, hsets, -⟩ := plan_eq_ok_iff.mp h
  obtain ⟨order, hperm, hsub⟩ := subperm_of_mergedRuns hg
  have horder : (order.map Shard.uuid).Nodup := hnd.sublist (hsub.map _)
  have hruns : ((c.mergedRuns groups).flatten.map Shard.uuid).Nodup :=
    (hperm.map Shard.uuid).nodup_iff.mp horder
  have huuids := (uuids_perm_of_merged hsets).nodup_iff.mpr hruns
  exact (List.nodup_flatMap.mp huuids).2

end ShardCompaction.Compactor
