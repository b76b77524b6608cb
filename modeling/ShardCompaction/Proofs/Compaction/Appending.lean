import ShardCompaction.Proofs.Compaction.Interleaving
import ShardCompaction.Proofs.Compaction.Sets

namespace ShardCompaction

namespace OrganizationSet

/-- A set with more members, all of them appended shards, and otherwise the same. -/
structure GrewBy (set longer : OrganizationSet) (appended : List Shard) : Prop where
  same : { longer with members := set.members } = set
  kept : set.members.entries ⊆ longer.members.entries
  gained : ∀ e ∈ longer.members.entries,
    e ∈ set.members.entries ∨ ∃ s ∈ appended, s.entry = e

theorem grewBy_of_append {table : Table} {run more appended : List Shard} {priority : Int32}
    {set longer : OrganizationSet} (hr : run ≠ []) (hmore : more ⊆ appended)
    (hset : ofShards table run priority = .ok set)
    (hlonger : ofShards table (run ++ more) priority = .ok longer) :
    set.GrewBy longer appended := by
  have hm := merges_of_ofShards hset
  have hm' := merges_of_ofShards hlonger
  have hentries : ∀ e, e ∈ longer.members.entries ↔
      e ∈ set.members.entries ∨ e ∈ more.map Shard.entry := by
    intro e
    rw [hm.entries.mem_iff, hm'.entries.mem_iff, List.map_append, List.mem_append]
  obtain ⟨first, hfirst⟩ := List.exists_mem_of_ne_nil run hr
  have hbucket : longer.bucket = set.bucket :=
    (hm'.bucket first (List.mem_append_left _ hfirst)).symm.trans (hm.bucket first hfirst)
  have htable := hm'.sameTable.trans hm.sameTable.symm
  have hdelta := hm'.deltaDelete.trans hm.deltaDelete.symm
  have hpriority := hm'.samePriority.trans hm.samePriority.symm
  refine ⟨?_, fun e he => (hentries e).mpr (.inl he), ?_⟩
  · rw [htable, hdelta, hbucket, hpriority]
  · intro e he
    refine ((hentries e).mp he).imp_right fun hgained => ?_
    obtain ⟨s, hs, rfl⟩ := List.mem_map.mp hgained
    exact ⟨s, hmore hs, rfl⟩

theorem GrewBy.mono {set longer : OrganizationSet} {few many : List Shard}
    (h : set.GrewBy longer few) (hsub : few ⊆ many) : set.GrewBy longer many := by
  refine ⟨h.same, h.kept, fun e he => (h.gained e he).imp_right fun hgained => ?_⟩
  obtain ⟨s, hs, hentry⟩ := hgained
  exact ⟨s, hsub hs, hentry⟩

end OrganizationSet

namespace Compactor

variable {c : Compactor} {table : Table} {xs ys : List Shard}

/-- A walk with an open run closes it first, perhaps with some more shards. -/
theorem walk_eq_cons {run : OpenRun} (hx : run.Exact) (hn : run.members ≠ [])
    (shards : List Shard) :
    ∃ more rest, more <+: shards ∧ c.walk run shards = (run.members ++ more) :: rest := by
  induction shards generalizing run with
  | nil => exact ⟨[], [], List.prefix_rfl, by rw [walk, OpenRun.close_eq hn, List.append_nil]⟩
  | cons s shards ih =>
    cases he : run.extend? c s with
    | none =>
      refine ⟨[], c.walk (.single s) shards, List.nil_prefix, ?_⟩
      simp only [walk, he, OpenRun.close_eq hn, List.append_nil, List.singleton_append]
    | some longer =>
      obtain ⟨hm, hl, -⟩ := (OpenRun.extend?_eq_some_iff c hx s).mp he
      obtain ⟨more, rest, hmore, hw⟩ := ih hl (by simp [hm])
      refine ⟨s :: more, rest, (List.prefix_cons_inj s).mpr hmore, ?_⟩
      simp only [walk, he, hw, hm, List.append_assoc, List.singleton_append]

/-- Appended candidates leave all runs but the last one, and extend that one if they can. -/
theorem exists_runs_append (c : Compactor) (xs ys : List Shard) :
    ∃ (closed : List (List Shard)) (last : Option (List Shard)) (others : List (List Shard)),
      c.runs xs = closed ++ last.toList ∧ c.runs (xs ++ ys) = closed ++ others ∧
      ∀ run ∈ last, ∃ more rest, more <+: ys ∧ others = (run ++ more) :: rest := by
  obtain ⟨closed, hclosed⟩ := c.walk_append .empty xs
  have hxs := hclosed []
  rw [List.append_nil] at hxs
  let run := xs.foldl (OpenRun.next c) .empty
  by_cases hn : run.members = []
  · have hclose : run.close = [] := by
      rw [OpenRun.members, List.reverse_eq_nil_iff] at hn
      rw [OpenRun.close, hn]
      rfl
    exact ⟨closed, none, c.walk run ys, hxs.trans (congrArg _ hclose), hclosed ys, by simp⟩
  · have hclose : run.close = [run.members] := OpenRun.close_eq hn
    have hexact : run.Exact := OpenRun.exact_foldl_next OpenRun.exact_empty c xs
    refine ⟨closed, some run.members, c.walk run ys, hxs.trans (congrArg _ hclose), hclosed ys, ?_⟩
    intro members hmembers
    obtain rfl := Option.some.inj hmembers
    exact walk_eq_cons hexact hn ys

/-- The runs of two or more shards become the sets, in their order. -/
abbrev Merged (table : Table) (runs : List (List Shard)) (sets : List OrganizationSet) : Prop :=
  (runs.filter fun run => 2 ≤ run.length).map (OrganizationSet.ofShards table · 0) = sets.map .ok

/-- All members of the set are shards of the key. -/
def HasKey (c : Compactor) (table : Table) (key : Group.Key) (shards : List Shard)
    (set : OrganizationSet) : Prop :=
  ∀ uuid ∈ set.members.uuids, ∃ s ∈ shards, s.uuid = uuid ∧ table.key? c.zone s = some key

instance (key : Group.Key) (shards : List Shard) (set : OrganizationSet) :
    Decidable (c.HasKey table key shards set) :=
  inferInstanceAs (Decidable (∀ uuid ∈ _, _))

/-- The sets of a key, in their order. -/
def setsOf (c : Compactor) (table : Table) (key : Group.Key) (shards : List Shard)
    (sets : List OrganizationSet) : List OrganizationSet :=
  sets.filter (c.HasKey table key shards)

theorem hasKey_iff (hnd : (xs.map Shard.uuid).Nodup) {run : List Shard} (hrun : run ⊆ xs)
    {set : OrganizationSet} (hset : OrganizationSet.ofShards table run 0 = .ok set)
    {key : Group.Key} :
    c.HasKey table key xs set ↔ ∀ s ∈ run, table.key? c.zone s = some key := by
  have huuids := (OrganizationSet.merges_of_ofShards hset).uuids_perm
  simp only [HasKey, huuids.mem_iff, List.forall_mem_map]
  constructor
  · intro h s hs
    obtain ⟨t, ht, hu, hkey⟩ := h s hs
    rwa [List.inj_on_of_nodup_map hnd ht (hrun hs) hu] at hkey
  · intro h s hs
    exact ⟨s, hrun hs, rfl, h s hs⟩

theorem isGreedyCut_runsOf (key : Group.Key) :
    c.IsGreedyCut (c.candidatesOf table key xs) (c.runs (c.candidatesOf table key xs)) :=
  isGreedyCut_runs fun _ hs => (mem_candidatesOf.mp hs).2.1

theorem key?_of_runsOf {key : Group.Key} {run : List Shard}
    (hr : run ∈ c.runs (c.candidatesOf table key xs)) {s : Shard} (hs : s ∈ run) :
    table.key? c.zone s = some key :=
  (mem_candidatesOf.mp ((isGreedyCut_runsOf key).mem hr hs)).2.2

/-- The sets of a key merge the runs of the candidates of the key. -/
theorem merged_setsOf (hnd : (xs.map Shard.uuid).Nodup) {plan : CompactionPlan}
    (hp : c.plan table xs = .ok plan) (key : Group.Key) :
    Merged table (c.runs (c.candidatesOf table key xs)) (c.setsOf table key xs plan.sets) := by
  obtain ⟨groups, hgroups, hsets, -⟩ := plan_eq_ok_iff.mp hp
  let ofKey (run : List Shard) : Bool := ∀ s ∈ run, table.key? c.zone s = some key
  have hkeep : (c.allRuns groups).filter ofKey = c.runs (c.candidatesOf table key xs) := by
    rw [allRuns_eq_flatMap hgroups]
    refine filter_flatMap_of_nodup (Table.nodup_keys ..) ?_ ?_ ?_
    · intro run hr
      exact decide_eq_true fun s hs => key?_of_runsOf hr hs
    · intro other _ hne run hr
      obtain ⟨s, hs⟩ := List.exists_mem_of_ne_nil run ((isGreedyCut_runsOf other).nonempty run hr)
      refine decide_eq_false fun hall => hne ?_
      exact Option.some.inj ((key?_of_runsOf hr hs).symm.trans (hall s hs))
    · intro hkey
      rw [candidatesOf_eq_nil hkey]
      rfl
  have hfilter : List.Forall₂ (fun run set => OrganizationSet.ofShards table run 0 = .ok set)
      ((c.mergedRuns groups).filter ofKey) (c.setsOf table key xs plan.sets) := by
    refine Checked.forall₂_filter hsets fun run hr set hset => ?_
    have hsub : run ⊆ xs := (packs_of_mem_mergedRuns hgroups hr hset).mem
    exact decide_eq_decide.mpr (hasKey_iff hnd hsub hset).symm
  rw [mergedRuns, List.filter_comm, hkeep] at hfilter
  exact Checked.map_eq_map_of_forall₂ hfilter fun _ _ h => h

/-- What becomes of the sets of a key when shards are appended: the sets closed on the way are kept
in their places, and the last one is followed by the one that it grows to. -/
structure Continues (c : Compactor) (table : Table) (key : Group.Key) (xs ys : List Shard)
    (p q : CompactionPlan) (kept : List OrganizationSet) (last : Option OrganizationSet)
    (more : List OrganizationSet) : Prop where
  before : c.setsOf table key xs p.sets = kept ++ last.toList
  after : c.setsOf table key (xs ++ ys) q.sets = kept ++ more
  /-- The set that may change is the one closed last: it merges the last candidate of the key. -/
  final : ∀ set ∈ last, ∃ s ∈ (c.candidatesOf table key xs).getLast?, s.uuid ∈ set.members.uuids
  grows : ∀ set ∈ last, ∃ longer ∈ more.head?, set.GrewBy longer ys

theorem exists_last_set {table : Table} {last : Option (List Shard)}
    {others : List (List Shard)} {sets more : List OrganizationSet}
    (hn : ∀ run ∈ last, run ≠ [])
    (hgrow : ∀ run ∈ last, ∃ appended rest, appended <+: ys ∧ others = (run ++ appended) :: rest)
    (hbefore : Merged table last.toList sets) (hafter : Merged table others more) :
    ∃ set : Option OrganizationSet, sets = set.toList ∧
      ∀ longest ∈ set, (∃ run ∈ last, longest.Merges table run 0) ∧
        ∃ longer ∈ more.head?, longest.GrewBy longer ys := by
  cases last with
  | none => exact ⟨none, by simpa [Merged, eq_comm] using hbefore, by simp⟩
  | some run =>
    by_cases hlen : 2 ≤ run.length
    case neg => exact ⟨none, by simpa [Merged, hlen, eq_comm] using hbefore, by simp⟩
    obtain ⟨appended, rest, hprefix, rfl⟩ := hgrow run rfl
    have hlen' : 2 ≤ (run ++ appended).length := by
      rw [List.length_append]
      omega
    have hone : [OrganizationSet.ofShards table run 0] = sets.map .ok := by
      simpa [Merged, hlen] using hbefore
    have hmore : OrganizationSet.ofShards table (run ++ appended) 0 ::
        (rest.filter fun run => 2 ≤ run.length).map (OrganizationSet.ofShards table · 0) =
          more.map .ok := by
      simpa only [Merged, List.filter_cons, hlen', decide_true, if_true, List.map_cons] using hafter
    obtain ⟨set, others, rfl, hset, hothers⟩ := List.map_eq_cons_iff.mp hone.symm
    obtain ⟨longer, others', rfl, hlonger, -⟩ := List.map_eq_cons_iff.mp hmore.symm
    obtain rfl := List.map_eq_nil_iff.mp hothers
    refine ⟨some set, rfl, fun _ he => ?_⟩
    obtain rfl := Option.some.inj he
    exact ⟨⟨run, rfl, OrganizationSet.merges_of_ofShards hset.symm⟩, longer, rfl,
      OrganizationSet.grewBy_of_append (hn run rfl) hprefix.subset hset.symm hlonger.symm⟩

theorem exists_continues {p q : CompactionPlan} (hp : c.plan table xs = .ok p)
    (hq : c.plan table (xs ++ ys) = .ok q) (hnd : ((xs ++ ys).map Shard.uuid).Nodup)
    (key : Group.Key) : ∃ kept last more, c.Continues table key xs ys p q kept last more := by
  have hndx : (xs.map Shard.uuid).Nodup := by
    rw [List.map_append] at hnd
    exact hnd.of_append_left
  have hbefore := merged_setsOf hndx hp key
  have hafter := merged_setsOf hnd hq key
  obtain ⟨closed, last, others, hxs, hxys, hgrow⟩ :=
    c.exists_runs_append (c.candidatesOf table key xs) (c.candidatesOf table key ys)
  have hcut : c.IsGreedyCut (c.candidatesOf table key xs) (c.runs (c.candidatesOf table key xs)) :=
    isGreedyCut_runsOf key
  have happend : c.candidatesOf table key (xs ++ ys) =
      c.candidatesOf table key xs ++ c.candidatesOf table key ys := List.filter_append ..
  rw [hxs, Merged, List.filter_append, List.map_append] at hbefore
  rw [happend, hxys, Merged, List.filter_append, List.map_append] at hafter
  rw [hxs] at hcut
  obtain ⟨kept, sets, hsets, hkept, hlast⟩ := List.map_eq_append_iff.mp hbefore.symm
  obtain ⟨kept', more, hmore, hkept', hothers⟩ := List.map_eq_append_iff.mp hafter.symm
  obtain rfl : kept' = kept :=
    (List.map_injective_iff.mpr fun _ _ => Except.ok.inj) (hkept'.trans hkept.symm)
  have hn : ∀ run ∈ last, run ≠ [] := fun run hr =>
    hcut.nonempty run (List.mem_append_right _ (Option.mem_toList.mpr hr))
  obtain ⟨set, rfl, hset⟩ := exists_last_set hn hgrow hlast.symm hothers.symm
  refine ⟨kept', set, more, hsets, hmore, ?_, ?_⟩
  · intro longest hlongest
    obtain ⟨⟨run, hrun, hmerges⟩, -⟩ := hset longest hlongest
    obtain rfl := Option.mem_def.mp hrun
    have hne := hn run rfl
    refine ⟨run.getLast hne, ?_, ?_⟩
    · rw [← hcut.flatten_eq, List.flatten_append, Option.toList_some, List.flatten_singleton,
        List.getLast?_append_of_ne_nil _ hne]
      exact List.getLast?_eq_getLast_of_ne_nil hne
    · rw [hmerges.uuids_perm.mem_iff]
      exact List.mem_map_of_mem (List.getLast_mem hne)
  · intro longest hlongest
    obtain ⟨-, longer, hlonger, hgrew⟩ := hset longest hlongest
    exact ⟨longer, hlonger, hgrew.mono List.filter_sublist.subset⟩

theorem exists_hasKey {p : CompactionPlan} (hp : c.plan table xs = .ok p) {set : OrganizationSet}
    (hset : set ∈ p.sets) : ∃ key, c.HasKey table key xs set := by
  obtain ⟨groups, hgroups, hsets, -⟩ := plan_eq_ok_iff.mp hp
  obtain ⟨run, hr, hmade⟩ := Checked.exists_of_mem_right hsets hset
  obtain ⟨g, hg, hrun, -⟩ := mem_mergedRuns.mp hr
  rw [Table.partition_eq_groups hgroups] at hg
  obtain ⟨key, -, rfl⟩ := List.mem_map.mp hg
  refine ⟨key, fun uuid hu => ?_⟩
  rw [(OrganizationSet.merges_of_ofShards hmade).uuids_perm.mem_iff] at hu
  obtain ⟨s, hs, rfl⟩ := List.mem_map.mp hu
  have hmem := List.mem_of_mem_filter (mem_candidates_of_groupRuns hrun hs)
  obtain ⟨hsx, hkey⟩ := List.mem_filter.mp hmem
  exact ⟨s, hsx, rfl, of_decide_eq_true hkey⟩

/-- If shards are appended, each set stays together within one set of the new plan. For each key
all sets stay as they are, but perhaps for the one closed last, which may gain appended shards. -/
theorem plan_stable_under_append {p q : CompactionPlan} (hp : c.plan table xs = .ok p)
    (hq : c.plan table (xs ++ ys) = .ok q) (hnd : ((xs ++ ys).map Shard.uuid).Nodup) :
    (∀ set ∈ p.sets, (∃ key, c.HasKey table key xs set) ∧
      ∃ longer ∈ q.sets, set.members.entries ⊆ longer.members.entries ∧
        ∀ other ∈ q.sets, other ≠ longer → set.members.uuids.Disjoint other.members.uuids) ∧
      ∀ key, ∃ kept last more, c.Continues table key xs ys p q kept last more := by
  refine ⟨fun set hset => ?_, exists_continues hp hq hnd⟩
  obtain ⟨key, hkey⟩ := exists_hasKey hp hset
  obtain ⟨kept, last, more, hc⟩ := exists_continues hp hq hnd key
  obtain ⟨longer, hlonger, hsub⟩ : ∃ longer ∈ kept ++ more,
      set.members.entries ⊆ longer.members.entries := by
    have hof : set ∈ kept ++ last.toList := by
      rw [← hc.before]
      exact List.mem_filter.mpr ⟨hset, decide_eq_true hkey⟩
    rcases List.mem_append.mp hof with hkept | hlast
    · exact ⟨set, List.mem_append_left _ hkept, List.Subset.refl _⟩
    · obtain ⟨longer, hhead, hgrew⟩ := hc.grows set (Option.mem_toList.mp hlast)
      exact ⟨longer, List.mem_append_right _ (List.mem_of_mem_head? hhead), hgrew.kept⟩
  rw [← hc.after] at hlonger
  have hmem : longer ∈ q.sets := List.mem_of_mem_filter hlonger
  refine ⟨⟨key, hkey⟩, longer, hmem, hsub, fun other hother hne => ?_⟩
  have : Std.Symm fun a b : OrganizationSet => a.members.uuids.Disjoint b.members.uuids :=
    ⟨fun _ _ h _ hb ha => h ha hb⟩
  have hdisjoint := (disjoint_sets_of_plan hq hnd).forall hmem hother hne.symm
  exact fun uuid hu hu' => hdisjoint (List.map_subset _ hsub hu) hu'

/-- Two buckets of one day: five shards in the first, which limits of sixteen cut into three and
two, and one in the second. -/
def fewDated : List Shard :=
  [.dated 1 1 (some 8), .dated 6 2 (some 8), .dated 2 1 (some 8), .dated 3 1 (some 8),
    .dated 4 1 (some 8), .dated 5 1 (some 8)]

/-- More shards: the second set gains one, and the shard that was alone is merged. -/
def moreDated : List Shard := [.dated 7 1 (some 8), .dated 9 2 (some 8), .dated 8 1 (some 8)]

theorem plan_stable_under_append_of_dated :
    let c : Compactor := ⟨.utc, 16, 16⟩
    ∃ p q, c.plan .daily fewDated = .ok p ∧ c.plan .daily (fewDated ++ moreDated) = .ok q ∧
      p.sets.map OrganizationSet.size = [3, 2] ∧ q.sets.map OrganizationSet.size = [3, 3, 2] ∧
      (∀ set ∈ p.sets, (∃ key, c.HasKey .daily key fewDated set) ∧
        ∃ longer ∈ q.sets, set.members.entries ⊆ longer.members.entries ∧
          ∀ other ∈ q.sets, other ≠ longer → set.members.uuids.Disjoint other.members.uuids) ∧
      ∀ key, ∃ kept last more, c.Continues .daily key fewDated moreDated p q kept last more := by
  intro c
  obtain ⟨p, hp⟩ := Checked.exists_ok_of_isSome (x := c.plan .daily fewDated) (by decide)
  obtain ⟨q, hq⟩ := Checked.exists_ok_of_isSome (x := c.plan .daily (fewDated ++ moreDated))
    (by decide)
  have hsmall : (c.plan .daily fewDated).toOption.map (·.sets.map OrganizationSet.size) =
      some [3, 2] := by decide
  have hlarge : (c.plan .daily (fewDated ++ moreDated)).toOption.map
      (·.sets.map OrganizationSet.size) = some [3, 3, 2] := by decide
  rw [hp] at hsmall
  rw [hq] at hlarge
  exact ⟨p, q, hp, hq, Option.some.inj hsmall, Option.some.inj hlarge,
    plan_stable_under_append hp hq (by decide)⟩

end Compactor

end ShardCompaction
