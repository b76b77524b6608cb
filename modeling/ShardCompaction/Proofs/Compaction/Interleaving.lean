import ShardCompaction.Proofs.Compaction.Plan
import ShardCompaction.Proofs.Partition.Classification

namespace ShardCompaction

/-- Shards that a plan does not tell apart, once their key is known. -/
structure Shard.SameLoad (a b : Shard) : Prop where
  uuid : a.uuid = b.uuid
  delta : a.delta = b.delta
  bucket : a.bucket = b.bucket
  rows : a.rows = b.rows
  bytes : a.bytes = b.bytes

instance (a b : Shard) : Decidable (a.SameLoad b) :=
  decidable_of_iff
    (a.uuid = b.uuid ∧ a.delta = b.delta ∧ a.bucket = b.bucket ∧ a.rows = b.rows ∧
      a.bytes = b.bytes)
    ⟨fun ⟨hu, hd, hb, hr, hs⟩ => ⟨hu, hd, hb, hr, hs⟩,
      fun h => ⟨h.uuid, h.delta, h.bucket, h.rows, h.bytes⟩⟩

/-- The shard without what runs and sets do not read. -/
def Shard.bare (s : Shard) : Shard :=
  { s with table := 0, isDelta := false, sortRange := none, temporalRange := none }

theorem Shard.SameLoad.bare_eq {a b : Shard} (h : a.SameLoad b) : a.bare = b.bare := by
  obtain ⟨huuid, hdelta, hbucket, hrows, hbytes⟩ := h
  simp only [bare, huuid, hdelta, hbucket, hrows, hbytes]

namespace OpenRun

def bare (run : OpenRun) : OpenRun :=
  { run with newestFirst := run.newestFirst.map Shard.bare }

theorem bare_extend? (c : Compactor) (run : OpenRun) (s : Shard) :
    run.bare.extend? c s.bare = (run.extend? c s).map bare := by
  have hrows : s.bare.rows = s.rows := rfl
  have hbytes : s.bare.bytes = s.bytes := rfl
  simp only [extend?, bare, hrows, hbytes, Option.bind_eq_bind, Option.map_bind]
  cases checkedAdd run.rows s.rows with
  | none => rfl
  | some rows =>
    cases checkedAdd run.bytes s.bytes with
    | none => rfl
    | some bytes =>
      by_cases hle : rows ≤ c.maxRows ∧ bytes ≤ c.maxBytes <;> simp [bare, hle]

theorem bare_close (run : OpenRun) : run.bare.close = run.close.map (List.map Shard.bare) := by
  cases hn : run.newestFirst with
  | nil => simp [close, bare, hn]
  | cons s rest => simp [close, bare, hn]

end OpenRun

namespace Compactor

variable {c : Compactor} {table : Table}

theorem walk_bare (c : Compactor) (run : OpenRun) (shards : List Shard) :
    c.walk run.bare (shards.map Shard.bare) = (c.walk run shards).map (List.map Shard.bare) := by
  induction shards generalizing run with
  | nil => exact run.bare_close
  | cons s shards ih =>
    rw [List.map_cons, walk, walk, OpenRun.bare_extend?]
    cases run.extend? c s with
    | none =>
      rw [Option.map_none, List.map_append, run.bare_close, ← ih]
      rfl
    | some longer => exact ih longer

theorem runs_bare (c : Compactor) (shards : List Shard) :
    c.runs (shards.map Shard.bare) = (c.runs shards).map (List.map Shard.bare) :=
  c.walk_bare .empty shards

end Compactor

namespace OrganizationSet

theorem addShards_bare (table : Int64) (bucket : Option UInt32) (members : MemberMap)
    (shards : List Shard) :
    addShards table bucket members (shards.map Shard.bare) =
      addShards table bucket members shards := by
  induction shards generalizing members with
  | nil => rfl
  | cons s shards ih =>
    have hbucket : s.bare.bucket = s.bucket := rfl
    have huuid : s.bare.uuid = s.uuid := rfl
    have hdelta : s.bare.delta = s.delta := rfl
    rw [List.map_cons, addShards, addShards, hbucket, huuid, hdelta, ih]

theorem ofShards_bare (table : Table) (shards : List Shard) (priority : Int32) :
    ofShards table (shards.map Shard.bare) priority = ofShards table shards priority := by
  cases shards with
  | nil => rfl
  | cons first rest =>
    have hadd := addShards_bare table.id first.bucket ∅ (first :: rest)
    have hbucket : first.bare.bucket = first.bucket := rfl
    rw [List.map_cons] at hadd ⊢
    rw [ofShards, ofShards, hbucket, hadd]

end OrganizationSet

theorem flatMap_perm_of_nodup {κ β : Type} {keys keys' : List κ} (f : κ → List β)
    (hk : keys.Nodup) (hk' : keys'.Nodup) (h : ∀ key, f key ≠ [] → (key ∈ keys ↔ key ∈ keys')) :
    (keys.flatMap f).Perm (keys'.flatMap f) := by
  classical
  have hskip : ∀ l : List κ, l.flatMap f = (l.filter fun key => f key ≠ []).flatMap f := by
    intro l
    induction l with
    | nil => rfl
    | cons key l ih =>
      by_cases he : f key = []
      · rw [List.filter_cons_of_neg (by simpa using he), List.flatMap_cons, he, ih]
        rfl
      · rw [List.filter_cons_of_pos (by simpa using he), List.flatMap_cons, List.flatMap_cons, ih]
  have hsame : (keys.filter fun key => f key ≠ []).Perm (keys'.filter fun key => f key ≠ []) := by
    refine (List.perm_ext_iff_of_nodup (hk.filter _) (hk'.filter _)).mpr fun key => ?_
    simp only [List.mem_filter, decide_eq_true_eq]
    exact and_congr_left fun hne => h key hne
  rw [hskip keys, hskip keys']
  exact hsame.flatMap_right f

namespace Compactor

variable {c : Compactor} {table : Table} {xs ys : List Shard}

/-- The candidates of a key, in their order. -/
def candidatesOf (c : Compactor) (table : Table) (key : Group.Key) (shards : List Shard) :
    List Shard :=
  shards.filter fun s => c.isCandidate s && decide (table.key? c.zone s = some key)

theorem mem_candidatesOf {key : Group.Key} {s : Shard} :
    s ∈ c.candidatesOf table key xs ↔
      s ∈ xs ∧ c.isCandidate s = true ∧ table.key? c.zone s = some key := by
  rw [candidatesOf, List.mem_filter, Bool.and_eq_true, decide_eq_true_eq]

theorem allRuns_eq_flatMap {groups : List Group} (h : table.partition c.zone xs = .ok groups) :
    c.allRuns groups =
      (table.keys c.zone xs).flatMap fun key => c.runs (c.candidatesOf table key xs) := by
  rw [Table.partition_eq_groups h, allRuns, List.flatMap_map]
  simp only [groupRuns, Table.groupOf, List.filter_filter, candidatesOf]

theorem candidatesOf_eq_nil {key : Group.Key} (h : key ∉ table.keys c.zone xs) :
    c.candidatesOf table key xs = [] := by
  refine List.eq_nil_iff_forall_not_mem.mpr fun s hs => ?_
  obtain ⟨hmem, -, hkey⟩ := mem_candidatesOf.mp hs
  exact h (Table.mem_keys.mpr ⟨s, hmem, hkey⟩)

theorem mem_keys_of_runs_ne_nil {key : Group.Key} (h : c.runs (c.candidatesOf table key xs) ≠ []) :
    key ∈ table.keys c.zone xs := by
  by_contra hkey
  rw [candidatesOf_eq_nil hkey] at h
  exact h rfl

/-- The runs of two lists with the same candidates for each key. -/
theorem bare_allRuns_perm
    (h : ∀ key, List.Forall₂ Shard.SameLoad (c.candidatesOf table key xs)
      (c.candidatesOf table key ys))
    {gs hs : List Group} (hx : table.partition c.zone xs = .ok gs)
    (hy : table.partition c.zone ys = .ok hs) :
    ((c.allRuns gs).map (List.map Shard.bare)).Perm ((c.allRuns hs).map (List.map Shard.bare)) := by
  have hruns : ∀ key, (c.runs (c.candidatesOf table key xs)).map (List.map Shard.bare) =
      (c.runs (c.candidatesOf table key ys)).map (List.map Shard.bare) := by
    intro key
    rw [← runs_bare, ← runs_bare,
      Checked.map_eq_map_of_forall₂ (h key) fun a b hab => hab.bare_eq]
  rw [allRuns_eq_flatMap hx, allRuns_eq_flatMap hy, List.map_flatMap, List.map_flatMap]
  simp only [← hruns]
  refine flatMap_perm_of_nodup _ (Table.nodup_keys ..) (Table.nodup_keys ..) fun key hne => ?_
  have hxs : c.runs (c.candidatesOf table key xs) ≠ [] := fun he => hne (by rw [he]; rfl)
  have hys : c.runs (c.candidatesOf table key ys) ≠ [] := fun he => hne (by rw [hruns, he]; rfl)
  exact iff_of_true (mem_keys_of_runs_ne_nil hxs) (mem_keys_of_runs_ne_nil hys)

theorem bare_mergedRuns (c : Compactor) (groups : List Group) :
    (c.mergedRuns groups).map (List.map Shard.bare) =
      ((c.allRuns groups).map (List.map Shard.bare)).filter fun run => 2 ≤ run.length := by
  rw [mergedRuns, List.filter_map]
  simp only [Function.comp_def, List.length_map]

theorem length_flatten_bare (runs : List (List Shard)) :
    (runs.map (List.map Shard.bare)).flatten.length = runs.flatten.length := by
  rw [← List.map_flatten, List.length_map]

/-- Plans for lists that have the same candidates for each key, up to what plans do not read, have
the same sets up to their order, and the same counts of candidates and runs. -/
theorem plan_sets_perm {p q : CompactionPlan} (hp : c.plan table xs = .ok p)
    (hq : c.plan table ys = .ok q)
    (h : ∀ key, List.Forall₂ Shard.SameLoad (c.candidatesOf table key xs)
      (c.candidatesOf table key ys)) :
    p.sets.Perm q.sets ∧ p.stats.candidates = q.stats.candidates ∧
      p.stats.planned = q.stats.planned ∧ p.stats.singletons = q.stats.singletons := by
  obtain ⟨gs, hgs, hpsets, hpstats⟩ := plan_eq_ok_iff.mp hp
  obtain ⟨hs, hhs, hqsets, hqstats⟩ := plan_eq_ok_iff.mp hq
  have hall := bare_allRuns_perm h hgs hhs
  have hmerged : ((c.mergedRuns gs).map (List.map Shard.bare)).Perm
      ((c.mergedRuns hs).map (List.map Shard.bare)) := by
    rw [bare_mergedRuns, bare_mergedRuns]
    exact hall.filter _
  refine ⟨?_, ?_, ?_, ?_⟩
  · have hsets : ∀ {groups : List Group} {plan : CompactionPlan},
        List.Forall₂ (fun run set => OrganizationSet.ofShards table run 0 = .ok set)
          (c.mergedRuns groups) plan.sets →
        ((c.mergedRuns groups).map (List.map Shard.bare)).map
          (OrganizationSet.ofShards table · 0) = plan.sets.map .ok := by
      intro groups plan hf
      rw [List.map_map]
      refine Checked.map_eq_map_of_forall₂ hf fun run set hset => ?_
      rw [Function.comp_apply, OrganizationSet.ofShards_bare, hset]
    have hperm := hmerged.map (OrganizationSet.ofShards table · 0)
    rw [hsets hpsets, hsets hqsets] at hperm
    exact (List.map_perm_map_iff fun _ _ => Except.ok.inj).mp hperm
  · rw [hpstats, hqstats, stats_candidates, stats_candidates, ← flatten_allRuns,
      ← flatten_allRuns, ← length_flatten_bare, hall.flatten.length_eq, length_flatten_bare]
  · have hlen := hmerged.flatten.length_eq
    rw [length_flatten_bare, length_flatten_bare] at hlen
    rw [hpstats, hqstats]
    exact hlen
  · have hcount := hall.countP_eq fun run => run.length = 1
    simp only [List.countP_map, Function.comp_def, List.length_map] at hcount
    rw [hpstats, hqstats]
    exact hcount

/-- Candidates of the same keys and loads as in the first list. In the second one a delete-delta
shard, a shard that is adequate, other ranges of the same day and another order of the keys do not
matter. -/
def woven : List Shard := Shard.interleaved ++ [.dated 6 2 (some 8)]

def rewoven : List Shard :=
  [.dated 4 2 (some 8), { Shard.dated 9 1 (some 8) with isDelta := true }, .dated 2 2 (some 9),
    { Shard.dated 1 1 none with
      temporalRange := some ⟨⟨[.date], [.integer 7]⟩, ⟨[.date], [.integer 9]⟩⟩ },
    { Shard.dated 8 1 (some 8) with rows := 100 }, .dated 6 2 (some 8), .dated 5 1 (some 8)]

theorem plan_sets_perm_of_woven :
    ∃ p q, (⟨.utc, 100, 100⟩ : Compactor).plan .daily woven = .ok p ∧
      (⟨.utc, 100, 100⟩ : Compactor).plan .daily rewoven = .ok q ∧
      (∀ key, List.Forall₂ Shard.SameLoad
        ((⟨.utc, 100, 100⟩ : Compactor).candidatesOf .daily key woven)
        ((⟨.utc, 100, 100⟩ : Compactor).candidatesOf .daily key rewoven)) ∧
      p.sets.length = 2 ∧ p.sets.Perm q.sets ∧ p.stats.candidates = q.stats.candidates ∧
      p.stats.planned = q.stats.planned ∧ p.stats.singletons = q.stats.singletons := by
  obtain ⟨p, hp⟩ := Checked.exists_ok_of_isSome
    (x := (⟨.utc, 100, 100⟩ : Compactor).plan .daily woven) (by decide)
  obtain ⟨q, hq⟩ := Checked.exists_ok_of_isSome
    (x := (⟨.utc, 100, 100⟩ : Compactor).plan .daily rewoven) (by decide)
  have hload : ∀ key, List.Forall₂ Shard.SameLoad
      ((⟨.utc, 100, 100⟩ : Compactor).candidatesOf .daily key woven)
      ((⟨.utc, 100, 100⟩ : Compactor).candidatesOf .daily key rewoven) := by
    have hmet : (Table.daily.keys .utc woven ++ Table.daily.keys .utc rewoven).all fun key =>
        List.Forall₂ Shard.SameLoad
          ((⟨.utc, 100, 100⟩ : Compactor).candidatesOf .daily key woven)
          ((⟨.utc, 100, 100⟩ : Compactor).candidatesOf .daily key rewoven) := by decide
    intro key
    by_cases hkey : key ∈ Table.daily.keys .utc woven ++ Table.daily.keys .utc rewoven
    case pos => exact of_decide_eq_true (List.all_eq_true.mp hmet key hkey)
    rw [List.mem_append, not_or] at hkey
    have hwoven : (⟨.utc, 100, 100⟩ : Compactor).candidatesOf .daily key woven = [] :=
      candidatesOf_eq_nil hkey.1
    have hrewoven : (⟨.utc, 100, 100⟩ : Compactor).candidatesOf .daily key rewoven = [] :=
      candidatesOf_eq_nil hkey.2
    rw [hwoven, hrewoven]
    exact .nil
  have htwo : ((⟨.utc, 100, 100⟩ : Compactor).plan .daily woven).toOption.map
      (·.sets.length) = some 2 := by decide
  rw [hp] at htwo
  exact ⟨p, q, hp, hq, hload, Option.some.inj htwo, plan_sets_perm hp hq hload⟩

end Compactor

end ShardCompaction
