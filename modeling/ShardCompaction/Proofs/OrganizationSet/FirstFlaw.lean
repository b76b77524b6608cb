import Mathlib.Order.Bounds.Basic
import ShardCompaction.Proofs.Compaction.Plan

namespace ShardCompaction.OrganizationSet

section Adding

variable {table : Int64} {bucket : Option UInt32} {members : MemberMap} {s : Shard} {d : Defect}

/-- A shard that cannot be added to some members, and what is reported: a foreign bucket number
before a repeated identifier. -/
def Refused (table : Int64) (bucket : Option UInt32) (members : MemberMap) (s : Shard)
    (d : Defect) : Prop :=
  s.bucket ≠ bucket ∧ d = .mixedBuckets table bucket s.bucket ∨
    s.bucket = bucket ∧ s.uuid ∈ members ∧ d = .repeatedShard s.uuid

theorem addShards_cons_of_refused (h : Refused table bucket members s d) (later : List Shard) :
    addShards table bucket members (s :: later) = .error d := by
  rw [addShards]
  rcases h with ⟨hb, rfl⟩ | ⟨hb, hu, rfl⟩
  · rw [if_pos hb]
  · rw [if_neg (not_not_intro hb), if_pos (Std.TreeMap.contains_iff_mem.mpr hu)]

theorem addShards_cons_of_fits (hb : s.bucket = bucket) (hu : s.uuid ∉ members)
    (later : List Shard) :
    addShards table bucket members (s :: later) =
      addShards table bucket (members.insert s.uuid s.delta) later := by
  have hc : ¬members.contains s.uuid = true := fun h => hu (Std.TreeMap.contains_iff_mem.mp h)
  rw [addShards, if_neg (not_not_intro hb), if_neg hc]

theorem addShards_append (table : Int64) (bucket : Option UInt32) (members : MemberMap)
    (xs ys : List Shard) :
    addShards table bucket members (xs ++ ys) =
      addShards table bucket members xs >>= (addShards table bucket · ys) := by
  induction xs generalizing members with
  | nil => rfl
  | cons s xs ih =>
    rw [List.cons_append, addShards, addShards]
    split
    · rfl
    · split
      · rfl
      · exact ih _

/-- Adding stops at the first shard that is refused by the members before it. -/
theorem addShards_eq_error_iff {shards : List Shard} :
    addShards table bucket members shards = .error d ↔
      ∃ earlier s later joined, shards = earlier ++ s :: later ∧
        addShards table bucket members earlier = .ok joined ∧ Refused table bucket joined s d := by
  constructor
  · intro h
    induction shards generalizing members with
    | nil => simp [addShards] at h
    | cons s shards ih =>
      by_cases hb : s.bucket = bucket
      case neg =>
        have hrefused : Refused table bucket members s (.mixedBuckets table bucket s.bucket) :=
          .inl ⟨hb, rfl⟩
        obtain rfl := Except.error.inj ((addShards_cons_of_refused hrefused shards).symm.trans h)
        exact ⟨[], s, shards, members, rfl, rfl, hrefused⟩
      by_cases hu : s.uuid ∈ members
      case pos =>
        have hrefused : Refused table bucket members s (.repeatedShard s.uuid) :=
          .inr ⟨hb, hu, rfl⟩
        obtain rfl := Except.error.inj ((addShards_cons_of_refused hrefused shards).symm.trans h)
        exact ⟨[], s, shards, members, rfl, rfl, hrefused⟩
      rw [addShards_cons_of_fits hb hu] at h
      obtain ⟨earlier, t, later, joined, rfl, hjoined, hrefused⟩ := ih h
      rw [← addShards_cons_of_fits hb hu] at hjoined
      exact ⟨s :: earlier, t, later, joined, rfl, hjoined, hrefused⟩
  · intro h
    obtain ⟨earlier, s, later, joined, rfl, hjoined, hrefused⟩ := h
    rw [addShards_append, hjoined]
    exact addShards_cons_of_refused hrefused later

end Adding

variable {table : Table} {shards others : List Shard} {priority : Int32} {set : OrganizationSet}
  {d : Defect}

/-- The shard at a position has a bucket number unlike that of the first shard. -/
def Strays (shards : List Shard) (i : Nat) : Prop :=
  ∃ first ∈ shards.head?, ∃ s ∈ shards[i]?, s.bucket ≠ first.bucket

/-- The shard at a position has the identifier of an earlier shard. -/
def Repeats (shards : List Shard) (i : Nat) : Prop :=
  ∃ s ∈ shards[i]?, s.uuid ∈ (shards.take i).map Shard.uuid

/-- The first position whose shard keeps a list from being a set, and what is reported of it. If it
strays and repeats, it is reported for its bucket number. -/
structure FirstFlaw (table : Table) (shards : List Shard) (i : Nat) (d : Defect) : Prop where
  least : IsLeast {i | Strays shards i ∨ Repeats shards i} i
  reported : ∃ first ∈ shards.head?, ∃ s ∈ shards[i]?,
    d = if s.bucket ≠ first.bucket then .mixedBuckets table.id first.bucket s.bucket
      else .repeatedShard s.uuid

theorem not_repeats_of_nodup (hnd : (shards.map Shard.uuid).Nodup) (i : Nat) :
    ¬Repeats shards i := by
  intro h
  obtain ⟨s, hs, hmem⟩ := h
  have hat : (shards.drop i)[0]? = some s := by rw [List.getElem?_drop, Nat.add_zero, hs]
  have hlate : s.uuid ∈ (shards.drop i).map Shard.uuid :=
    List.mem_map_of_mem (List.mem_of_getElem? hat)
  rw [← List.take_append_drop i shards, List.map_append, List.nodup_append] at hnd
  exact hnd.2.2 _ hmem _ hlate rfl

/-- A shard that does not fit to those before it is the first flaw, if those fit together. -/
theorem isLeast_length {first s : Shard} {earlier later : List Shard}
    (hhead : (earlier ++ s :: later).head? = some first)
    (hbucket : ∀ t ∈ earlier, t.bucket = first.bucket) (hnd : (earlier.map Shard.uuid).Nodup)
    (hflaw : s.bucket ≠ first.bucket ∨ s.uuid ∈ earlier.map Shard.uuid) :
    IsLeast {i | Strays (earlier ++ s :: later) i ∨ Repeats (earlier ++ s :: later) i}
      earlier.length := by
  have hat : (earlier ++ s :: later)[earlier.length]? = some s := by simp
  constructor
  · rcases hflaw with hb | hu
    · exact .inl ⟨first, hhead, s, hat, hb⟩
    · exact .inr ⟨s, hat, by rwa [List.take_left]⟩
  · intro j hj
    by_contra hlt
    have hlt : j < earlier.length := by omega
    have hget : (earlier ++ s :: later)[j]? = earlier[j]? := List.getElem?_append_left hlt
    rcases hj with ⟨f, hf, t, ht, hne⟩ | ⟨t, ht, hmem⟩
    · obtain rfl := Option.some.inj (hhead.symm.trans hf)
      exact hne (hbucket t (List.mem_of_getElem? (hget.symm.trans ht)))
    · rw [List.take_append_of_le_length (Nat.le_of_lt hlt)] at hmem
      exact not_repeats_of_nodup hnd j ⟨t, hget.symm.trans ht, hmem⟩

theorem exists_firstFlaw (hne : shards ≠ []) (h : ofShards table shards priority = .error d) :
    ∃ i, FirstFlaw table shards i d := by
  cases shards with
  | nil => exact absurd rfl hne
  | cons first rest =>
    rcases Checked.bind_eq_error_iff.mp h with hadd | ⟨_, -, hpure⟩
    case inr => simp [pure, Except.pure] at hpure
    obtain ⟨earlier, s, later, joined, hshards, hjoined, hrefused⟩ :=
      addShards_eq_error_iff.mp hadd
    obtain ⟨⟨hbucket, -, hnd⟩, rfl⟩ := (addShards_eq_ok_iff _ _ _ _ _).mp hjoined
    have hhead : (earlier ++ s :: later).head? = some first := by rw [← hshards]; rfl
    have hat : (earlier ++ s :: later)[earlier.length]? = some s := by simp
    rw [hshards]
    rcases hrefused with ⟨hb, rfl⟩ | ⟨hb, hu, rfl⟩
    · exact ⟨earlier.length, isLeast_length hhead hbucket hnd (.inl hb),
        first, hhead, s, hat, (if_pos hb).symm⟩
    · have hrepeats : s.uuid ∈ earlier.map Shard.uuid := by
        rcases (FilledMap.mem_fill_iff ∅ earlier s.uuid).mp hu with hmem | hmem
        · exact hmem
        · exact absurd hmem Std.TreeMap.not_mem_emptyc
      exact ⟨earlier.length, isLeast_length hhead hbucket hnd (.inr hrepeats),
        first, hhead, s, hat, (if_neg (not_not_intro hb)).symm⟩

/-- The first flaw is all that stands against a list of shards. -/
theorem ofShards_eq_error_iff (hne : shards ≠ []) :
    ofShards table shards priority = .error d ↔ ∃ i, FirstFlaw table shards i d := by
  constructor
  · exact exists_firstFlaw hne
  · intro h
    obtain ⟨i, hleast, first, hfirst, s, hs, hd⟩ := h
    cases hset : ofShards table shards priority with
    | ok set =>
      obtain ⟨-, hbucket, hnd⟩ := (ofShards_isOk_iff table shards priority).mp ⟨set, hset⟩
      rcases hleast.1 with ⟨f, hf, t, ht, hb⟩ | hrepeats
      · exact absurd (hbucket t (List.mem_of_getElem? ht) f (List.mem_of_head? hf)) hb
      · exact absurd hrepeats (not_repeats_of_nodup hnd i)
    | error e =>
      obtain ⟨j, hj, f, hf, t, ht, he⟩ := exists_firstFlaw hne hset
      obtain rfl := hleast.unique hj
      obtain rfl := Option.some.inj (hfirst.symm.trans hf)
      obtain rfl := Option.some.inj (hs.symm.trans ht)
      rw [hd, he]

/-- The order of the shards plays no part. -/
theorem ofShards_eq_of_perm (hperm : others.Perm shards)
    (h : ofShards table shards priority = .ok set) : ofShards table others priority = .ok set := by
  obtain ⟨hne, hbucket, hnd⟩ := (ofShards_isOk_iff table shards priority).mp ⟨set, h⟩
  obtain ⟨other, hother⟩ := (ofShards_isOk_iff table others priority).mpr
    ⟨fun he => hne (List.Perm.eq_nil (he ▸ hperm.symm)),
      fun a ha b hb => hbucket a (hperm.subset ha) b (hperm.subset hb),
      (hperm.map Shard.uuid).nodup_iff.mpr hnd⟩
  have hm := merges_of_ofShards h
  have ho := merges_of_ofShards hother
  obtain ⟨s, hs⟩ := List.exists_mem_of_ne_nil _ hne
  have hmembers : other.members = set.members :=
    Members.eq_of_perm (ho.entries.trans ((hperm.map Shard.entry).trans hm.entries.symm))
  have hsame : other = set := by
    obtain ⟨_, _, _, _, _⟩ := other
    obtain ⟨_, _, _, _, _⟩ := set
    simp only [mk.injEq]
    exact ⟨ho.sameTable.trans hm.sameTable.symm, ho.deltaDelete.trans hm.deltaDelete.symm,
      hmembers, (ho.bucket s (hperm.symm.subset hs)).symm.trans (hm.bucket s hs),
      ho.samePriority.trans hm.samePriority.symm⟩
  rw [hother, hsame]

/-- Shards make a set exactly if there are any, they share their bucket number and no two of them
have the same identifier. The set then has one entry for each shard, in ascending order of the
identifiers, and it does not depend on the order of the shards. If some shards make no set, the
first flaw among them is reported. -/
theorem ofShards_merges_or_reports_first_flaw (table : Table) (shards : List Shard)
    (priority : Int32) :
    ((∃ set, ofShards table shards priority = .ok set) ↔
      shards ≠ [] ∧ (∀ a ∈ shards, ∀ b ∈ shards, a.bucket = b.bucket) ∧
        (shards.map Shard.uuid).Nodup) ∧
    (∀ set, ofShards table shards priority = .ok set →
      set.Merges table shards priority ∧ set.size = shards.length ∧
      set.members.uuids.Pairwise (· < ·) ∧
      ∀ others, others.Perm shards → ofShards table others priority = .ok set) ∧
    ∀ d, shards ≠ [] →
      (ofShards table shards priority = .error d ↔ ∃ i, FirstFlaw table shards i d) := by
  refine ⟨ofShards_isOk_iff table shards priority, fun set h => ?_, fun d hne => ?_⟩
  · have hm := merges_of_ofShards h
    exact ⟨hm, hm.size_eq, List.pairwise_map.mpr set.members.ascending,
      fun others hperm => ofShards_eq_of_perm hperm h⟩
  · exact ofShards_eq_error_iff hne

/-- The third shard has the identifier of the first one, and a bucket number of its own. -/
def clashingShards : List Shard :=
  [.plain 1 10 10, .plain 2 10 10, { Shard.plain 1 10 10 with bucket := some 7 }, .plain 2 10 10]

theorem ofShards_merges_or_reports_first_flaw_of_clashing :
    (∃ i, FirstFlaw (.plain 1) clashingShards i (.mixedBuckets 1 none (some 7))) ∧
      ∃ set, ofShards (.plain 1) (clashingShards.take 2) 0 = .ok set ∧ set.size = 2 ∧
        ofShards (.plain 1) (clashingShards.take 2).reverse 0 = .ok set := by
  obtain ⟨-, -, hflaw⟩ := ofShards_merges_or_reports_first_flaw (.plain 1) clashingShards 0
  obtain ⟨hiff, hok, -⟩ :=
    ofShards_merges_or_reports_first_flaw (.plain 1) (clashingShards.take 2) 0
  obtain ⟨set, hset⟩ := hiff.mpr (by decide)
  obtain ⟨-, hsize, -, hperm⟩ := hok set hset
  exact ⟨(hflaw _ (by decide)).mp (by decide), set, hset, hsize,
    hperm _ (List.reverse_perm _)⟩

end ShardCompaction.OrganizationSet
