import ShardCompaction.OrganizationSet.Basic
import ShardCompaction.Proofs.Checked
import ShardCompaction.Proofs.FilledMap

namespace ShardCompaction

/-- Members are told apart by what they hold, since it stands in order. -/
theorem Members.eq_of_perm {a b : Members} (h : a.entries.Perm b.entries) : a = b := by
  refine Members.ext (h.eq_of_pairwise ?_ a.ascending b.ascending)
  intro x y _ _ hxy hyx
  exact absurd hyx (Nat.lt_asymm hxy)

theorem Members.nodup_uuids (m : Members) : m.uuids.Nodup := by
  refine List.pairwise_map.mpr (m.ascending.imp fun {a b} hlt he => ?_)
  rw [he] at hlt
  exact Nat.lt_irrefl _ hlt

/-- The entry of a shard in a set: its identifier and its delete-delta shard. -/
def Shard.entry (s : Shard) : Uuid × Option Uuid := (s.uuid, s.delta)

namespace OrganizationSet

theorem addShards_eq_ok_iff (table : Int64) (bucket : Option UInt32) (members result : MemberMap)
    (shards : List Shard) :
    addShards table bucket members shards = .ok result ↔
      ((∀ s ∈ shards, s.bucket = bucket) ∧ (∀ s ∈ shards, s.uuid ∉ members) ∧
        (shards.map Shard.uuid).Nodup) ∧
      result = FilledMap.fill Shard.uuid Shard.delta members shards := by
  induction shards generalizing members with
  | nil => simp [addShards, eq_comm]
  | cons s shards ih =>
    rw [List.forall_mem_cons, List.forall_mem_cons, List.map_cons, List.nodup_cons, addShards]
    by_cases hb : s.bucket = bucket
    case neg => simp [hb]
    by_cases hu : s.uuid ∈ members
    case pos => simp [hb, hu, Std.TreeMap.contains_iff_mem.mpr hu]
    have hc : ¬members.contains s.uuid = true := fun h => hu (Std.TreeMap.contains_iff_mem.mp h)
    rw [if_neg (not_not_intro hb), if_neg hc, ih, FilledMap.fill_cons]
    have hfresh : (∀ t ∈ shards, t.uuid ∉ members.insert s.uuid s.delta) ↔
        s.uuid ∉ shards.map Shard.uuid ∧ ∀ t ∈ shards, t.uuid ∉ members := by
      simp only [FilledMap.mem_insert_eq, List.mem_map]
      grind
    rw [hfresh]
    tauto

/-- A set that merges shards of a table: it has one entry for each of them and their common
bucket number. -/
structure Merges (set : OrganizationSet) (table : Table) (shards : List Shard)
    (priority : Int32) : Prop where
  sameTable : set.table = table.id
  deltaDelete : set.supportsDeltaDelete = table.supportsDeltaDelete
  entries : set.members.entries.Perm (shards.map Shard.entry)
  bucket : ∀ s ∈ shards, s.bucket = set.bucket
  samePriority : set.priority = priority

theorem Merges.size_eq {set : OrganizationSet} {table : Table} {shards : List Shard}
    {priority : Int32} (h : set.Merges table shards priority) : set.size = shards.length := by
  have hl := h.entries.length_eq
  rwa [List.length_map] at hl

theorem Merges.uuids_perm {set : OrganizationSet} {table : Table} {shards : List Shard}
    {priority : Int32} (h : set.Merges table shards priority) :
    set.members.uuids.Perm (shards.map Shard.uuid) := by
  have hp := h.entries.map Prod.fst
  rwa [List.map_map] at hp

theorem Merges.nodup {set : OrganizationSet} {table : Table} {shards : List Shard}
    {priority : Int32} (h : set.Merges table shards priority) :
    (shards.map Shard.uuid).Nodup :=
  h.uuids_perm.nodup_iff.mp set.members.nodup_uuids

theorem merges_of_ofShards {set : OrganizationSet} {table : Table} {shards : List Shard}
    {priority : Int32} (h : ofShards table shards priority = .ok set) :
    set.Merges table shards priority := by
  cases shards with
  | nil => simp [ofShards] at h
  | cons first rest =>
    obtain ⟨members, hadd, he⟩ := Checked.bind_eq_ok_iff.mp h
    obtain ⟨⟨hb, hfresh, hnd⟩, rfl⟩ := (addShards_eq_ok_iff _ _ _ _ _).mp hadd
    obtain rfl := Except.ok.inj he
    have hp := FilledMap.toList_fill_perm Shard.uuid Shard.delta ∅ (first :: rest) hfresh hnd
    have hempty : (∅ : MemberMap).toList = [] := rfl
    rw [hempty, List.append_nil] at hp
    exact ⟨rfl, rfl, hp, hb, rfl⟩

/-- Shards make a set if there are any, if they share their bucket number, and if no two of them
have the same identifier. -/
theorem ofShards_isOk_iff (table : Table) (shards : List Shard) (priority : Int32) :
    (∃ set, ofShards table shards priority = .ok set) ↔
      shards ≠ [] ∧ (∀ a ∈ shards, ∀ b ∈ shards, a.bucket = b.bucket) ∧
        (shards.map Shard.uuid).Nodup := by
  cases shards with
  | nil => simp [ofShards]
  | cons first rest =>
    constructor
    · intro h
      obtain ⟨set, h⟩ := h
      have hm := merges_of_ofShards h
      exact ⟨by simp, fun a ha b hb => (hm.bucket a ha).trans (hm.bucket b hb).symm, hm.nodup⟩
    · intro h
      obtain ⟨-, hb, hnd⟩ := h
      have hadd := (addShards_eq_ok_iff table.id first.bucket ∅ _ (first :: rest)).mpr
        ⟨⟨fun s hs => hb s hs first List.mem_cons_self, by simp, hnd⟩, rfl⟩
      exact ⟨_, Checked.bind_eq_ok_iff.mpr ⟨_, hadd, rfl⟩⟩

end OrganizationSet

end ShardCompaction
