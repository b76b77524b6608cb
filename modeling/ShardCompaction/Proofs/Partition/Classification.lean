import Mathlib.Data.List.Perm.Basic
import ShardCompaction.Proofs.Partition.Keys

namespace ShardCompaction

namespace Table

variable {table : Table} {zone : ZoneOffset} {shards : List Shard}

/-- The key of the shard at a place in a list. -/
def keyAt? (table : Table) (zone : ZoneOffset) (shards : List Shard) (i : Nat) :
    Option Group.Key :=
  shards[i]?.bind (table.key? zone)

/-- The place where the day of a group is first met. -/
def dayPlace (table : Table) (zone : ZoneOffset) (shards : List Shard) (g : Group) : Nat :=
  shards.findIdx fun s => table.dayOf? zone s = some g.day

/-- The place where the bucket of a group is first met on its day. -/
def firstPlace (table : Table) (zone : ZoneOffset) (shards : List Shard) (g : Group) : Nat :=
  shards.findIdx fun s => table.key? zone s = some g.key

/-- Groups order by their days and, within a day, by their buckets, as these are first met. -/
def Before (table : Table) (zone : ZoneOffset) (shards : List Shard) (a b : Group) : Prop :=
  table.dayPlace zone shards a < table.dayPlace zone shards b ∨
    a.day = b.day ∧ table.firstPlace zone shards a < table.firstPlace zone shards b

theorem Before.asymm {a b : Group} (h : table.Before zone shards a b) :
    ¬table.Before zone shards b a := by
  have hplace : a.day = b.day → table.dayPlace zone shards a = table.dayPlace zone shards b := by
    intro hd
    rw [dayPlace, dayPlace, hd]
  intro hb
  rcases h with hlt | ⟨hd, hlt⟩
  · rcases hb with hlt' | ⟨hd', -⟩
    · omega
    · have he := hplace hd'.symm
      omega
  · have he := hplace hd
    rcases hb with hlt' | ⟨-, hlt'⟩
    · omega
    · omega

/-- The places of the members of a group in the list of shards. -/
structure LiesAt (table : Table) (zone : ZoneOffset) (shards : List Shard) (g : Group)
    (places : List Nat) : Prop where
  members : g.shards.map some = places.map fun i => shards[i]?
  nonempty : places ≠ []
  ascending : places.Pairwise (· < ·)
  label : ∀ i ∈ places, table.keyAt? zone shards i = some g.key

/-- Groups that are the classes of shards by key, with the places of their members. -/
structure Classifies (table : Table) (zone : ZoneOffset) (shards : List Shard)
    (groups : List Group) (places : List (List Nat)) : Prop where
  members : List.Forall₂ (table.LiesAt zone shards) groups places
  /-- Each kept shard has its place in one group, once, and there are no other places. -/
  once : places.flatten.Perm
    ((List.range shards.length).filter fun i => shards[i]?.any table.keeps)
  /-- Two shards are in one group exactly if they have the same key. -/
  together : ∀ ps ∈ places, ∀ i ∈ ps, ∀ j,
    j ∈ ps ↔ table.keyAt? zone shards j = table.keyAt? zone shards i
  distinct : (groups.map Group.key).Nodup
  ordered : groups.Pairwise (table.Before zone shards)

namespace Classifies

variable {groups others : List Group} {places otherPlaces : List (List Nat)}

/-- A group of one classification is a group of any other. -/
theorem mem_of_mem (h : table.Classifies zone shards groups places)
    (ho : table.Classifies zone shards others otherPlaces) {g : Group} (hg : g ∈ groups) :
    g ∈ others := by
  obtain ⟨ps, hps, hlies⟩ := Checked.exists_of_mem_left h.members hg
  obtain ⟨i, hi⟩ := List.exists_mem_of_ne_nil ps hlies.nonempty
  -- The other classification has the place of some member, too.
  have hflat : i ∈ otherPlaces.flatten :=
    (h.once.trans ho.once.symm).subset (List.mem_flatten.mpr ⟨ps, hps, hi⟩)
  obtain ⟨qs, hqs, hiq⟩ := List.mem_flatten.mp hflat
  obtain ⟨o, hom, holies⟩ := Checked.exists_of_mem_right ho.members hqs
  have hplaces : ps = qs := by
    have hsame : ∀ j, j ∈ ps ↔ j ∈ qs := by
      intro j
      rw [h.together ps hps i hi, ho.together qs hqs i hiq]
    have hperm : ps.Perm qs :=
      (List.perm_ext_iff_of_nodup (hlies.ascending.imp Nat.ne_of_lt)
        (holies.ascending.imp Nat.ne_of_lt)).mpr hsame
    refine hperm.eq_of_pairwise ?_ hlies.ascending holies.ascending
    intro a b _ _ hlt hgt
    omega
  have hkey : g.key = o.key :=
    Option.some.inj ((hlies.label i hi).symm.trans (holies.label i hiq))
  have hshards : g.shards.map some = o.shards.map some := by
    rw [hlies.members, holies.members, hplaces]
  have hgo : g = o := by
    obtain ⟨hday, hbucket⟩ := Prod.mk.inj hkey
    have hs := List.map_injective_iff.mpr (fun _ _ => Option.some.inj) hshards
    cases g
    cases o
    simp_all
  rwa [hgo]

theorem eq (h : table.Classifies zone shards groups places)
    (ho : table.Classifies zone shards others otherPlaces) : groups = others := by
  have hperm : groups.Perm others := by
    refine (List.perm_ext_iff_of_nodup (.of_map _ h.distinct) (.of_map _ ho.distinct)).mpr ?_
    intro g
    exact ⟨h.mem_of_mem ho, ho.mem_of_mem h⟩
  refine hperm.eq_of_pairwise ?_ h.ordered ho.ordered
  intro a b _ _ hab hba
  exact absurd hba hab.asymm

end Classifies

end Table

/-- A shard in a bucket, with the range of one day if a day is given. -/
def Shard.dated (uuid : Nat) (bucket : UInt32) (day : Option Int64) : Shard :=
  { table := 1, bucket := some bucket, uuid := .ofNat uuid, isDelta := false, delta := none
    rows := 5, bytes := 5, sortRange := none
    temporalRange := day.map fun d => ⟨⟨[.date], [.integer d]⟩, ⟨[.date], [.integer d]⟩⟩ }

/-- A table in buckets and days. -/
def Table.daily : Table :=
  { id := 1, distributionId := none, distributionName := none, bucketCount := some 3
    temporalColumn := some 7, organized := false, supportsDeltaDelete := false }

/-- The second day is met before the second bucket of the first one, and a shard has no day. -/
def Shard.interleaved : List Shard :=
  [.dated 1 1 (some 8), .dated 2 2 (some 9), .dated 3 1 none, .dated 4 2 (some 8),
    .dated 5 1 (some 8)]

end ShardCompaction
