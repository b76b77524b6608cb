import ShardCompaction.Proofs.Partition

namespace ShardCompaction

section FirstMet

variable {α κ : Type} [DecidableEq κ]

/-- The values of a partial function on a list, each where it is first met. -/
def firstMet (f : α → Option κ) (xs : List α) : List κ := (xs.filterMap f).eraseDups

theorem mem_firstMet {f : α → Option κ} {xs : List α} {a : κ} :
    a ∈ firstMet f xs ↔ ∃ x ∈ xs, f x = some a := by
  rw [firstMet, List.mem_eraseDups, List.mem_filterMap]

theorem nodup_firstMet (f : α → Option κ) (xs : List α) : (firstMet f xs).Nodup :=
  nodup_eraseDups _

theorem groupByKey_eq_firstMet {code : κ → Int} (inj : ∀ {a b}, code a = code b → a = b)
    (key : α → Option κ) (xs : List α) :
    groupByKey code (xs.filterMap fun x => (key x).map fun k => (k, x)) =
      (firstMet key xs).map fun k => (k, xs.filter fun x => key x = some k) := by
  have hkeys : (xs.filterMap fun x => (key x).map fun k => (k, x)).map Prod.fst =
      xs.filterMap key := by
    rw [List.map_filterMap]
    refine List.filterMap_congr fun x _ => ?_
    cases key x <;> rfl
  have hitems : ∀ k, itemsOf k (xs.filterMap fun x => (key x).map fun k => (k, x)) =
      xs.filter fun x => key x = some k := by
    intro k
    rw [itemsOf, List.filter_filterMap, List.map_filterMap, ← List.filterMap_eq_filter]
    refine List.filterMap_congr fun x _ => ?_
    cases hk : key x with
    | none => simp [Option.guard, hk]
    | some k' => by_cases h : k' = k <;> simp [Option.guard, Option.filter, hk, h]
  rw [groupByKey_eq inj, hkeys]
  exact List.map_congr_left fun k _ => by rw [hitems]

end FirstMet

/-- A day and a bucket, each absent where the table is not partitioned by it. -/
abbrev Group.Key := Option Int64 × Option UInt32

def Group.key (g : Group) : Group.Key := (g.day, g.bucket)

namespace Table

variable {table : Table} {zone : ZoneOffset} {shards : List Shard}

/-- The key of a shard that is put into a group: its day and its bucket. -/
def key? (table : Table) (zone : ZoneOffset) (s : Shard) : Option Group.Key :=
  if table.keeps s then (table.dayKey zone s).toOption.map fun day => (day, table.bucketKey s)
  else none

theorem key?_eq_some_iff {s : Shard} {key : Group.Key} :
    table.key? zone s = some key ↔
      table.keeps s = true ∧ table.dayKey zone s = .ok key.1 ∧ table.bucketKey s = key.2 := by
  obtain ⟨day, bucket⟩ := key
  cases hd : table.dayKey zone s <;> simp [key?, hd, Except.toOption]

/-- The day of a shard that is put into a group. -/
def dayOf? (table : Table) (zone : ZoneOffset) (s : Shard) : Option (Option Int64) :=
  (table.key? zone s).map Prod.fst

/-- The bucket of a shard, if the shard is of the day. -/
def bucketOn? (table : Table) (zone : ZoneOffset) (day : Option Int64) (s : Shard) :
    Option (Option UInt32) :=
  if table.dayOf? zone s = some day then some (table.bucketKey s) else none

/-- The keys of shards: days as they are first met and, within a day, buckets likewise. -/
def keys (table : Table) (zone : ZoneOffset) (shards : List Shard) : List Group.Key :=
  (firstMet (table.dayOf? zone) shards).flatMap fun day =>
    (firstMet (table.bucketOn? zone day) shards).map fun bucket => (day, bucket)

/-- The shards of one key as a group. -/
def groupOf (table : Table) (zone : ZoneOffset) (shards : List Shard) (key : Group.Key) : Group :=
  ⟨key.1, key.2, shards.filter fun s => table.key? zone s = some key⟩

theorem key?_eq_some_iff_of_day {s : Shard} {key : Group.Key} :
    table.key? zone s = some key ↔
      table.dayOf? zone s = some key.1 ∧ table.bucketKey s = key.2 := by
  rw [dayOf?, Option.map_eq_some_iff]
  constructor
  · intro h
    exact ⟨⟨key, h, rfl⟩, (key?_eq_some_iff.mp h).2.2⟩
  · intro h
    obtain ⟨⟨key', hk, hd⟩, hb⟩ := h
    have hb' := (key?_eq_some_iff.mp hk).2.2
    rw [hk, Prod.ext hd (hb'.symm.trans hb)]

theorem bucketOn?_eq_some_iff {day : Option Int64} {s : Shard} {bucket : Option UInt32} :
    table.bucketOn? zone day s = some bucket ↔ table.key? zone s = some (day, bucket) := by
  rw [key?_eq_some_iff_of_day, bucketOn?]
  by_cases hd : table.dayOf? zone s = some day <;> simp [hd]

theorem mem_keys {key : Group.Key} :
    key ∈ table.keys zone shards ↔ ∃ s ∈ shards, table.key? zone s = some key := by
  obtain ⟨day, bucket⟩ := key
  simp only [keys, List.mem_flatMap, List.mem_map, mem_firstMet, Prod.mk.injEq,
    bucketOn?_eq_some_iff]
  constructor
  · intro h
    obtain ⟨_, -, _, ⟨s, hs, hk⟩, rfl, rfl⟩ := h
    exact ⟨s, hs, hk⟩
  · intro h
    obtain ⟨s, hs, hk⟩ := h
    exact ⟨day, ⟨s, hs, (key?_eq_some_iff_of_day.mp hk).1⟩, bucket, ⟨s, hs, hk⟩, rfl, rfl⟩

theorem nodup_keys (table : Table) (zone : ZoneOffset) (shards : List Shard) :
    (table.keys zone shards).Nodup := by
  rw [keys, List.nodup_flatMap]
  constructor
  · intro day _
    exact (nodup_firstMet _ _).map fun a b h => (Prod.mk.inj h).2
  · refine (nodup_firstMet _ _).imp ?_
    intro a b hne key ha hb
    obtain ⟨_, -, rfl⟩ := List.mem_map.mp ha
    obtain ⟨_, -, he⟩ := List.mem_map.mp hb
    exact hne (Prod.mk.inj he).1.symm

theorem dated_eq_filterMap {dated : List (Option Int64 × Shard)}
    (h : table.dated zone shards = .ok dated) :
    dated = shards.filterMap fun s => (table.dayOf? zone s).map fun day => (day, s) := by
  obtain ⟨hkept, hdays⟩ := dated_eq_ok h
  have hkey : (shards.filterMap fun s => (table.dayOf? zone s).map fun day => (day, s)) =
      (shards.filter table.keeps).filterMap fun s =>
        (table.dayKey zone s).toOption.map fun day => (day, s) := by
    rw [List.filterMap_filter]
    refine List.filterMap_congr fun s _ => ?_
    by_cases hs : table.keeps s = true <;> simp [dayOf?, key?, hs, Function.comp_def]
  have hentry : ∀ e ∈ dated,
      (table.dayKey zone e.2).toOption.map (fun day => (day, e.2)) = some e := by
    intro e he
    rw [hdays e he]
    rfl
  rw [hkey, ← hkept, List.filterMap_map]
  calc
    dated = dated.filterMap some := List.filterMap_some.symm
    _ = _ := List.filterMap_congr fun e he => (hentry e he).symm

theorem buckets_of_day (day : Option Int64) (shards : List Shard) :
    (groupByKey bucketCode ((shards.filter fun s => table.dayOf? zone s = some day).map
        fun s => (table.bucketKey s, s))).map (fun g => (⟨day, g.1, g.2⟩ : Group)) =
      (firstMet (table.bucketOn? zone day) shards).map fun bucket =>
        table.groupOf zone shards (day, bucket) := by
  have hkeyed : ((shards.filter fun s => table.dayOf? zone s = some day).map
      fun s => (table.bucketKey s, s)) =
        shards.filterMap fun s => (table.bucketOn? zone day s).map fun b => (b, s) := by
    rw [← List.filterMap_eq_filter, List.map_filterMap]
    refine List.filterMap_congr fun s _ => ?_
    by_cases hd : table.dayOf? zone s = some day <;> simp [bucketOn?, Option.guard, hd]
  rw [hkeyed, groupByKey_eq_firstMet bucketCode_inj, List.map_map]
  simp only [Function.comp_def, groupOf, bucketOn?_eq_some_iff]

/-- A partition that succeeds has one group for each key. -/
theorem partition_eq_groups {groups : List Group} (h : table.partition zone shards = .ok groups) :
    groups = (table.keys zone shards).map (table.groupOf zone shards) := by
  obtain ⟨dated, hd, he⟩ := Checked.bind_eq_ok_iff.mp h
  obtain rfl := Except.ok.inj he
  rw [dated_eq_filterMap hd, groupByKey_eq_firstMet dayCode_inj, List.flatMap_map, keys,
    List.map_flatMap]
  apply List.flatMap_congr
  intro day _
  rw [List.map_map]
  exact buckets_of_day day shards

end Table

end ShardCompaction
