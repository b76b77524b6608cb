import Mathlib.Data.List.Nodup
import Mathlib.Data.List.Perm.Basic
import ShardCompaction.Partition
import ShardCompaction.Proofs.Checked

namespace ShardCompaction

section Grouping

variable {κ α : Type} [DecidableEq κ] {code : κ → Int}

theorem nodup_eraseDups (xs : List κ) : xs.eraseDups.Nodup := by
  induction hn : xs.length using Nat.strongRecOn generalizing xs with
  | ind n ih =>
    cases xs with
    | nil => exact List.nodup_nil
    | cons x xs =>
      have hlt : (xs.filter fun y => !y == x).length < n :=
        hn ▸ Nat.lt_succ_of_le (List.length_filter_le _ xs)
      rw [List.eraseDups_cons, List.nodup_cons]
      exact ⟨fun h => by simpa using List.mem_eraseDups.mp h, ih _ hlt _ rfl⟩

theorem mem_itemsOf {key : κ} {items : List (κ × α)} {x : α} :
    x ∈ itemsOf key items ↔ (key, x) ∈ items := by
  simp only [itemsOf, List.mem_map, List.mem_filter, decide_eq_true_eq]
  constructor
  · intro h
    obtain ⟨item, ⟨hm, rfl⟩, rfl⟩ := h
    exact hm
  · intro h
    exact ⟨(key, x), ⟨h, rfl⟩, rfl⟩

/-- Different keys take different items, so the items under several keys are counted once each. -/
theorem flatMap_itemsOf_perm {keys : List κ} (h : keys.Nodup) (items : List (κ × α)) :
    (keys.flatMap (itemsOf · items)).Perm
      ((items.filter fun item => item.1 ∈ keys).map Prod.snd) := by
  induction keys with
  | nil => simp
  | cons key keys ih =>
    obtain ⟨hk, hn⟩ := List.nodup_cons.mp h
    have hsplit := List.filter_append_perm (fun item : κ × α => decide (item.1 = key))
      (items.filter fun item => item.1 ∈ key :: keys)
    have hhead : (items.filter fun item => item.1 ∈ key :: keys).filter
        (fun item => decide (item.1 = key)) = items.filter fun item => item.1 = key := by
      rw [List.filter_filter]
      refine List.filter_congr fun item _ => ?_
      simp +contextual
    have htail : (items.filter fun item => item.1 ∈ key :: keys).filter
        (fun item => !decide (item.1 = key)) = items.filter fun item => item.1 ∈ keys := by
      rw [List.filter_filter]
      refine List.filter_congr fun item _ => ?_
      by_cases he : item.1 = key <;> simp [he, hk]
    rw [hhead, htail] at hsplit
    rw [List.flatMap_cons]
    have hp := ((ih hn).append_left (itemsOf key items)).trans
      (.of_eq (List.map_append (f := Prod.snd)).symm)
    exact hp.trans (hsplit.map Prod.snd)

theorem groupByKey_perm (inj : ∀ {a b}, code a = code b → a = b) (items : List (κ × α)) :
    ((groupByKey code items).flatMap Prod.snd).Perm (items.map Prod.snd) := by
  have hall : (items.filter fun item => item.1 ∈ (items.map Prod.fst).eraseDups) = items :=
    List.filter_eq_self.mpr fun item hm => by
      simpa using ⟨item.2, hm⟩
  have hp := flatMap_itemsOf_perm (nodup_eraseDups (items.map Prod.fst)) items
  rwa [hall, ← List.flatMap_map (f := fun key => (key, itemsOf key items)) (g := Prod.snd),
    ← groupByKey_eq inj] at hp

theorem mem_groupByKey (inj : ∀ {a b}, code a = code b → a = b) {items : List (κ × α)}
    {group : κ × List α} (h : group ∈ groupByKey code items) :
    group.2 = itemsOf group.1 items ∧ group.2 ≠ [] := by
  rw [groupByKey_eq inj, List.mem_map] at h
  obtain ⟨key, hkey, rfl⟩ := h
  obtain ⟨item, hitem, rfl⟩ := List.mem_map.mp (List.mem_eraseDups.mp hkey)
  exact ⟨rfl, List.ne_nil_of_mem (mem_itemsOf.mpr hitem)⟩

omit [DecidableEq κ] in
/-- What belongs to one key, if the items of no other key pass the test for it. -/
theorem filter_flatMap_of_nodup {keys : List κ} {f : κ → List α} {p : α → Bool} {key : κ}
    (hnd : keys.Nodup) (hown : ∀ x ∈ f key, p x = true)
    (hothers : ∀ k ∈ keys, k ≠ key → ∀ x ∈ f k, p x = false) (habsent : key ∉ keys → f key = []) :
    (keys.flatMap f).filter p = f key := by
  have hnone : ∀ ks ⊆ keys, key ∉ ks → (ks.flatMap f).filter p = [] := by
    intro ks hks hkey
    refine List.filter_eq_nil_iff.mpr fun x hx => ?_
    obtain ⟨k, hk, hx⟩ := List.mem_flatMap.mp hx
    rw [hothers k (hks hk) (ne_of_mem_of_not_mem hk hkey) x hx]
    exact Bool.false_ne_true
  by_cases hkey : key ∈ keys
  case neg => rw [hnone keys (List.Subset.refl _) hkey, habsent hkey]
  obtain ⟨before, after, rfl⟩ := List.append_of_mem hkey
  obtain ⟨-, hafter, hdisjoint⟩ := List.nodup_append'.mp hnd
  have hbefore : key ∉ before := fun h => hdisjoint h List.mem_cons_self
  rw [List.flatMap_append, List.flatMap_cons, List.filter_append, List.filter_append,
    hnone before (List.subset_append_left ..) hbefore, List.filter_eq_self.mpr hown,
    hnone after (fun k hk => List.mem_append_right _ (List.mem_cons_of_mem _ hk))
      (List.nodup_cons.mp hafter).1, List.nil_append, List.append_nil]

end Grouping

namespace Table

/-- Whether a shard is put into a group at all. -/
def keeps (table : Table) (s : Shard) : Bool := !table.isTemporal || s.temporalRange.isSome

/-- The day that a shard is grouped by; tables that are not temporal have none. -/
def dayKey (table : Table) (zone : ZoneOffset) (s : Shard) : Except Defect (Option Int64) :=
  if table.isTemporal then
    match s.temporalRange with
    | some range => some <$> range.day zone
    | none => .ok none
  else .ok none

theorem dated_eq (table : Table) (zone : ZoneOffset) (shards : List Shard) :
    table.dated zone shards =
      (shards.filter table.keeps).mapM fun s => (·, s) <$> table.dayKey zone s := by
  by_cases ht : table.isTemporal = true
  case neg =>
    have hk : shards.filter table.keeps = shards :=
      List.filter_eq_self.mpr fun s _ => by simp [keeps, ht]
    rw [hk, dated, if_neg ht]
    simp only [dayKey, ht, Bool.false_eq_true, if_false]
    exact (List.mapM_pure (m := Except Defect)).symm
  case pos =>
    rw [dated, if_pos ht]
    induction shards with
    | nil => rfl
    | cons s shards ih =>
      cases hr : s.temporalRange with
      | none => simpa [keeps, ht, hr] using ih
      | some range =>
        have hd : table.dayKey zone s = some <$> range.day zone := by simp [dayKey, ht, hr]
        have hkeep : table.keeps s = true := by simp [keeps, hr]
        rw [List.filter_cons_of_pos hkeep, List.mapM_cons, ← ih, hd]
        simp [hr]

theorem dated_eq_ok {table : Table} {zone : ZoneOffset} {shards : List Shard}
    {dated : List (Option Int64 × Shard)} (h : table.dated zone shards = .ok dated) :
    dated.map Prod.snd = shards.filter table.keeps ∧
      ∀ e ∈ dated, table.dayKey zone e.2 = .ok e.1 := by
  rw [dated_eq] at h
  have hf := Checked.mapM_eq_ok_iff.mp h
  generalize shards.filter table.keeps = kept at hf
  clear h
  induction hf with
  | nil => simp
  | @cons s e kept dated hs _ ih =>
    obtain ⟨day, hd, he⟩ : ∃ day, table.dayKey zone s = .ok day ∧ e = (day, s) := by
      cases hd : table.dayKey zone s with
      | error d => simp [hd, Functor.map, Except.map] at hs
      | ok day => exact ⟨day, rfl, by simpa [hd, Functor.map, Except.map, eq_comm] using hs⟩
    subst he
    exact ⟨by rw [List.map_cons, ih.1], List.forall_mem_cons.mpr ⟨hd, ih.2⟩⟩

theorem dayKey_eq_error_iff {table : Table} {zone : ZoneOffset} {s : Shard} {d : Defect} :
    table.dayKey zone s = .error d ↔
      table.isTemporal = true ∧ ∃ range ∈ s.temporalRange, range.day zone = .error d := by
  by_cases ht : table.isTemporal = true
  case neg => simp [dayKey, ht]
  cases hr : s.temporalRange with
  | none => simp [dayKey, ht, hr]
  | some range => cases hd : range.day zone <;> simp [dayKey, ht, hr, hd, Functor.map, Except.map]

theorem dated_eq_error {table : Table} {zone : ZoneOffset} {shards : List Shard} {d : Defect}
    (h : table.dated zone shards = .error d) :
    ∃ s ∈ shards, table.dayKey zone s = .error d := by
  rw [dated_eq] at h
  obtain ⟨s, hs, he⟩ := Checked.mapM_eq_error h
  refine ⟨s, List.mem_of_mem_filter hs, ?_⟩
  cases hd : table.dayKey zone s with
  | error e => simpa [hd, Functor.map, Except.map] using he
  | ok day => simp [hd, Functor.map, Except.map] at he

theorem dated_isError_iff {table : Table} {zone : ZoneOffset} {shards : List Shard} :
    (∃ d, table.dated zone shards = .error d) ↔
      ∃ s ∈ shards, ∃ d, table.dayKey zone s = .error d := by
  constructor
  · intro h
    obtain ⟨d, hd⟩ := h
    obtain ⟨s, hs, he⟩ := dated_eq_error hd
    exact ⟨s, hs, d, he⟩
  · intro h
    obtain ⟨s, hs, d, he⟩ := h
    obtain ⟨-, range, hr, -⟩ := dayKey_eq_error_iff.mp he
    have hk : table.keeps s = true := by simp [keeps, Option.mem_def.mp hr]
    rw [dated_eq, Checked.mapM_isError_iff]
    exact ⟨s, List.mem_filter.mpr ⟨hs, hk⟩, d, by rw [he]; rfl⟩

theorem partition_eq_error_iff {table : Table} {zone : ZoneOffset} {shards : List Shard}
    {d : Defect} : table.partition zone shards = .error d ↔ table.dated zone shards = .error d := by
  rw [partition, Checked.bind_eq_error_iff]
  simp [pure, Except.pure]

/-- Partitioning fails exactly if the day of some range fails on a temporal table, whatever the
shard that has the range is good for. -/
theorem partition_isError_iff (table : Table) (zone : ZoneOffset) (shards : List Shard) :
    (∃ d, table.partition zone shards = .error d) ↔
      table.isTemporal = true ∧
        ∃ s ∈ shards, ∃ range ∈ s.temporalRange, ∃ d, range.day zone = .error d := by
  simp only [partition_eq_error_iff, dated_isError_iff, dayKey_eq_error_iff]
  constructor
  · intro h
    obtain ⟨s, hs, d, ht, range, hr, hd⟩ := h
    exact ⟨ht, s, hs, range, hr, d, hd⟩
  · intro h
    obtain ⟨ht, s, hs, range, hr, d, hd⟩ := h
    exact ⟨s, hs, d, ht, range, hr, hd⟩

/-- The groups of a partition hold the kept shards, each once. -/
theorem partition_perm {table : Table} {zone : ZoneOffset} {shards : List Shard}
    {groups : List Group} (h : table.partition zone shards = .ok groups) :
    (groups.flatMap Group.shards).Perm (shards.filter table.keeps) := by
  obtain ⟨dated, hd, hg⟩ := Checked.bind_eq_ok_iff.mp h
  obtain rfl := Except.ok.inj hg
  rw [← (dated_eq_ok hd).1, List.flatMap_assoc]
  refine .trans (.flatMap_left _ fun day _ => ?_) (groupByKey_perm dayCode_inj dated)
  have hp := groupByKey_perm bucketCode_inj (day.2.map fun s => (table.bucketKey s, s))
  rw [List.map_map] at hp
  simpa [List.flatMap_map, Function.comp_def] using hp

/-- The shards of a group have its day and its bucket, and there is at least one. -/
theorem group_of_partition {table : Table} {zone : ZoneOffset} {shards : List Shard}
    {groups : List Group} (h : table.partition zone shards = .ok groups) {g : Group}
    (hg : g ∈ groups) :
    g.shards ≠ [] ∧
      ∀ s ∈ g.shards, table.dayKey zone s = .ok g.day ∧ table.bucketKey s = g.bucket := by
  obtain ⟨dated, hd, he⟩ := Checked.bind_eq_ok_iff.mp h
  obtain rfl := Except.ok.inj he
  obtain ⟨⟨day, members⟩, hday, hmem⟩ := List.mem_flatMap.mp hg
  obtain ⟨⟨bucket, group⟩, hbucket, rfl⟩ := List.mem_map.mp hmem
  obtain ⟨hm, -⟩ := mem_groupByKey dayCode_inj hday
  obtain ⟨hb, hne⟩ := mem_groupByKey bucketCode_inj hbucket
  refine ⟨hne, fun s hs => ?_⟩
  dsimp only at hm hb hs ⊢
  rw [hb, mem_itemsOf, List.mem_map] at hs
  obtain ⟨s', hs', he⟩ := hs
  obtain ⟨hkey, rfl⟩ := Prod.mk.inj he
  rw [hm, mem_itemsOf] at hs'
  exact ⟨(dated_eq_ok hd).2 _ hs', hkey⟩

end Table

end ShardCompaction
