import Mathlib.Data.List.Nodup
import Mathlib.Data.List.Perm.Basic
import Std.Data.TreeMap

namespace ShardCompaction.FilledMap

open Std

variable {α κ β : Type} {cmp : κ → κ → Ordering} {key : α → κ} {value : α → β}

/-- Puts items into a map under their keys. -/
def fill (key : α → κ) (value : α → β) (m : TreeMap κ β cmp) (items : List α) : TreeMap κ β cmp :=
  items.foldl (fun m x => m.insert (key x) (value x)) m

@[simp] theorem fill_nil (m : TreeMap κ β cmp) : fill key value m [] = m := rfl

@[simp] theorem fill_cons (m : TreeMap κ β cmp) (x : α) (items : List α) :
    fill key value m (x :: items) = fill key value (m.insert (key x) (value x)) items := rfl

theorem values_eq_map_toList (m : TreeMap κ β cmp) : m.values = m.toList.map Prod.snd := by
  change m.foldr (fun _ v vs => v :: vs) [] = _
  rw [TreeMap.foldr_eq_foldr_toList]
  induction m.toList with
  | nil => rfl
  | cons e entries ih => rw [List.foldr_cons, List.map_cons, ih]

variable [TransCmp cmp] [LawfulEqCmp cmp]

theorem mem_insert_eq (m : TreeMap κ β cmp) (k a : κ) (v : β) :
    a ∈ m.insert k v ↔ k = a ∨ a ∈ m := by
  simp only [TreeMap.mem_insert, LawfulEqCmp.compare_eq_iff_eq]

theorem mem_fill_iff (m : TreeMap κ β cmp) (items : List α) (a : κ) :
    a ∈ fill key value m items ↔ a ∈ items.map key ∨ a ∈ m := by
  induction items generalizing m with
  | nil => simp
  | cons x items ih => rw [fill_cons, ih, mem_insert_eq, List.map_cons, List.mem_cons]; tauto

theorem mem_values_iff {m : TreeMap κ β cmp} {v : β} : v ∈ m.values ↔ ∃ k : κ, m[k]? = some v := by
  rw [values_eq_map_toList, List.mem_map]
  constructor
  · intro h
    obtain ⟨e, he, rfl⟩ := h
    exact ⟨e.1, TreeMap.mem_toList_iff_getElem?_eq_some.mp he⟩
  · intro h
    obtain ⟨k, hk⟩ := h
    exact ⟨(k, v), TreeMap.mem_toList_iff_getElem?_eq_some.mpr hk, rfl⟩

variable [DecidableEq κ]

theorem getElem?_insert_eq (m : TreeMap κ β cmp) (k a : κ) (v : β) :
    (m.insert k v)[a]? = if k = a then some v else m[a]? := by
  simp only [TreeMap.getElem?_insert, LawfulEqCmp.compare_eq_iff_eq]

theorem getElem?_fill (m : TreeMap κ β cmp) (items : List α) (a : κ) :
    (fill key value m items)[a]? =
      ((items.reverse.find? fun x => key x = a).map value).or m[a]? := by
  induction items generalizing m with
  | nil => simp
  | cons x items ih =>
    rw [fill_cons, ih, getElem?_insert_eq, List.reverse_cons, List.find?_append]
    cases items.reverse.find? fun x => key x = a with
    | some y => simp
    | none => by_cases h : key x = a <;> simp [h]

/-- Among items with different keys each is found under its key. -/
theorem getElem?_fill_of_nodup {m : TreeMap κ β cmp} {items : List α}
    (hnd : (items.map key).Nodup) {x : α} (hx : x ∈ items) :
    (fill key value m items)[key x]? = some (value x) := by
  obtain ⟨y, hy⟩ : ∃ y, (items.reverse.find? fun y => key y = key x) = some y := by
    refine Option.isSome_iff_exists.mp (List.find?_isSome.mpr ?_)
    exact ⟨x, List.mem_reverse.mpr hx, by simp⟩
  have hmem : y ∈ items := List.mem_reverse.mp (List.mem_of_find?_eq_some hy)
  have hkey : key y = key x := by simpa using List.find?_some hy
  have he : y = x := List.inj_on_of_nodup_map hnd hmem hx hkey
  rw [getElem?_fill, hy, Option.map_some, Option.some_or, he]

/-- Of the values that the items of a key have the last one is found under the key. -/
theorem getElem?_fill_filterMap (key : α → κ) (value? : α → Option β) (m : TreeMap κ β cmp)
    (items : List α) (a : κ) :
    (fill Prod.fst Prod.snd m (items.filterMap fun x => (value? x).map fun v => (key x, v)))[a]? =
      ((items.filter fun x => key x = a).filterMap value?).getLast?.or m[a]? := by
  induction items generalizing m with
  | nil => rfl
  | cons x items ih =>
    cases hv : value? x with
    | none =>
      rw [List.filterMap_cons, hv, Option.map_none, ih, List.filter_cons]
      by_cases h : key x = a <;> simp [h, hv]
    | some v =>
      rw [List.filterMap_cons, hv, Option.map_some, fill_cons, ih, getElem?_insert_eq,
        List.filter_cons]
      by_cases h : key x = a
      · rw [if_pos h, if_pos (decide_eq_true h), List.filterMap_cons, hv, List.getLast?_cons]
        cases ((items.filter fun x => key x = a).filterMap value?).getLast? <;> rfl
      · simp [h]

/-- Values that keys have are found under them, also if the keys repeat. -/
theorem getElem?_fill_keys {value? : κ → Option β} {keys : List κ} {a : κ}
    (h : a ∉ keys → value? a = none) (m : TreeMap κ β cmp) :
    (fill Prod.fst Prod.snd m (keys.filterMap fun k => (value? k).map fun v => (k, v)))[a]? =
      (value? a).or m[a]? := by
  rw [getElem?_fill_filterMap (fun k => k), List.filter_eq, List.getLast?_filterMap,
    List.reverse_replicate, List.findSome?_replicate]
  by_cases hmem : a ∈ keys
  · rw [if_neg (Nat.ne_of_gt (List.count_pos_iff.mpr hmem))]
  · rw [if_pos (List.count_eq_zero.mpr hmem), h hmem]

/-- Items with new and different keys are all entered. -/
theorem toList_fill_perm (key : α → κ) (value : α → β) (m : TreeMap κ β cmp) (items : List α)
    (hfresh : ∀ x ∈ items, key x ∉ m) (hnd : (items.map key).Nodup) :
    (fill key value m items).toList.Perm (items.map (fun x => (key x, value x)) ++ m.toList) := by
  induction items generalizing m with
  | nil => exact .refl _
  | cons x items ih =>
    obtain ⟨hx, hrest⟩ := List.forall_mem_cons.mp hfresh
    obtain ⟨hnx, hnd⟩ := List.nodup_cons.mp hnd
    have hnew : ∀ y ∈ items, key y ∉ m.insert (key x) (value x) := by
      intro y hy hmem
      rcases (mem_insert_eq m _ _ _).mp hmem with he | hm
      · exact hnx (he ▸ List.mem_map_of_mem hy)
      · exact hrest y hy hm
    have hkept : m.toList.filter (fun p => ¬key x == p.1) = m.toList := by
      refine List.filter_eq_self.mpr fun p hp => ?_
      have hne : key x ≠ p.1 := by
        intro he
        have hs := TreeMap.mem_toList_iff_getElem?_eq_some.mp hp
        exact hx (TreeMap.mem_iff_isSome_getElem?.mpr (by rw [he, hs]; rfl))
      simpa using hne
    have hins : (m.insert (key x) (value x)).toList.Perm ((key x, value x) :: m.toList) := by
      have hp := TreeMap.toList_insert_perm (t := m) (k := key x) (v := value x)
      rwa [hkept] at hp
    rw [fill_cons, List.map_cons, List.cons_append]
    exact (ih _ hnew hnd).trans ((hins.append_left _).trans List.perm_middle)

end ShardCompaction.FilledMap
