import ShardCompaction.Order
import Std.Data.TreeMap

namespace ShardCompaction

/-- Lists of items under their keys. -/
abbrev GroupMap (code : κ → Int) (α : Type) := Std.TreeMap κ (List α) (compareBy code)

namespace GroupMap

variable {κ α : Type} {code : κ → Int}

def ofItems (code : κ → Int) (items : List (κ × α)) : GroupMap code α :=
  items.foldr (fun item groups => groups.insert item.1 (item.2 :: groups[item.1]?.getD [])) ∅

/-- Takes out the group of each item's key, where it is still there. -/
def take : List (κ × α) → GroupMap code α → List (κ × List α)
  | [], _ => []
  | item :: items, groups =>
    match groups[item.1]? with
    | some members => (item.1, members) :: take items (groups.erase item.1)
    | none => take items groups

end GroupMap

/-- Groups items by key, where `code` tells keys apart. -/
def groupByKey (code : κ → Int) (items : List (κ × α)) : List (κ × List α) :=
  GroupMap.take items (.ofItems code items)

/-- The items of one key. -/
def itemsOf [DecidableEq κ] (key : κ) (items : List (κ × α)) : List α :=
  (items.filter fun item => item.1 = key).map Prod.snd

section

variable {κ α : Type} {code : κ → Int}

theorem compareBy_code_eq_iff (inj : ∀ {a b}, code a = code b → a = b) {a b : κ} :
    compareBy code a b = .eq ↔ a = b :=
  compareBy_eq_eq_iff.trans ⟨inj, congrArg code⟩

variable [DecidableEq κ]

theorem itemsOf_eq_nil {key : κ} {items : List (κ × α)} (h : key ∉ items.map Prod.fst) :
    itemsOf key items = [] := by
  simp only [itemsOf, List.map_eq_nil_iff, List.filter_eq_nil_iff, decide_eq_true_eq]
  exact fun item mem eq => h (eq ▸ List.mem_map_of_mem mem)

theorem itemsOf_cons (key : κ) (item : κ × α) (items : List (κ × α)) :
    itemsOf key (item :: items) =
      if item.1 = key then item.2 :: itemsOf key items else itemsOf key items := by
  by_cases h : item.1 = key <;> simp [itemsOf, h]

theorem GroupMap.getElem?_ofItems (inj : ∀ {a b}, code a = code b → a = b)
    (items : List (κ × α)) (key : κ) :
    (GroupMap.ofItems code items)[key]? =
      if key ∈ items.map Prod.fst then some (itemsOf key items) else none := by
  induction items generalizing key with
  | nil => simp [ofItems]
  | cons item items ih =>
    have rest : (GroupMap.ofItems code items)[item.1]?.getD [] = itemsOf item.1 items := by
      rw [ih]
      split
      · rfl
      · rename_i h
        exact (itemsOf_eq_nil h).symm
    have cons : GroupMap.ofItems code (item :: items) =
        (GroupMap.ofItems code items).insert item.1 (item.2 :: itemsOf item.1 items) := by
      rw [← rest]
      rfl
    rw [cons, Std.TreeMap.getElem?_insert, itemsOf_cons]
    by_cases h : item.1 = key
    · subst h
      simp [compareBy_code_eq_iff inj]
    · have mem : key ∈ (item :: items).map Prod.fst ↔ key ∈ items.map Prod.fst := by
        rw [List.map_cons, List.mem_cons, or_iff_right (Ne.symm h)]
      rw [if_neg (mt (compareBy_code_eq_iff inj).mp h), if_neg h, ih]
      simp only [mem]

/-- Of the keys that are still in the map, each comes out where it is first met. -/
theorem GroupMap.take_eq (inj : ∀ {a b}, code a = code b → a = b) (members : κ → List α)
    (items : List (κ × α)) (left : κ → Bool) (groups : GroupMap code α)
    (h : ∀ item ∈ items, groups[item.1]? = if left item.1 then some (members item.1) else none) :
    GroupMap.take items groups =
      ((items.map Prod.fst).filter left).eraseDups.map fun key => (key, members key) := by
  induction items generalizing left groups with
  | nil => rfl
  | cons item items ih =>
    have here := h item List.mem_cons_self
    have there := fun i (mem : i ∈ items) => h i (List.mem_cons_of_mem _ mem)
    by_cases kept : left item.1
    · have tail := ih (fun key => !(key == item.1) && left key) (groups.erase item.1)
        fun i mem => by
          rw [Std.TreeMap.getElem?_erase, there i mem]
          by_cases same : item.1 = i.1
          · simp [compareBy_code_eq_iff inj, same]
          · simp [compareBy_code_eq_iff inj, same, Ne.symm same]
      simp only [take, here, kept, if_true, tail, List.map_cons, List.filter_cons,
        List.eraseDups_cons, List.filter_filter]
    · simp only [take, here, kept, ih left groups there, List.map_cons, List.filter_cons]
      rfl

/-- There is one group for each key, in the order in which keys are first met, with the items of
that key in their order. -/
theorem groupByKey_eq (inj : ∀ {a b}, code a = code b → a = b) (items : List (κ × α)) :
    groupByKey code items =
      (items.map Prod.fst).eraseDups.map fun key => (key, itemsOf key items) := by
  have h := GroupMap.take_eq inj (itemsOf · items) items (fun _ => true) (.ofItems code items)
    fun item mem => by
      simp [GroupMap.getElem?_ofItems inj, List.mem_map_of_mem mem]
  rwa [List.filter_eq_self.mpr fun _ _ => rfl] at h

end

end ShardCompaction
