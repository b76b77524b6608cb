import ShardCompaction.Proofs.Value.Hashing

namespace ShardCompaction

/-- A comparison that is a linear order, with an equality and hashed data that tell the same values
apart. -/
structure OrdersLinearly {α : Type} (compare : α → α → Ordering)
    (partialCompare : α → α → Option Ordering) (equals : α → α → Bool)
    (hashed : α → List HashItem) : Prop where
  swap : ∀ a b, compare a b = (compare b a).swap
  antisymm : ∀ a b, (compare a b).isLE = true → (compare b a).isLE = true → a = b
  trans : ∀ a b c, (compare a b).isLE = true → (compare b c).isLE = true →
    (compare a c).isLE = true
  total : ∀ a b, (compare a b).isLE = true ∨ (compare b a).isLE = true
  eq_iff : ∀ a b, compare a b = .eq ↔ a = b
  partialCompare_eq : ∀ a b, partialCompare a b = some (compare a b)
  equals_iff : ∀ a b, equals a b = true ↔ compare a b = .eq
  hashed_iff : ∀ a b, hashed a = hashed b ↔ compare a b = .eq

theorem transCmp_on {α β : Type} (cmp : α → α → Ordering) [Std.TransCmp cmp] (f : β → α) :
    Std.TransCmp fun a b => cmp (f a) (f b) where
  eq_swap := Std.OrientedCmp.eq_swap
  isLE_trans hab hbc := Std.TransCmp.isLE_trans hab hbc

section Comparisons

variable {α : Type} {cmp : α → α → Ordering}

/-- The first elements that differ decide, and a list comes after its proper prefixes. -/
theorem compareLex_eq_lt_iff_lex [Std.LawfulEqCmp cmp] (xs ys : List α) :
    List.compareLex cmp xs ys = .lt ↔ List.Lex (fun x y => cmp x y = .lt) xs ys := by
  induction xs generalizing ys with
  | nil =>
    cases ys with
    | nil => exact iff_of_false nofun nofun
    | cons y ys => exact iff_of_true rfl .nil
  | cons x xs ih =>
    cases ys with
    | nil => exact iff_of_false nofun nofun
    | cons y ys =>
      rw [List.compareLex_cons_cons, Ordering.then_eq_lt, ih ys]
      constructor
      · rintro (hlt | ⟨heq, hlex⟩)
        · exact .rel hlt
        · obtain rfl := Std.LawfulEqCmp.eq_of_compare heq
          exact .cons hlex
      · intro hlex
        cases hlex with
        | rel hlt => exact .inl hlt
        | cons hlex => exact .inr ⟨Std.ReflCmp.compare_self, hlex⟩

theorem ordersLinearly [Std.TransCmp cmp] [Std.LawfulEqCmp cmp] {equals : α → α → Bool}
    {hashed : α → List HashItem} (hequals : ∀ a b, equals a b = true ↔ a = b)
    (hhashed : SelfDelimiting hashed) :
    OrdersLinearly cmp (fun a b => some (cmp a b)) equals hashed where
  swap a b := Std.OrientedCmp.eq_swap
  antisymm a b hab hba := Std.LawfulEqCmp.eq_of_compare (Std.OrientedCmp.isLE_antisymm hab hba)
  trans a b c hab hbc := Std.TransCmp.isLE_trans hab hbc
  total a b := by
    have hswap : cmp b a = (cmp a b).swap := Std.OrientedCmp.eq_swap
    rw [hswap]
    cases cmp a b <;> simp
  eq_iff a b := Std.LawfulEqCmp.compare_eq_iff_eq
  partialCompare_eq a b := rfl
  equals_iff a b := by rw [hequals, Std.LawfulEqCmp.compare_eq_iff_eq]
  hashed_iff a b := by
    rw [Std.LawfulEqCmp.compare_eq_iff_eq]
    exact ⟨hhashed.inj, congrArg hashed⟩

end Comparisons

instance : Std.LawfulEqCmp ColumnType.compare := lawfulEqCmp_compareBy ColumnType.rank_inj

instance : Std.LawfulEqCmp Text.compareChars :=
  lawfulEqCmp_compareBy fun h => Char.toNat_inj.mp (Int.ofNat.inj h)

namespace Value

/-- The number that a value orders by among those of its kind. -/
def scalar : Value → Int
  | boolean b => b.toNat
  | integer i => i.toInt
  | double d => d.orderKey
  | text _ => 0

def chars : Value → List Char
  | text s => s.toList
  | _ => []

abbrev compareTexts (a b : Value) : Ordering :=
  List.compareLex Text.compareChars a.chars b.chars

/-- Values of different kinds differ in the first key. Of the others one is the same for all values
of a kind. -/
theorem compare_eq_compareLex :
    compare = compareLex (compareBy kind) (compareLex (compareBy scalar) compareTexts) := by
  funext a b
  cases a with
  | boolean a =>
    cases b with
    | boolean b => exact Ordering.then_eq.symm
    | _ => rfl
  | integer a =>
    cases b with
    | integer b => exact Ordering.then_eq.symm
    | _ => rfl
  | double a =>
    cases b with
    | double b => exact Ordering.then_eq.symm
    | _ => rfl
  | text a =>
    cases b with
    | text b => rfl
    | _ => rfl

theorem eq_of_keys {a b : Value} (hkind : a.kind = b.kind) (hscalar : a.scalar = b.scalar)
    (hchars : a.chars = b.chars) : a = b := by
  cases a with
  | boolean a =>
    cases b with
    | boolean b =>
      have hinj : ∀ a b : Bool, (a.toNat : Int) = b.toNat → a = b := by decide
      rw [hinj a b hscalar]
    | _ => simp [kind] at hkind
  | integer a =>
    cases b with
    | integer b => rw [Int64.toInt_inj.mp hscalar]
    | _ => simp [kind] at hkind
  | double a =>
    cases b with
    | double b => rw [Double.orderKey_inj hscalar]
    | _ => simp [kind] at hkind
  | text a =>
    cases b with
    | text b => rw [String.toList_inj.mp hchars]
    | _ => simp [kind] at hkind

instance : Std.TransCmp compareTexts := transCmp_on (List.compareLex Text.compareChars) chars

instance : Std.TransCmp compare := by
  rw [compare_eq_compareLex]
  infer_instance

instance : Std.LawfulEqCmp compare where
  compare_self := Std.ReflCmp.compare_self
  eq_of_compare := by
    intro a b h
    rw [compare_eq_compareLex, compareLex_eq_eq, compareLex_eq_eq] at h
    obtain ⟨hkind, hscalar, hchars⟩ := h
    exact eq_of_keys (compareBy_eq_eq_iff.mp hkind) (compareBy_eq_eq_iff.mp hscalar)
      (Std.LawfulEqCmp.eq_of_compare hchars)

theorem equals_iff (a b : Value) : equals a b = true ↔ a = b := by
  rw [equals, beq_iff_eq, Std.LawfulEqCmp.compare_eq_iff_eq]

theorem compare_eq_eq_iff (a b : Value) :
    a.compare b = .eq ↔ a.kind = b.kind ∧ a.payload = b.payload := by
  rw [Std.LawfulEqCmp.compare_eq_iff_eq]
  constructor
  · rintro rfl
    exact ⟨rfl, rfl⟩
  · rintro ⟨hkind, hpayload⟩
    apply selfDelimiting_hashed.inj
    rw [hashed, hashed, hkind, hpayload]

end Value

namespace Tuple

instance : Std.TransCmp compare := by
  have h : compare = compareLex (fun a b => List.compareLex Value.compare a.values b.values)
      fun a b => List.compareLex ColumnType.compare a.types b.types := rfl
  have hvalues := transCmp_on (List.compareLex Value.compare) Tuple.values
  have htypes := transCmp_on (List.compareLex ColumnType.compare) Tuple.types
  rw [h]
  infer_instance

theorem compare_eq_lt_iff (a b : Tuple) :
    a.compare b = .lt ↔ List.Lex (fun v w => v.compare w = .lt) a.values b.values ∨
      a.values = b.values ∧ List.Lex (fun t u => t.rank < u.rank) a.types b.types := by
  have htypes : (fun t u : ColumnType => t.compare u = .lt) = fun t u => t.rank < u.rank := by
    funext t u
    exact propext compareBy_eq_lt_iff
  rw [compare, Ordering.then_eq_lt, compareLex_eq_lt_iff_lex, compareLex_eq_lt_iff_lex,
    Std.LawfulEqCmp.compare_eq_iff_eq, htypes]

theorem compare_eq_eq_iff (a b : Tuple) :
    a.compare b = .eq ↔ a.values = b.values ∧ a.types = b.types := by
  rw [compare, Ordering.then_eq_eq, Std.LawfulEqCmp.compare_eq_iff_eq,
    Std.LawfulEqCmp.compare_eq_iff_eq]

instance : Std.LawfulEqCmp compare where
  compare_self := Std.ReflCmp.compare_self
  eq_of_compare := by
    intro a b h
    obtain ⟨hvalues, htypes⟩ := (compare_eq_eq_iff a b).mp h
    exact Tuple.ext htypes hvalues

theorem equals_iff (a b : Tuple) : equals a b = true ↔ a = b := by
  have hvalues : Value.equals = fun v w => v == w := by
    funext v w
    exact Bool.eq_iff_iff.mpr ((Value.equals_iff v w).trans beq_iff_eq.symm)
  rw [equals, hvalues, Bool.and_eq_true, beq_iff_eq, List.isEqv_eq, Tuple.ext_iff]

end Tuple

/-- Values and tuples are linearly ordered, in agreement with equality and with hashed data. Values
compare as equal if they are of one kind and hold the same, doubles the same bits. Tuples order
lexicographically by their values, and by their types only if the values are equal. Their lists may
differ in length. -/
theorem values_and_tuples_order_linearly :
    OrdersLinearly Value.compare Value.partialCompare Value.equals Value.hashed ∧
      OrdersLinearly Tuple.compare Tuple.partialCompare Tuple.equals Tuple.hashed ∧
      (∀ a b : Value, a.compare b = .eq ↔ a.kind = b.kind ∧ a.payload = b.payload) ∧
      (∀ a b : Tuple, a.compare b = .eq ↔ a.values = b.values ∧ a.types = b.types) ∧
      ∀ a b : Tuple, a.compare b = .lt ↔
        List.Lex (fun v w => v.compare w = .lt) a.values b.values ∨
          a.values = b.values ∧ List.Lex (fun t u => t.rank < u.rank) a.types b.types := by
  exact ⟨ordersLinearly Value.equals_iff Value.selfDelimiting_hashed,
    ordersLinearly Tuple.equals_iff Tuple.selfDelimiting_hashed, Value.compare_eq_eq_iff,
    Tuple.compare_eq_eq_iff, Tuple.compare_eq_lt_iff⟩

end ShardCompaction
