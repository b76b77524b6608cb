import Mathlib.Algebra.GroupWithZero.Nat
import ShardCompaction.Text.Decimal
import ShardCompaction.Text.Hex

namespace ShardCompaction

/-- What a list was made of is read back item by item. -/
theorem mapM_map_eq_some {α β : Type} {write : α → β} {read : β → Option α} {items : List α}
    (h : ∀ a ∈ items, read (write a) = some a) : (items.map write).mapM read = some items := by
  induction items with
  | nil => rfl
  | cons a items ih =>
    obtain ⟨ha, hitems⟩ := List.forall_mem_cons.mp h
    rw [List.map_cons, List.mapM_cons, ha, ih hitems]
    rfl

namespace Decimal

theorem append_append (n : Nat) (xs ys : List Nat) :
    append n (xs ++ ys) = append (append n xs) ys := List.foldl_append

theorem append_digits (n : Nat) : append 0 (digits n) = n := by
  induction n using digits.induct with
  | case1 n h => simp [digits, h, append]
  | case2 n h ih =>
    rw [digits, if_neg h, append_append, ih]
    change 10 * (n / 10) + n % 10 = n
    omega

theorem digits_lt (n : Nat) : ∀ d ∈ digits n, d < 10 := by
  induction n using digits.induct with
  | case1 n h => simp [digits, h]
  | case2 n h ih =>
    rw [digits, if_neg h]
    intro d hd
    rcases List.mem_append.mp hd with hd | hd
    · exact ih d hd
    · rw [List.mem_singleton.mp hd]
      omega

theorem digits_ne_nil (n : Nat) : digits n ≠ [] := by
  rw [digits]
  split <;> simp

/-- Only zero begins with a zero. -/
theorem eq_zero_of_head?_digits {n : Nat} (h : (digits n).head? = some 0) : n = 0 := by
  induction n using digits.induct with
  | case1 n hn => simpa [digits, hn] using h
  | case2 n hn ih =>
    have hhead : (digits (n / 10)).head? = some 0 := by
      rw [digits, if_neg hn, List.head?_append] at h
      cases hd : digits (n / 10) with
      | nil => exact absurd hd (digits_ne_nil _)
      | cons d ds => simpa [hd] using h
    have hzero := ih hhead
    omega

theorem digits_eq_zero_cons {n : Nat} {ds : List Nat} (h : digits n = 0 :: ds) : ds = [] := by
  obtain rfl : n = 0 := eq_zero_of_head?_digits (by rw [h]; rfl)
  have hzero : digits 0 = [0] := by simp [digits]
  rw [hzero] at h
  exact (List.cons.inj h).2.symm

/-- A text that does not go on with a digit. -/
def NoDigit (cs : List Char) : Prop := ∀ c ∈ cs.head?, digitValue? c = none

theorem takeDigits_of_noDigit {cs : List Char} (h : NoDigit cs) : takeDigits cs = ([], cs) := by
  cases cs with
  | nil => rfl
  | cons c cs =>
    have hc : digitValue? c = none := h c rfl
    rw [takeDigits, hc]

theorem takeDigits_append {ds : List Nat} {rest : List Char} (hds : ∀ d ∈ ds, d < 10)
    (hrest : NoDigit rest) : takeDigits (ds.map digitChar ++ rest) = (ds, rest) := by
  induction ds with
  | nil => exact takeDigits_of_noDigit hrest
  | cons d ds ih =>
    obtain ⟨hd, hds⟩ := List.forall_mem_cons.mp hds
    rw [List.map_cons, List.cons_append, takeDigits, digitValue?_digitChar hd, ih hds]

end Decimal

namespace Hex

theorem ofDigits_append_singleton (ds : List Nat) (d : Nat) :
    ofDigits (ds ++ [d]) = 16 * ofDigits ds + d := by
  rw [ofDigits, List.foldl_append]
  rfl

theorem digits_lt (width n : Nat) : ∀ d ∈ digits width n, d < 16 := by
  induction width generalizing n with
  | zero => simp [digits]
  | succ width ih =>
    intro d hd
    rcases List.mem_append.mp hd with hd | hd
    · exact ih (n / 16) d hd
    · rw [List.mem_singleton.mp hd]
      omega

/-- The digits of a width keep the number up to multiples of the power that they do not reach. -/
theorem ofDigits_digits (width n : Nat) : ofDigits (digits width n) = n % 16 ^ width := by
  induction width generalizing n with
  | zero => simp [digits, ofDigits, Nat.mod_one]
  | succ width ih =>
    have hsplit : n % (16 * 16 ^ width) = n % 16 + 16 * (n / 16 % 16 ^ width) := Nat.mod_mul
    rw [digits, ofDigits_append_singleton, ih, Nat.pow_succ', hsplit]
    omega

theorem toNat?_ofNat (width n : Nat) : toNat? (ofNat width n) = some (n % 16 ^ width) := by
  have hread : ((digits width n).map digitChar).mapM digitValue? = some (digits width n) :=
    mapM_map_eq_some fun d hd => digitValue?_digitChar (digits_lt width n d hd)
  rw [toNat?, ofNat, hread, Option.map_some, ofDigits_digits]

end Hex

end ShardCompaction
