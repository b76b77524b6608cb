import Mathlib.Data.List.Basic
import ShardCompaction.Text.Order

namespace ShardCompaction

namespace Text

/-- The bytes of a text in UTF-8. -/
def bytes (s : String) : List UInt8 := s.toUTF8.data.toList

theorem bytes_eq_flatMap (s : String) : bytes s = s.toList.flatMap String.utf8EncodeChar := by
  rw [bytes, String.toUTF8, ← String.utf8Encode_toList, List.utf8Encode, List.data_toByteArray]

theorem bytes_inj {a b : String} (h : bytes a = bytes b) : a = b := by
  rw [bytes, bytes, Array.toList_inj] at h
  exact String.toByteArray_inj.mp (ByteArray.ext h)

theorem utf8EncodeChar_ne_nil (c : Char) : String.utf8EncodeChar c ≠ [] := by
  rw [String.utf8EncodeChar]
  repeat' split
  all_goals simp

theorem ofNat_eq_iff_eq {m n : Nat} (hm : m < UInt8.size) (hn : n < UInt8.size) :
    UInt8.ofNat m = UInt8.ofNat n ↔ m = n := by
  rw [← UInt8.toNat_inj, UInt8.toNat_ofNat', UInt8.toNat_ofNat', Nat.mod_eq_of_lt hm,
    Nat.mod_eq_of_lt hn]

theorem codePoint_lt (c : Char) : c.val.toNat < 0x110000 := by
  rcases c.valid with h | ⟨-, h⟩ <;> omega

/-- The first digit to the base 64 in which two numbers differ tells the smaller one. -/
theorem sixtyFourths_lt {m n : Nat} (h : m < n) :
    m / 262144 < n / 262144 ∨ m / 262144 = n / 262144 ∧
      (m / 4096 % 64 < n / 4096 % 64 ∨ m / 4096 % 64 = n / 4096 % 64 ∧
        (m / 64 % 64 < n / 64 % 64 ∨ m / 64 % 64 = n / 64 % 64 ∧ m % 64 < n % 64)) := by
  have digit : ∀ k l, k < l → k / 64 < l / 64 ∨ k / 64 = l / 64 ∧ k % 64 < l % 64 := by
    intro k l hkl
    omega
  rcases digit m n h with hhigh | hlow
  · rcases digit _ _ hhigh with hhigh | hlow
    · have hfirst := digit _ _ hhigh
      omega
    · omega
  · omega

/-- Characters compare by their bytes, whatever follows: the longer form begins with the greater
byte, and forms of one length hold the digits of the code points to the base 64. -/
theorem utf8EncodeChar_lt {c d : Char} (h : c.toNat < d.toNat) (xs ys : List UInt8) :
    String.utf8EncodeChar c ++ xs < String.utf8EncodeChar d ++ ys := by
  have hc := codePoint_lt c
  have hd := codePoint_lt d
  have hlt : c.val.toNat < d.val.toNat := h
  have hdigits := sixtyFourths_lt hlt
  rw [String.utf8EncodeChar, String.utf8EncodeChar]
  -- One case for each pair of lengths: only in the four with equal lengths do the digits count.
  repeat' split
  all_goals
    simp only [List.cons_append, List.nil_append, List.cons_lt_cons_iff]
    simp (disch := first | omega | change _ < 256; omega) only
      [UInt8.ofNat_lt_iff_lt, ofNat_eq_iff_eq, Nat.mod_eq_of_lt]
    omega

theorem append_lt_append_iff (bs xs ys : List UInt8) : bs ++ xs < bs ++ ys ↔ xs < ys := by
  induction bs with
  | nil => rfl
  | cons b bs ih => simp [ih]

theorem compareLex_eq_lt_iff (cs ds : List Char) :
    List.compareLex compareChars cs ds = .lt ↔
      cs.flatMap String.utf8EncodeChar < ds.flatMap String.utf8EncodeChar := by
  induction cs generalizing ds with
  | nil =>
    cases ds with
    | nil => exact iff_of_false nofun (List.not_lt_nil _)
    | cons d ds =>
      obtain ⟨b, bs, hd⟩ := List.exists_cons_of_ne_nil (utf8EncodeChar_ne_nil d)
      rw [List.flatMap_cons, hd]
      exact iff_of_true rfl (List.nil_lt_cons _ _)
  | cons c cs ih =>
    cases ds with
    | nil => exact iff_of_false nofun (List.not_lt_nil _)
    | cons d ds =>
      rw [List.compareLex_cons_cons, List.flatMap_cons, List.flatMap_cons]
      cases hcmp : compareChars c d with
      | lt =>
        have hlt := compareBy_eq_lt_iff.mp hcmp
        exact iff_of_true rfl (utf8EncodeChar_lt (Int.ofNat_lt.mp hlt) _ _)
      | eq =>
        have heq := compareBy_eq_eq_iff.mp hcmp
        obtain rfl : c = d := Char.toNat_inj.mp (Int.ofNat.inj heq)
        rw [append_lt_append_iff]
        exact ih ds
      | gt =>
        have hlt := compareBy_eq_lt_iff.mp (Std.OrientedCmp.lt_of_gt hcmp)
        have hbytes := utf8EncodeChar_lt (Int.ofNat_lt.mp hlt) (ds.flatMap String.utf8EncodeChar)
          (cs.flatMap String.utf8EncodeChar)
        exact iff_of_false nofun (List.lt_asymm hbytes)

theorem compare_eq_lt_iff {a b : String} : compare a b = .lt ↔ bytes a < bytes b := by
  rw [bytes_eq_flatMap, bytes_eq_flatMap]
  exact compareLex_eq_lt_iff a.toList b.toList

theorem isLE_compare_iff {a b : String} : (compare a b).isLE = true ↔ bytes a ≤ bytes b := by
  have hswap : compare a b = (compare b a).swap := by
    rw [compare, compare]
    exact Std.OrientedCmp.eq_swap
  rw [← List.not_lt, ← compare_eq_lt_iff, hswap]
  cases compare b a <;> simp

end Text

end ShardCompaction
