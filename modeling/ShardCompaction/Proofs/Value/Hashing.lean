import Mathlib.Algebra.GroupWithZero.Nat
import Mathlib.Data.List.Basic
import ShardCompaction.Proofs.Text.ByteOrder
import ShardCompaction.Value.Equality

namespace ShardCompaction

/-- Data that shows where it ends, so that other data may follow. -/
def SelfDelimiting {α : Type} (hashed : α → List HashItem) : Prop :=
  ∀ a b rest rest', hashed a ++ rest = hashed b ++ rest' → a = b ∧ rest = rest'

namespace Text

theorem ne_of_mem_utf8EncodeChar (c : Char) : ∀ b ∈ String.utf8EncodeChar c, b ≠ 0xff := by
  have hbyte : ∀ n < 0xff, UInt8.ofNat n ≠ 0xff := by
    intro n hn h
    have hnat : n % 256 = 255 := congrArg UInt8.toNat h
    omega
  rw [String.utf8EncodeChar]
  -- one case for each length of the form
  repeat' split
  all_goals
    simp only [List.mem_cons, List.not_mem_nil, or_false, forall_eq_or_imp, forall_eq]
    repeat' apply And.intro
  all_goals exact hbyte _ (by omega)

theorem end_notMem_bytes (s : String) : 0xff ∉ bytes s := by
  rw [bytes_eq_flatMap, List.mem_flatMap]
  rintro ⟨c, -, hb⟩
  exact ne_of_mem_utf8EncodeChar c _ hb rfl

end Text

namespace HashItem

theorem length_digits (width n : Nat) : (digits width n).length = width := by
  induction width generalizing n with
  | zero => rfl
  | succ width ih => rw [digits, List.length_cons, ih]

theorem digits_inj {width m n : Nat} (hm : m < 256 ^ width) (hn : n < 256 ^ width)
    (h : digits width m = digits width n) : m = n := by
  induction width generalizing m n with
  | zero => omega
  | succ width ih =>
    obtain ⟨hlow, hhigh⟩ := List.cons.inj h
    have hlow : m % 256 = n % 256 := by
      have hnat := congrArg UInt8.toNat (byte.inj hlow)
      rwa [UInt8.toNat_ofNat', UInt8.toNat_ofNat'] at hnat
    rw [Nat.pow_succ] at hm hn
    have hhigh : m / 256 = n / 256 := ih (by omega) (by omega) hhigh
    omega

theorem selfDelimiting_word : SelfDelimiting word := by
  intro a b rest rest' heq
  obtain ⟨hword, hrest⟩ :=
    List.append_inj heq ((length_digits 8 a.toNat).trans (length_digits 8 b.toNat).symm)
  exact ⟨UInt64.toNat_inj.mp (digits_inj a.toNat_lt b.toNat_lt hword), hrest⟩

/-- What comes before the first of an item. -/
theorem append_cons_inj {x : HashItem} {xs ys rest rest' : List HashItem} (hxs : x ∉ xs)
    (hys : x ∉ ys) (heq : xs ++ x :: rest = ys ++ x :: rest') : xs = ys ∧ rest = rest' := by
  induction xs generalizing ys with
  | nil =>
    cases ys with
    | nil => exact ⟨rfl, (List.cons.inj heq).2⟩
    | cons y ys => exact absurd (List.cons.inj heq).1 (List.ne_of_not_mem_cons hys)
  | cons z xs ih =>
    cases ys with
    | nil => exact absurd (List.cons.inj heq).1.symm (List.ne_of_not_mem_cons hxs)
    | cons y ys =>
      obtain ⟨rfl, htail⟩ := List.cons.inj heq
      obtain ⟨rfl, hrest⟩ :=
        ih (List.not_mem_of_not_mem_cons hxs) (List.not_mem_of_not_mem_cons hys) htail
      exact ⟨rfl, hrest⟩

theorem selfDelimiting_text : SelfDelimiting text := by
  have hend : ∀ s, byte 0xff ∉ (Text.bytes s).map byte := by
    intro s hmem
    obtain ⟨b, hb, hbyte⟩ := List.mem_map.mp hmem
    obtain rfl := byte.inj hbyte
    exact Text.end_notMem_bytes s hb
  intro a b rest rest' heq
  have htext : ∀ s rest, text s ++ rest = (Text.bytes s).map byte ++ byte 0xff :: rest :=
    fun s rest => List.append_assoc _ [byte 0xff] rest
  rw [htext, htext] at heq
  obtain ⟨hbytes, hrest⟩ := append_cons_inj (hend a) (hend b) heq
  have hinj : Function.Injective byte := fun _ _ => byte.inj
  exact ⟨Text.bytes_inj (List.map_injective_iff.mpr hinj hbytes), hrest⟩

end HashItem

namespace SelfDelimiting

variable {α : Type} {hashed : α → List HashItem}

theorem inj (h : SelfDelimiting hashed) {a b : α} (heq : hashed a = hashed b) : a = b :=
  (h a b [] [] (congrArg (· ++ []) heq)).1

theorem flatMap_append_inj (h : SelfDelimiting hashed) {xs ys : List α}
    {rest rest' : List HashItem} (hlen : xs.length = ys.length)
    (heq : xs.flatMap hashed ++ rest = ys.flatMap hashed ++ rest') : xs = ys ∧ rest = rest' := by
  induction xs generalizing ys with
  | nil =>
    obtain rfl := List.length_eq_zero_iff.mp hlen.symm
    exact ⟨rfl, heq⟩
  | cons x xs ih =>
    cases ys with
    | nil => simp at hlen
    | cons y ys =>
      rw [List.flatMap_cons, List.flatMap_cons, List.append_assoc, List.append_assoc] at heq
      obtain ⟨rfl, htail⟩ := h _ _ _ _ heq
      obtain ⟨rfl, hrest⟩ := ih (Nat.succ.inj hlen) htail
      exact ⟨rfl, hrest⟩

/-- The length of a list tells how many elements follow. -/
theorem list (h : SelfDelimiting hashed) : SelfDelimiting (HashItem.list hashed) := by
  intro xs ys rest rest' heq
  obtain ⟨hlen, htail⟩ := List.cons.inj heq
  exact h.flatMap_append_inj (HashItem.length.inj hlen) htail

end SelfDelimiting

theorem ColumnType.selfDelimiting_hashed : SelfDelimiting hashed := by
  intro a b rest rest' heq
  obtain ⟨hrank, hrest⟩ := HashItem.selfDelimiting_word _ _ _ _ heq
  have hinj : ∀ a b : ColumnType,
      UInt64.ofNat a.rank.toNat = UInt64.ofNat b.rank.toNat → a = b := by
    intro a b
    cases a <;> cases b <;> decide
  exact ⟨hinj a b hrank, hrest⟩

/-- The kind comes first and tells how to read what is held. -/
theorem Value.selfDelimiting_hashed : SelfDelimiting hashed := by
  intro a b rest rest' heq
  obtain ⟨hkind, hpayload⟩ := List.cons.inj heq
  cases a with
  | boolean a =>
    cases b with
    | boolean b =>
      have hinj : ∀ a b : Bool, a.toUInt8 = b.toUInt8 → a = b := by decide
      obtain ⟨hbyte, hrest⟩ := List.cons.inj hpayload
      exact ⟨congrArg boolean (hinj a b (HashItem.byte.inj hbyte)), hrest⟩
    | _ => exact nomatch hkind
  | integer a =>
    cases b with
    | integer b =>
      obtain ⟨hword, hrest⟩ := HashItem.selfDelimiting_word _ _ _ _ hpayload
      exact ⟨congrArg integer (Int64.toBitVec_inj.mp (congrArg UInt64.toBitVec hword)), hrest⟩
    | _ => exact nomatch hkind
  | double a =>
    cases b with
    | double b =>
      obtain ⟨hword, hrest⟩ := HashItem.selfDelimiting_word _ _ _ _ hpayload
      exact ⟨congrArg double (Double.ext hword), hrest⟩
    | _ => exact nomatch hkind
  | text a =>
    cases b with
    | text b =>
      obtain ⟨htext, hrest⟩ := HashItem.selfDelimiting_text _ _ _ _ hpayload
      exact ⟨congrArg text htext, hrest⟩
    | _ => exact nomatch hkind

theorem Tuple.selfDelimiting_hashed : SelfDelimiting hashed := by
  intro a b rest rest' heq
  rw [hashed, hashed, List.append_assoc, List.append_assoc] at heq
  obtain ⟨htypes, hvalues⟩ := ColumnType.selfDelimiting_hashed.list _ _ _ _ heq
  obtain ⟨hvalues, hrest⟩ := Value.selfDelimiting_hashed.list _ _ _ _ hvalues
  exact ⟨Tuple.ext htypes hvalues, hrest⟩

end ShardCompaction
