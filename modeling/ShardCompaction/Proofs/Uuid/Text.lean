import ShardCompaction.Proofs.Text.Numerals
import ShardCompaction.Uuid.Text

namespace ShardCompaction.Uuid

/-- One hyphen stands between each two groups. -/
theorem length_hyphenate {ns : List Nat} {cs : List Char} (hns : ns ≠ []) (h : cs.length = ns.sum) :
    (hyphenate ns cs).length + 1 = ns.sum + ns.length := by
  induction ns, cs using hyphenate.induct with
  | case1 => exact absurd rfl hns
  | case2 n cs =>
    simp only [List.sum_cons, List.sum_nil] at h
    simp [hyphenate, h]
  | case3 n m ns cs ih =>
    have hsum : cs.length = n + (m :: ns).sum := by rw [h, List.sum_cons]
    have hdrop : (cs.drop n).length = (m :: ns).sum := by
      rw [List.length_drop]
      omega
    have hrest := ih (by simp) hdrop
    rw [hyphenate, List.length_append, List.length_cons, List.length_take, List.sum_cons,
      List.length_cons]
    omega

theorem unhyphenate_hyphenate {ns : List Nat} {cs : List Char} (hns : ns ≠ [])
    (h : cs.length = ns.sum) : unhyphenate ns (hyphenate ns cs) = some cs := by
  induction ns, cs using hyphenate.induct with
  | case1 => exact absurd rfl hns
  | case2 n cs =>
    have htake : cs.take n = cs := List.take_of_length_le (by simp [h])
    rw [hyphenate, unhyphenate, htake, if_pos (by simp [h])]
  | case3 n m ns cs ih =>
    have hsum : cs.length = n + (m :: ns).sum := by rw [h, List.sum_cons]
    have hdrop : (cs.drop n).length = (m :: ns).sum := by
      rw [List.length_drop]
      omega
    have hfirst : (cs.take n).length = n := by
      rw [List.length_take]
      omega
    rw [hyphenate, unhyphenate, List.take_left' hfirst, List.drop_left' hfirst,
      if_pos (Nat.le_of_eq hfirst.symm)]
    simp only [ih (by simp) hdrop, Option.map_some, List.take_append_drop]

theorem ofText?_toText (u : Uuid) : ofText? u.toText = some u := by
  have hdigits : (Hex.ofNat 32 u.toNat).length = 32 := by
    rw [Hex.ofNat, List.length_map, Hex.length_digits]
  have hlength : u.chars.length ≠ 32 := by
    have hchars : u.chars.length + 1 = groups.sum + groups.length :=
      length_hyphenate (by simp [groups]) hdigits
    simp only [groups, List.sum_cons, List.sum_nil, List.length_cons, List.length_nil] at hchars
    omega
  have hbound : u.toNat < 16 ^ 32 := Nat.lt_of_lt_of_eq u.word.isLt (by decide)
  have hread : ofHyphenated? u.chars = some u := by
    rw [ofHyphenated?, chars, unhyphenate_hyphenate (by simp [groups]) hdigits, Option.bind_eq_bind,
      Option.bind_some, ofDigits?, if_pos hdigits, Hex.toNat?_ofNat, Nat.mod_eq_of_lt hbound,
      Option.map_some, ofNat, toNat, BitVec.ofNat_toNat, BitVec.setWidth_eq]
  have hbare : ofDigits? u.chars = none := if_neg hlength
  rw [ofText?, toText, String.toList_ofList, hbare, hread]
  rfl

end ShardCompaction.Uuid
