namespace ShardCompaction.Hex

/-- The lower-case character of a digit below sixteen. -/
def digitChar (d : Nat) : Char :=
  if d < 10 then Char.ofNat (48 + d) else Char.ofNat (87 + d)

/-- Both cases are read. -/
def digitValue? (c : Char) : Option Nat :=
  if '0' ≤ c ∧ c ≤ '9' then some (c.toNat - 48)
  else if 'a' ≤ c ∧ c ≤ 'f' then some (c.toNat - 87)
  else if 'A' ≤ c ∧ c ≤ 'F' then some (c.toNat - 55)
  else none

/-- The lowest `width` digits of a number, most significant first. -/
def digits : Nat → Nat → List Nat
  | 0, _ => []
  | width + 1, n => digits width (n / 16) ++ [n % 16]

def ofDigits (ds : List Nat) : Nat := ds.foldl (fun n d => 16 * n + d) 0

/-- The lowest `width` digits of a number as text. -/
def ofNat (width n : Nat) : List Char := (digits width n).map digitChar

/-- Reads a text in which every character is a digit; the empty text is zero. -/
def toNat? (cs : List Char) : Option Nat := (cs.mapM digitValue?).map ofDigits

theorem digitValue?_digitChar {d : Nat} (h : d < 16) : digitValue? (digitChar d) = some d := by
  have all : ∀ d, d < 16 → digitValue? (digitChar d) = some d := by decide
  exact all d h

theorem length_digits (width n : Nat) : (digits width n).length = width := by
  induction width generalizing n with
  | zero => rfl
  | succ width ih => simp [digits, ih]

end ShardCompaction.Hex
