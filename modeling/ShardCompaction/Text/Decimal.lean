namespace ShardCompaction.Decimal

/-- The character of a digit below ten. -/
def digitChar (d : Nat) : Char := Char.ofNat (48 + d)

/-- Only the ten ASCII digits are digits. -/
def digitValue? (c : Char) : Option Nat :=
  if '0' ≤ c ∧ c ≤ '9' then some (c.toNat - 48) else none

/-- Most significant digit first, no leading zero, zero itself as one digit. -/
def digits (n : Nat) : List Nat :=
  if n < 10 then [n] else digits (n / 10) ++ [n % 10]
termination_by n

/-- The value of digits after a number already read. -/
def append (n : Nat) (ds : List Nat) : Nat := ds.foldl (fun n d => 10 * n + d) n

/-- The same value if it is below a limit. No digit is looked at after one that reaches the
limit. -/
def valueBelow? (limit n : Nat) : List Nat → Option Nat
  | [] => if n < limit then some n else none
  | d :: ds => if n < limit then valueBelow? limit (10 * n + d) ds else none

def ofNat (n : Nat) : List Char := (digits n).map digitChar

def ofInt (z : Int) : List Char :=
  if z < 0 then '-' :: ofNat z.natAbs else ofNat z.natAbs

/-- The longest run of digits at the front, and what follows it. -/
def takeDigits : List Char → List Nat × List Char
  | [] => ([], [])
  | c :: cs =>
    match digitValue? c with
    | some d => let (ds, rest) := takeDigits cs; (d :: ds, rest)
    | none => ([], c :: cs)

/-- One or more digits and nothing else. -/
def toDigits? (cs : List Char) : Option (List Nat) :=
  match takeDigits cs with
  | (d :: ds, []) => some (d :: ds)
  | _ => none

def toNatBelow? (limit : Nat) (cs : List Char) : Option Nat := do
  valueBelow? limit 0 (← toDigits? cs)

/-- An optional sign, then one or more digits and nothing else, from `-2 ^ 63` up to below
`2 ^ 63`. -/
def toInt64? : List Char → Option Int64
  | '-' :: cs => (toNatBelow? 0x8000000000000001 cs).map fun n => Int64.ofInt (-n)
  | '+' :: cs => (toNatBelow? 0x8000000000000000 cs).map fun n => Int64.ofInt n
  | cs => (toNatBelow? 0x8000000000000000 cs).map fun n => Int64.ofInt n

def natText (n : Nat) : String := String.ofList (ofNat n)

def intText (z : Int) : String := String.ofList (ofInt z)

def int64Text (i : Int64) : String := intText i.toInt

theorem le_append (n : Nat) (ds : List Nat) : n ≤ append n ds := by
  induction ds generalizing n with
  | nil => exact Nat.le_refl n
  | cons d ds ih => exact Nat.le_trans (by omega) (ih (10 * n + d))

theorem valueBelow?_eq (limit n : Nat) (ds : List Nat) :
    valueBelow? limit n ds = if append n ds < limit then some (append n ds) else none := by
  induction ds generalizing n with
  | nil => rfl
  | cons d ds ih =>
    unfold valueBelow?
    split
    · exact ih (10 * n + d)
    · rename_i h
      exact (if_neg fun lt => h (Nat.lt_of_le_of_lt (le_append n (d :: ds)) lt)).symm

theorem digitValue?_digitChar {d : Nat} (h : d < 10) : digitValue? (digitChar d) = some d := by
  have all : ∀ d, d < 10 → digitValue? (digitChar d) = some d := by decide
  exact all d h

end ShardCompaction.Decimal
