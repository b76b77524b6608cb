import ShardCompaction.Double.Rounding
import ShardCompaction.Double.Shortest

namespace ShardCompaction

/-- The exponent of a number: its sign and its digits. -/
structure Exponent where
  negative : Bool
  digits : List Nat
  deriving DecidableEq

namespace Exponent

def ofInt (z : Int) : Exponent := ⟨z < 0, Decimal.digits z.natAbs⟩

/-- No exponent counts for more than this. -/
def limit : Nat := 0x7fffffff

def value (e : Exponent) : Int :=
  let n := (Decimal.valueBelow? limit 0 e.digits).getD limit
  if e.negative then -(n : Int) else n

end Exponent

/-- A number as written: `-`, digits of the whole part and of the fraction, and exponent. -/
structure Numeral where
  negative : Bool
  whole : List Nat
  fraction : List Nat
  exponent : Option Exponent
  deriving DecidableEq

namespace Numeral

def ofInt (z : Int) : Numeral := ⟨z < 0, Decimal.digits z.natAbs, [], none⟩

/-- Written without fraction and exponent. -/
def isIntegral (n : Numeral) : Bool := n.fraction.isEmpty && n.exponent.isNone

/-- The integers are `-2 ^ 63` to `2 ^ 64 - 1`; `-0` is not one of them. -/
def toInt? (n : Numeral) : Option Int :=
  if !n.isIntegral then none
  else if n.negative then do
    let m ← Decimal.valueBelow? 0x8000000000000001 0 n.whole
    if m = 0 then none else some (-(m : Int))
  else (Decimal.valueBelow? 0x10000000000000000 0 n.whole).map fun m => (m : Int)

/-- The digits read so far, as one number below `2 ^ 64`, and the power of ten it counts. -/
structure Significand where
  value : Nat
  exponent : Int

namespace Significand

/-- Adds the digits of the whole part. From the first digit that does not fit on, a digit only
counts for the exponent. -/
def addWhole (s : Significand) : List Nat → Significand
  | [] => s
  | d :: ds =>
    if s.value * 10 + d < 0x10000000000000000 then addWhole ⟨s.value * 10 + d, s.exponent⟩ ds
    else ⟨s.value, s.exponent + (d :: ds).length⟩

/-- Adds the digits of the fraction up to the first one that does not fit. -/
def addFraction (s : Significand) : List Nat → Significand
  | [] => s
  | d :: ds =>
    if s.value * 10 + d < 0x10000000000000000 then addFraction ⟨s.value * 10 + d, s.exponent - 1⟩ ds
    else s

end Significand

/-- The double that the number is read as: the leading digits rounded once, then scaled by the power
of ten. There is none for a number past the largest double. -/
def toDouble? (n : Numeral) : Option Double :=
  let s := (Significand.addWhole ⟨0, 0⟩ n.whole).addFraction n.fraction
  let d := (Double.ofNat s.value).scaleTen (s.exponent + (n.exponent.map Exponent.value).getD 0)
  if n.negative then d.map Double.neg else d

/-- The number written for a finite double: shortest digits, a tie going to the even one, plain from
`1e-5` up to below `1e16` and with at least one fraction digit there, else one digit before the
point and an exponent. -/
def ofDouble (d : Double) : Numeral :=
  if d.mantissa = 0 then ⟨d.negative, [0], [0], none⟩
  else
    let s := d.shortest .even
    let ds := Decimal.digits s.digits
    let point : Int := ds.length + s.exponent
    if point ≤ -5 ∨ 16 < point then
      ⟨d.negative, ds.take 1, ds.drop 1, some (.ofInt (point - 1))⟩
    else if 0 ≤ s.exponent then
      ⟨d.negative, ds ++ List.replicate s.exponent.toNat 0, [0], none⟩
    else if 0 < point then ⟨d.negative, ds.take point.toNat, ds.drop point.toNat, none⟩
    else ⟨d.negative, [0], List.replicate (-point).toNat 0 ++ ds, none⟩

end Numeral

/-- A document. A string is `none` if its escapes leave a surrogate unpaired: it is well formed but
names no text. Fields keep their order and may repeat. -/
inductive Json where
  | null
  | bool (b : Bool)
  | number (n : Numeral)
  | string (text : Option String)
  | array (items : List Json)
  | object (fields : List (Option String × Json))

namespace Json

def text (s : String) : Json := .string (some s)

def int (z : Int) : Json := .number (.ofInt z)

def nat (n : Nat) : Json := .int n

def int64 (i : Int64) : Json := .int i.toInt

def uint32 (n : UInt32) : Json := .nat n.toNat

def uint64 (n : UInt64) : Json := .nat n.toNat

/-- Infinities and NaNs have no number and are written as null. -/
def double (d : Double) : Json := if d.isFinite then .number (.ofDouble d) else .null

def record (fields : List (String × Json)) : Json := .object (fields.map fun f => (some f.1, f.2))

def option (write : α → Json) : Option α → Json
  | none => .null
  | some a => write a

def list (write : α → Json) (items : List α) : Json := .array (items.map write)

end Json

end ShardCompaction
