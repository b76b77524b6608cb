import ShardCompaction.Order

namespace ShardCompaction

/-- A binary64 number, given by its bits, so that each NaN payload is a value of its own. -/
@[ext] structure Double where
  bits : UInt64
  deriving DecidableEq, Hashable, Inhabited

/-- A power of two, one for a negative exponent. -/
def twoPow (e : Int) : Nat := Nat.pow 2 e.toNat

/-- A power of ten, one for a negative exponent. -/
def tenPow (e : Int) : Nat := Nat.pow 10 e.toNat

namespace Double

def negative (d : Double) : Bool := 0x8000000000000000 ≤ d.bits.toNat

/-- The bits below the sign. -/
def magnitude (d : Double) : Nat := d.bits.toNat % 0x8000000000000000

def exponentField (d : Double) : Nat := d.magnitude / 0x10000000000000

def fractionField (d : Double) : Nat := d.magnitude % 0x10000000000000

def isFinite (d : Double) : Bool := d.exponentField < 2047

def isNaN (d : Double) : Bool := d.exponentField == 2047 && d.fractionField != 0

/-- The absolute value of a finite number is `mantissa * 2 ^ scale`. -/
def mantissa (d : Double) : Nat :=
  if d.exponentField = 0 then d.fractionField else 0x10000000000000 + d.fractionField

def scale (d : Double) : Int := (max d.exponentField 1 : Nat) - 1075

def infinity : Double := ⟨0x7ff0000000000000⟩

def neg (d : Double) : Double := ⟨d.bits ^^^ 0x8000000000000000⟩

/-- Ascends from the negative NaNs through -0 and +0 to the positive NaNs. -/
def orderKey (d : Double) : Int :=
  if d.negative then -(d.magnitude : Int) - 1 else d.magnitude

abbrev compare : Double → Double → Ordering := compareBy orderKey

theorem orderKey_inj {a b : Double} (h : a.orderKey = b.orderKey) : a = b := by
  have ha := a.bits.toNat_lt
  have hb := b.bits.toNat_lt
  have bits : a.bits.toNat = b.bits.toNat := by
    simp only [orderKey, negative, magnitude, decide_eq_true_eq] at h
    split at h <;> split at h <;> omega
  exact Double.ext (UInt64.toNat_inj.mp bits)

end Double

end ShardCompaction
