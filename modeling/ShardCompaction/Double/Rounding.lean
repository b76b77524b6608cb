import ShardCompaction.Double.Basic

namespace ShardCompaction

/-- The integer nearest to `num / den`, a tie going to the even one. -/
def divNearestEven (num den : Nat) : Nat :=
  let q := num / den
  let r := num % den
  if 2 * r > den ∨ (2 * r = den ∧ q % 2 = 1) then q + 1 else q

namespace Double

/-- The largest `e` with `2 ^ e ≤ num / den`, for positive arguments. -/
def floorLog2 (num den : Nat) : Int :=
  let e : Int := (Nat.log2 num : Int) - Nat.log2 den
  if num * twoPow (-e) < den * twoPow e then e - 1 else e

/-- The double nearest to `num / den`, a tie going to the even mantissa; infinity from half a step
above the largest finite double on. A mantissa that rounds up to `2 ^ 53` carries into the exponent
field by the same sum. -/
def ofRatio (num den : Nat) : Double :=
  if num = 0 then ⟨0⟩
  else
    let q : Int := max (floorLog2 num den - 52) (-1074)
    let m := divNearestEven (num * twoPow (-q)) (den * twoPow q)
    ⟨UInt64.ofNat (min ((q + 1074).toNat * 0x10000000000000 + m) infinity.bits.toNat)⟩

def ofNat (n : Nat) : Double := ofRatio n 1

/-- Numerator and denominator of the absolute value of a finite number. -/
def numerator (d : Double) : Nat := d.mantissa * twoPow d.scale

def denominator (d : Double) : Nat := twoPow (-d.scale)

/-- The rounded product of absolute values. -/
def mulAbs (a b : Double) : Double :=
  ofRatio (a.numerator * b.numerator) (a.denominator * b.denominator)

/-- The rounded quotient of absolute values. -/
def divAbs (a b : Double) : Double :=
  ofRatio (a.numerator * b.denominator) (a.denominator * b.numerator)

/-- The largest power of ten that is a double. -/
def maxTenPower : Nat := 308

/-- Multiplies a nonnegative double by a power of ten: one rounded product, or rounded quotients by
at most `10 ^ 308` each. There is no value past the largest double. -/
def scaleTen (d : Double) (exponent : Int) : Option Double :=
  if exponent.natAbs ≤ maxTenPower then
    let power := ofNat (tenPow exponent.natAbs)
    if 0 ≤ exponent then
      let product := d.mulAbs power
      if product.isFinite then some product else none
    else some (d.divAbs power)
  else if d.mantissa = 0 then some d
  else if 0 ≤ exponent then none
  else scaleTen (d.divAbs (ofNat (tenPow maxTenPower))) (exponent + maxTenPower)
termination_by (-exponent).toNat
decreasing_by simp only [maxTenPower] at *; omega

end Double

end ShardCompaction
