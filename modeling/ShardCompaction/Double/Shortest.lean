import ShardCompaction.Double.Basic
import ShardCompaction.Text.Decimal

namespace ShardCompaction

/-- A positive decimal `digits * 10 ^ exponent` without trailing zeros. -/
structure ShortDecimal where
  digits : Nat
  exponent : Int

/-- Which of two decimals at the same distance is taken. -/
inductive TieRule where
  | even
  | up

namespace Double

/-- The value, scaled by four times a power of two to an integer, with the ends of its interval. -/
structure Interval where
  value : Nat
  low : Nat
  high : Nat
  unit : Nat
  closed : Bool

/-- The reals that round to a positive finite double. The gap below a power of two is half the gap
above it. The ends belong to the interval iff the mantissa is even. -/
def interval (d : Double) : Interval :=
  let m := d.mantissa
  let up := twoPow d.scale
  let below := if d.fractionField = 0 ∧ 1 < d.exponentField then 1 else 2
  { value := 4 * m * up
    low := (4 * m - below) * up
    high := (4 * m + 2) * up
    unit := 4 * twoPow (-d.scale)
    closed := m % 2 == 0 }

namespace Interval

/-- The least `e` with `value / unit < 10 ^ e`. -/
def decimalExponent (i : Interval) : Int :=
  -- the smallest double is above 10 ^ -324
  let lift : Nat := 330
  ((Decimal.digits (i.value * tenPow lift / i.unit)).length : Int) - lift

/-- Membership of `c * 10 ^ k`. -/
def contains (i : Interval) (k : Int) (c : Nat) : Bool :=
  let x := c * i.unit * tenPow k
  let shift := tenPow (-k)
  if i.closed then i.low * shift ≤ x && x ≤ i.high * shift
  else i.low * shift < x && x < i.high * shift

/-- The nearest member among the value's two neighbours on the grid of multiples of `10 ^ k`. -/
def nearest? (i : Interval) (tie : TieRule) (k : Int) : Option Nat :=
  let step := i.unit * tenPow k
  let value := i.value * tenPow (-k)
  let c := value / step
  match i.contains k c, i.contains k (c + 1) with
  | false, false => none
  | true, false => some c
  | false, true => some (c + 1)
  | true, true =>
    match compareOfLessAndEq (2 * value) ((2 * c + 1) * step), tie with
    | .lt, _ => some c
    | .gt, _ => some (c + 1)
    | .eq, .even => some (if c % 2 = 0 then c else c + 1)
    | .eq, .up => some (c + 1)

end Interval

/-- Seventeen digits always suffice. Only a carry to the next power of ten leaves a trailing zero,
on the grid of one digit. -/
def shortest (tie : TieRule) (d : Double) : ShortDecimal :=
  let i := d.interval
  let e := i.decimalExponent
  let found := (List.range 17).findSome? fun (n : Nat) =>
    let k := e - 1 - (n : Int)
    (i.nearest? tie k).map fun c => if c % 10 = 0 then ⟨c / 10, k + 1⟩ else ⟨c, k⟩
  found.getD ⟨d.mantissa, 0⟩

end Double

end ShardCompaction
