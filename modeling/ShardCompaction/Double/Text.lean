import ShardCompaction.Double.Shortest

namespace ShardCompaction

namespace ShortDecimal

/-- The decimal written with a point and no exponent. -/
def positional (s : ShortDecimal) : List Char :=
  let ds := Decimal.ofNat s.digits
  let point : Int := ds.length + s.exponent
  if 0 ≤ s.exponent then ds ++ List.replicate s.exponent.toNat '0'
  else if 0 < point then ds.take point.toNat ++ '.' :: ds.drop point.toNat
  else '0' :: '.' :: List.replicate (-point).toNat '0' ++ ds

end ShortDecimal

namespace Double

/-- The sign of zero and of infinity is kept, that of a NaN is not. -/
def plainText (d : Double) : String :=
  if d.isNaN then "NaN"
  else
    let sign := if d.negative then "-" else ""
    if !d.isFinite then sign ++ "inf"
    else if d.mantissa = 0 then sign ++ "0"
    else sign ++ String.ofList (d.shortest .up).positional

end Double

end ShardCompaction
