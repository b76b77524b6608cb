import ShardCompaction.Text.Blank
import ShardCompaction.Text.Decimal
import ShardCompaction.Zone.Basic

namespace ShardCompaction.ZoneOffset

/-- Hyphen and minus sign both count west. -/
def sign? (c : Char) : Option Int :=
  if c = '+' then some 1
  else if c = '-' ∨ c.toNat = 0x2212 then some (-1)
  else none

def isSeparator (c : Char) : Bool := c == ':' || Text.isBlank c

/-- The first digit is at most 5. -/
def minutes? (tens ones : Char) : Option Nat := do
  let t ← Decimal.digitValue? tens
  let o ← Decimal.digitValue? ones
  if t < 6 then some (10 * t + o) else none

/-- The offset at the front of a text. What follows the minutes is not looked at. -/
def ofOffsetChars? : List Char → Option ZoneOffset
  | s :: a :: b :: rest => do
    let sign ← sign? s
    let t ← Decimal.digitValue? a
    let o ← Decimal.digitValue? b
    match rest.dropWhile isSeparator with
    | c :: d :: _ =>
      let minutes ← minutes? c d
      ofSeconds? (sign * (3600 * (10 * t + o) + 60 * minutes))
    | _ => none
  | _ => none

/-- Blanks around the text do not count. -/
def ofText? (s : String) : Option ZoneOffset :=
  let cs := Text.trim s.toList
  if ["UTC", "utc", "Z"].contains (String.ofList cs) then some utc else ofOffsetChars? cs

end ShardCompaction.ZoneOffset
