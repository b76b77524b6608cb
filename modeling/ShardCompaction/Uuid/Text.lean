import ShardCompaction.Text.Hex
import ShardCompaction.Uuid.Basic

namespace ShardCompaction.Uuid

/-- The numbers of digits between the hyphens. -/
def groups : List Nat := [8, 4, 4, 4, 12]

/-- Puts a hyphen between groups of the given lengths. -/
def hyphenate : List Nat → List Char → List Char
  | [], _ => []
  | [n], cs => cs.take n
  | n :: m :: ns, cs => cs.take n ++ '-' :: hyphenate (m :: ns) (cs.drop n)

/-- Takes the hyphens out of groups of the given lengths. -/
def unhyphenate : List Nat → List Char → Option (List Char)
  | [], cs => if cs.isEmpty then some [] else none
  | [n], cs => if cs.length = n then some cs else none
  | n :: m :: ns, cs =>
    if n ≤ (cs.take n).length then
      match cs.drop n with
      | '-' :: rest => (unhyphenate (m :: ns) rest).map (cs.take n ++ ·)
      | _ => none
    else none

def chars (u : Uuid) : List Char := hyphenate groups (Hex.ofNat 32 u.toNat)

def toText (u : Uuid) : String := String.ofList u.chars

def ofDigits? (cs : List Char) : Option Uuid :=
  if cs.length = 32 then (Hex.toNat? cs).map ofNat else none

def ofHyphenated? (cs : List Char) : Option Uuid := do ofDigits? (← unhyphenate groups cs)

/-- The inside of braces. -/
def unbrace? : List Char → Option (List Char)
  | '{' :: cs => if cs.getLast? = some '}' then some cs.dropLast else none
  | _ => none

/-- What follows `urn:uuid:`, in either case. -/
def unlabel? (cs : List Char) : Option (List Char) :=
  let label := "urn:uuid:".toList
  if (cs.take label.length).map Char.toLower = label then some (cs.drop label.length) else none

def ofText? (s : String) : Option Uuid :=
  let cs := s.toList
  ofDigits? cs <|> ofHyphenated? cs <|> unbrace? cs >>= ofHyphenated? <|>
    unlabel? cs >>= ofHyphenated?

end ShardCompaction.Uuid
