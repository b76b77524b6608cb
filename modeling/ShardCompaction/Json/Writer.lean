import ShardCompaction.Json.Basic
import ShardCompaction.Text.Hex

namespace ShardCompaction.Json

/-- The escaped form of one character of a string. -/
def escape (c : Char) : List Char :=
  if c = '"' then ['\\', '"']
  else if c = '\\' then ['\\', '\\']
  else if c.toNat = 8 then ['\\', 'b']
  else if c = '\t' then ['\\', 't']
  else if c = '\n' then ['\\', 'n']
  else if c.toNat = 12 then ['\\', 'f']
  else if c = '\r' then ['\\', 'r']
  else if c.toNat < 32 then '\\' :: 'u' :: Hex.ofNat 4 c.toNat
  else [c]

/-- A string in quotes. -/
def quoted (s : String) : List Char := '"' :: s.toList.flatMap escape ++ ['"']

/-- An exponent always carries its sign. -/
def numeralChars (n : Numeral) : List Char :=
  (if n.negative then ['-'] else []) ++ n.whole.map Decimal.digitChar ++
    (if n.fraction.isEmpty then [] else '.' :: n.fraction.map Decimal.digitChar) ++
    match n.exponent with
    | none => []
    | some e => 'e' :: (if e.negative then '-' else '+') :: e.digits.map Decimal.digitChar

/-- A string without text is written as a lone surrogate escape. -/
def stringChars : Option String → List Char
  | some s => quoted s
  | none => ['"', '\\', 'u', 'd', '8', '0', '0', '"']

mutual

def chars : Json → List Char
  | .null => ['n', 'u', 'l', 'l']
  | .bool true => ['t', 'r', 'u', 'e']
  | .bool false => ['f', 'a', 'l', 's', 'e']
  | .number n => numeralChars n
  | .string s => stringChars s
  | .array items => '[' :: itemChars items ++ [']']
  | .object fields => '{' :: fieldChars fields ++ ['}']

def itemChars : List Json → List Char
  | [] => []
  | [item] => chars item
  | item :: next :: items => chars item ++ ',' :: itemChars (next :: items)

def fieldChars : List (Option String × Json) → List Char
  | [] => []
  | [(key, item)] => stringChars key ++ ':' :: chars item
  | (key, item) :: next :: fields =>
    stringChars key ++ ':' :: chars item ++ ',' :: fieldChars (next :: fields)

end

def render (j : Json) : String := String.ofList j.chars

end ShardCompaction.Json
