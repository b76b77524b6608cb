import ShardCompaction.Value.Tuple

namespace ShardCompaction

/-- What a hasher is given, one item after another. A list gives its length, which has no bound. -/
inductive HashItem where
  | byte (b : UInt8)
  | length (n : Nat)
  deriving DecidableEq

namespace HashItem

/-- The lowest digits to the base 256, the least one first. -/
def digits : Nat → Nat → List HashItem
  | 0, _ => []
  | width + 1, n => byte (UInt8.ofNat n) :: digits width (n / 256)

def word (n : UInt64) : List HashItem := digits 8 n.toNat

/-- The bytes in UTF-8, and after them one that no text has. -/
def text (s : String) : List HashItem := s.toUTF8.data.toList.map byte ++ [byte 0xff]

def list (hashed : α → List HashItem) (xs : List α) : List HashItem :=
  length xs.length :: xs.flatMap hashed

end HashItem

def ColumnType.hashed (t : ColumnType) : List HashItem :=
  HashItem.word (UInt64.ofNat t.rank.toNat)

namespace Value

/-- Every two values compare. -/
def partialCompare (a b : Value) : Option Ordering := some (a.compare b)

/-- Values are equal if neither comes before the other. -/
def equals (a b : Value) : Bool := a.compare b == .eq

/-- What a value holds, a double as its bits. -/
def payload : Value → List HashItem
  | boolean b => [.byte b.toUInt8]
  | integer i => HashItem.word i.toUInt64
  | double d => HashItem.word d.bits
  | text s => HashItem.text s

def hashed (v : Value) : List HashItem := .byte (UInt8.ofNat v.kind.toNat) :: v.payload

end Value

namespace Tuple

def partialCompare (a b : Tuple) : Option Ordering := some (a.compare b)

/-- Tuples are equal list by list, whatever their order says. -/
def equals (a b : Tuple) : Bool := a.types == b.types && a.values.isEqv b.values Value.equals

def hashed (t : Tuple) : List HashItem :=
  HashItem.list ColumnType.hashed t.types ++ HashItem.list Value.hashed t.values

end Tuple

end ShardCompaction
