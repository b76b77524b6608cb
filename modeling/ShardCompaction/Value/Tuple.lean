import ShardCompaction.Value.Basic

namespace ShardCompaction

/-- Parallel lists of types and values. A tuple that was read from a document need not be well
formed. -/
@[ext] structure Tuple where
  types : List ColumnType
  values : List Value
  deriving DecidableEq, Hashable, Inhabited

namespace Tuple

def size (t : Tuple) : Nat := t.values.length

def isEmpty (t : Tuple) : Bool := t.values.isEmpty

/-- The component of a tuple of one column. -/
def only? (t : Tuple) : Option (ColumnType × Value) :=
  match t.types, t.values with
  | [type], [value] => some (type, value)
  | _, _ => none

/-- Values decide first, lexicographically; types only between equal values. -/
def compare (a b : Tuple) : Ordering :=
  (List.compareLex Value.compare a.values b.values).then
    (List.compareLex ColumnType.compare a.types b.types)

def display (t : Tuple) : String := "(" ++ ", ".intercalate (t.values.map Value.display) ++ ")"

end Tuple

/-- The least and greatest tuple of a shard over some columns. -/
@[ext] structure ShardRange where
  min : Tuple
  max : Tuple
  deriving DecidableEq, Hashable, Inhabited

namespace ShardRange

def types (r : ShardRange) : List ColumnType := r.min.types

def display (r : ShardRange) : String := "[" ++ r.min.display ++ ", " ++ r.max.display ++ "]"

end ShardRange

end ShardCompaction
