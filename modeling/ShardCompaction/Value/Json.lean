import ShardCompaction.Json.Record
import ShardCompaction.Value.Tuple

namespace ShardCompaction

namespace ColumnType

def toJson (t : ColumnType) : Json := .text t.name

/-- The name, or an object with the name as its only key and null under it. -/
def ofJson? : Json → Option ColumnType
  | .string (some s) => ofName? s
  | .object [(some s, .null)] => ofName? s
  | _ => none

end ColumnType

namespace Value

def toJson : Value → Json
  | boolean b => .bool b
  | integer i => .int i.toInt
  | double d => .double d
  | text s => .text s

/-- A number is an integer if it is written as one that 64 signed bits hold, else a double. -/
def ofJson? : Json → Option Value
  | .bool b => some (boolean b)
  | .string s => s.map text
  | .number n =>
    match (Json.number n).asInt64? with
    | some i => some (integer i)
    | none => n.toDouble?.map double
  | _ => none

end Value

namespace Tuple

def toJson (t : Tuple) : Json :=
  .record [("types", .list ColumnType.toJson t.types), ("values", .list Value.toJson t.values)]

def ofJson? : Json → Option Tuple :=
  Json.asRecord? ["types", "values"] do
    let types ← .required (Json.asList? ColumnType.ofJson?)
    let values ← .required (Json.asList? Value.ofJson?)
    pure { types, values }

end Tuple

namespace ShardRange

def toJson (r : ShardRange) : Json := .record [("min", r.min.toJson), ("max", r.max.toJson)]

def ofJson? : Json → Option ShardRange :=
  Json.asRecord? ["min", "max"] do
    let min ← .required Tuple.ofJson?
    let max ← .required Tuple.ofJson?
    pure { min, max }

end ShardRange

end ShardCompaction
