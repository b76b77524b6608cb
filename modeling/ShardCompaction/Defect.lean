import ShardCompaction.Uuid.Text
import ShardCompaction.Value.Tuple

namespace ShardCompaction

/-- A broken assumption about data. It stops a computation where it is found. -/
inductive Defect where
  | tupleLength (types values : Nat)
  | valueNotAccepted (value : Value) (type : ColumnType)
  | rangeTypes (min max : List ColumnType)
  | notSingleColumn (range : ShardRange)
  | nonIntegerBounds (range : ShardRange)
  | nonTemporalType (type : ColumnType)
  | localTimeOutOfRange
  | mixedBuckets (table : Int64) (expected found : Option UInt32)
  | repeatedShard (uuid : Uuid)
  | emptySet (table : Int64)
  deriving DecidableEq

namespace Defect

/-- The report of two values that should be equal. -/
def mismatch (what left right : String) : String :=
  "assertion `left == right` failed: " ++ what ++ "\n  left: " ++ left ++ "\n right: " ++ right

def typeLabels (types : List ColumnType) : String :=
  "[" ++ ", ".intercalate (types.map ColumnType.label) ++ "]"

def bucketLabel : Option UInt32 → String
  | none => "None"
  | some b => "Some(" ++ Decimal.natText b.toNat ++ ")"

def message : Defect → String
  | tupleLength types values =>
    mismatch "tuple types and values differ in length" (Decimal.natText types)
      (Decimal.natText values)
  | valueNotAccepted value type =>
    "value " ++ value.display ++ " is not valid for column type " ++ type.name
  | rangeTypes min max =>
    mismatch "shard range bounds have different column types" (typeLabels min) (typeLabels max)
  | notSingleColumn range => "temporal range " ++ range.display ++ " is not single-column"
  | nonIntegerBounds range => "temporal range " ++ range.display ++ " holds non-integer values"
  | nonTemporalType type => "temporal range over non-temporal column type " ++ type.name
  | localTimeOutOfRange => "Local time out of range for `NaiveDateTime`"
  | mixedBuckets table expected found =>
    mismatch
      ("organization set for table " ++ Decimal.int64Text table ++ " mixes bucket numbers")
      (bucketLabel expected) (bucketLabel found)
  | repeatedShard uuid => "shard " ++ uuid.toText ++ " appears twice in one organization set"
  | emptySet table =>
    "organization set for table " ++ Decimal.int64Text table ++ " has no shards"

end Defect

namespace Tuple

/-- Builds a tuple whose values are of its types; the first value that is not is reported. -/
def check? (types : List ColumnType) (values : List Value) : Except Defect Tuple :=
  if types.length ≠ values.length then .error (.tupleLength types.length values.length)
  else
    match (types.zip values).find? fun c => !c.1.accepts c.2 with
    | some (type, value) => .error (.valueNotAccepted value type)
    | none => .ok ⟨types, values⟩

end Tuple

namespace ShardRange

/-- Builds a range whose bounds are over the same types. -/
def check? (min max : Tuple) : Except Defect ShardRange :=
  if min.types ≠ max.types then .error (.rangeTypes min.types max.types) else .ok ⟨min, max⟩

end ShardRange

end ShardCompaction
