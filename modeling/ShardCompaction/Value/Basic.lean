import ShardCompaction.Double.Text
import ShardCompaction.Text.Order
import ShardCompaction.Value.ColumnType

namespace ShardCompaction

inductive Value where
  | boolean (b : Bool)
  | integer (i : Int64)
  | double (d : Double)
  | text (s : String)
  deriving DecidableEq, Hashable, Inhabited

/-- Whether a column of the type stores such values. -/
def ColumnType.accepts : ColumnType → Value → Bool
  | .boolean, .boolean _ => true
  | .integer, .integer _ => true
  | .bigint, .integer _ => true
  | .date, .integer _ => true
  | .timestamp, .integer _ => true
  | .timestampWithTimeZone, .integer _ => true
  | .double, .double _ => true
  | .varchar, .text _ => true
  | _, _ => false

namespace Value

def toInt64? : Value → Option Int64
  | integer i => some i
  | _ => none

def kind : Value → Int
  | boolean _ => 0
  | integer _ => 1
  | double _ => 2
  | text _ => 3

/-- Values of different kinds order by kind. -/
def compare : Value → Value → Ordering
  | boolean a, boolean b => compareBy (fun b => (b.toNat : Int)) a b
  | integer a, integer b => compareBy Int64.toInt a b
  | double a, double b => a.compare b
  | text a, text b => Text.compare a b
  | a, b => compareBy kind a b

/-- Texts stand in quotes and are not escaped. -/
def display : Value → String
  | boolean true => "true"
  | boolean false => "false"
  | integer i => Decimal.int64Text i
  | double d => d.plainText
  | text s => "'" ++ s ++ "'"

end Value

end ShardCompaction
