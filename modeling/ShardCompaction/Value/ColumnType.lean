import ShardCompaction.Order

namespace ShardCompaction

/-- The type of a column. Dates count days since 1970-01-01, timestamps milliseconds since then, the
ones with a time zone packed above a zone key of twelve bits. -/
inductive ColumnType where
  | boolean
  | integer
  | bigint
  | double
  | varchar
  | date
  | timestamp
  | timestampWithTimeZone
  deriving DecidableEq, Hashable, Inhabited

namespace ColumnType

def all : List ColumnType :=
  [boolean, integer, bigint, double, varchar, date, timestamp, timestampWithTimeZone]

def name : ColumnType → String
  | boolean => "boolean"
  | integer => "integer"
  | bigint => "bigint"
  | double => "double"
  | varchar => "varchar"
  | date => "date"
  | timestamp => "timestamp"
  | timestampWithTimeZone => "timestamp_with_time_zone"

def ofName? (s : String) : Option ColumnType := all.find? (·.name = s)

/-- The name in messages about defects. -/
def label : ColumnType → String
  | boolean => "Boolean"
  | integer => "Integer"
  | bigint => "BigInt"
  | double => "Double"
  | varchar => "Varchar"
  | date => "Date"
  | timestamp => "Timestamp"
  | timestampWithTimeZone => "TimestampWithTimeZone"

/-- Types order as they are listed. -/
def rank : ColumnType → Int
  | boolean => 0
  | integer => 1
  | bigint => 2
  | double => 3
  | varchar => 4
  | date => 5
  | timestamp => 6
  | timestampWithTimeZone => 7

abbrev compare : ColumnType → ColumnType → Ordering := compareBy rank

/-- The types that a table may be partitioned by. -/
def isTemporal : ColumnType → Bool
  | date | timestamp | timestampWithTimeZone => true
  | _ => false

theorem isTemporal_iff {t : ColumnType} :
    t.isTemporal = true ↔ t = date ∨ t = timestamp ∨ t = timestampWithTimeZone := by
  cases t <;> decide

theorem ofName?_name (t : ColumnType) : ofName? t.name = some t := by cases t <;> decide

theorem rank_inj {a b : ColumnType} (h : a.rank = b.rank) : a = b := by
  cases a <;> cases b <;> first | rfl | exact absurd h (by decide)

end ColumnType

end ShardCompaction
