import ShardCompaction.Text.Decimal
import ShardCompaction.Value.ColumnType

namespace ShardCompaction

/-- A table. With a bucket count it is hash-bucketed; with a temporal column its shards are
partitioned by day. -/
structure Table where
  id : Int64
  distributionId : Option Int64
  distributionName : Option String
  bucketCount : Option UInt32
  temporalColumn : Option Int64
  organized : Bool
  supportsDeltaDelete : Bool
  deriving DecidableEq, Inhabited

namespace Table

def isBucketed (t : Table) : Bool := t.bucketCount.isSome

def isTemporal (t : Table) : Bool := t.temporalColumn.isSome

theorem isTemporal_of_mem {t : Table} {id : Int64} (h : id ∈ t.temporalColumn) :
    t.isTemporal = true := Option.isSome_of_mem h

/-- The name of the partitioning scheme. -/
def partitioning (t : Table) : String :=
  match t.isBucketed, t.isTemporal with
  | false, false => "none"
  | true, false => "bucketed"
  | false, true => "temporal"
  | true, true => "bucketed_temporal"

def display (t : Table) : String :=
  let part (label : String) : Option String → String
    | none => ""
    | some s => " " ++ label ++ "=" ++ s
  "table " ++ Decimal.int64Text t.id ++
    part "buckets" (t.bucketCount.map fun n => Decimal.natText n.toNat) ++
    part "temporal_column" (t.temporalColumn.map fun c => Decimal.int64Text c) ++
    part "distribution" t.distributionName

end Table

/-- A column of a table, with its position in the table's sort key if it is part of it. -/
structure TableColumn where
  table : Int64
  id : Int64
  name : String
  type : ColumnType
  ordinal : UInt32
  sortPosition : Option UInt32
  deriving DecidableEq, Inhabited

end ShardCompaction
