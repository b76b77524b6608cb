import ShardCompaction.Table.Basic
import ShardCompaction.Value.Tuple

namespace ShardCompaction

/-- The statistics of one shard, one slot for each column that was asked for. -/
structure IndexRow where
  shard : Int64
  mins : List (Option Value)
  maxs : List (Option Value)
  deriving DecidableEq

namespace IndexRow

/-- The bounds of columns whose slots come first in a row. There are none unless all of them are
present, not null and stored as their types require. -/
def bounds? :
    List TableColumn → List (Option Value) → List (Option Value) → Option (List (Value × Value))
  | [], _, _ => some []
  | column :: columns, some min :: mins, some max :: maxs =>
    if column.type.accepts min && column.type.accepts max then
      (bounds? columns mins maxs).map ((min, max) :: ·)
    else none
  | _ :: _, _, _ => none

/-- The range over some columns, whose slots begin at `offset`, if they have bounds. -/
def range? (row : IndexRow) (columns : List TableColumn) (offset : Nat) : Option ShardRange := do
  let bounds ← bounds? columns (row.mins.drop offset) (row.maxs.drop offset)
  let types := columns.map TableColumn.type
  some ⟨⟨types, bounds.map Prod.fst⟩, ⟨types, bounds.map Prod.snd⟩⟩

end IndexRow

end ShardCompaction
