import ShardCompaction.Metadata.IndexRow

namespace ShardCompaction

/-- The least and the greatest value of a column, each null where none is known. -/
abbrev Stats := Option Value × Option Value

/-- Whether both statistics are there and stored as the type of the column requires. -/
def TableColumn.takes (column : TableColumn) (stats : Stats) : Bool :=
  stats.1.any column.type.accepts && stats.2.any column.type.accepts

/-- Whether both statistics are there and integers. -/
def Stats.integers (stats : Stats) : Bool :=
  stats.1.any (·.toInt64?.isSome) && stats.2.any (·.toInt64?.isSome)

/-- Columns of the temporal types store integers. -/
theorem ColumnType.accepts_of_isTemporal {type : ColumnType} (ht : type.isTemporal = true)
    (value : Value) : type.accepts value = value.toInt64?.isSome := by
  rcases isTemporal_iff.mp ht with rfl | rfl | rfl
  · cases value <;> rfl
  · cases value <;> rfl
  · cases value <;> rfl

namespace IndexRow

variable {columns : List TableColumn} {stats : TableColumn → Stats}

/-- Bounds begin with those of the first column. -/
theorem bounds?_cons_eq_some_iff {column : TableColumn} {mins maxs : List (Option Value)}
    {bounds : List (Value × Value)} :
    bounds? (column :: columns) mins maxs = some bounds ↔
      ∃ min max mins' maxs' rest, mins = some min :: mins' ∧ maxs = some max :: maxs' ∧
        column.type.accepts min = true ∧ column.type.accepts max = true ∧
        bounds? columns mins' maxs' = some rest ∧ bounds = (min, max) :: rest := by
  constructor
  · intro h
    match mins, maxs with
    | some min :: mins, some max :: maxs =>
      rw [bounds?, Option.ite_none_right_eq_some, Bool.and_eq_true, Option.map_eq_some_iff] at h
      obtain ⟨⟨hmin, hmax⟩, rest, hrest, rfl⟩ := h
      exact ⟨min, max, mins, maxs, rest, rfl, rfl, hmin, hmax, hrest, rfl⟩
    | [], _ => simp [bounds?] at h
    | none :: _, _ => simp [bounds?] at h
    | some _ :: _, [] => simp [bounds?] at h
    | some _ :: _, none :: _ => simp [bounds?] at h
  · intro h
    obtain ⟨min, max, mins, maxs, rest, rfl, rfl, hmin, hmax, hrest, rfl⟩ := h
    rw [bounds?, hmin, hmax, hrest]
    rfl

variable {row : IndexRow} {offset : Nat} {mins maxs : List (Option Value)}

end IndexRow

end ShardCompaction
