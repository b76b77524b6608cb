import ShardCompaction.Defect
import ShardCompaction.Proofs.Checked
import ShardCompaction.Proofs.Metadata.IndexRow

namespace ShardCompaction

/-- Values that are of their types make a tuple. -/
theorem Tuple.check?_eq_ok {types : List ColumnType} {values : List Value}
    (hlength : types.length = values.length)
    (haccepts : ∀ c ∈ types.zip values, c.1.accepts c.2 = true) :
    Tuple.check? types values = .ok ⟨types, values⟩ := by
  have hfind : ((types.zip values).find? fun c => !c.1.accepts c.2) = none := by
    refine List.find?_eq_none.mpr fun c hc => ?_
    simp [haccepts c hc]
  rw [check?, if_neg (not_not_intro hlength), hfind]

/-- A range over columns whose bounds stand in a row from an offset on. -/
structure ShardRange.ReadFrom (range : ShardRange) (row : IndexRow) (columns : List TableColumn)
    (offset : Nat) : Prop where
  minTypes : range.min.types = columns.map TableColumn.type
  maxTypes : range.max.types = columns.map TableColumn.type
  minLength : range.min.values.length = columns.length
  maxLength : range.max.values.length = columns.length
  mins : ∀ i < columns.length, row.mins[offset + i]? = some range.min.values[i]?
  maxs : ∀ i < columns.length, row.maxs[offset + i]? = some range.max.values[i]?

namespace IndexRow

/-- Both slots at a position are there, and neither is null or of another type than the column. -/
def Holds (row : IndexRow) (column : TableColumn) (position : Nat) : Prop :=
  ∃ min max, row.mins[position]? = some (some min) ∧ row.maxs[position]? = some (some max) ∧
    column.type.accepts min = true ∧ column.type.accepts max = true

section Bounds

variable {columns : List TableColumn} {mins maxs : List (Option Value)}
  {bounds : List (Value × Value)}

/-- There is one pair of bounds for each column. -/
theorem length_of_bounds? (h : bounds? columns mins maxs = some bounds) :
    bounds.length = columns.length := by
  induction columns generalizing mins maxs bounds with
  | nil =>
    rw [bounds?] at h
    rw [← Option.some.inj h]
    rfl
  | cons column columns ih =>
    obtain ⟨_, _, _, _, rest, -, -, -, -, hrest, rfl⟩ := bounds?_cons_eq_some_iff.mp h
    rw [List.length_cons, List.length_cons, ih hrest]

/-- The bounds of a column are the values of its slots, and are of its type. -/
theorem slots_of_bounds? (h : bounds? columns mins maxs = some bounds) {i : Nat}
    {column : TableColumn} (hi : columns[i]? = some column) :
    ∃ b : Value × Value, bounds[i]? = some b ∧ mins[i]? = some (some b.1) ∧
      maxs[i]? = some (some b.2) ∧ column.type.accepts b.1 = true ∧
      column.type.accepts b.2 = true := by
  induction columns generalizing mins maxs bounds i with
  | nil => simp at hi
  | cons first columns ih =>
    obtain ⟨min, max, _, _, rest, rfl, rfl, hmin, hmax, hrest, rfl⟩ :=
      bounds?_cons_eq_some_iff.mp h
    cases i with
    | zero =>
      obtain rfl := Option.some.inj hi
      exact ⟨(min, max), rfl, rfl, rfl, hmin, hmax⟩
    | succ i => exact ih hrest hi

/-- Columns whose slots hold values of their types have bounds. -/
theorem exists_bounds? (h : ∀ (i : Nat) (column : TableColumn), columns[i]? = some column →
      ∃ min max, mins[i]? = some (some min) ∧ maxs[i]? = some (some max) ∧
        column.type.accepts min = true ∧ column.type.accepts max = true) :
    ∃ bounds, bounds? columns mins maxs = some bounds := by
  induction columns generalizing mins maxs with
  | nil => exact ⟨[], rfl⟩
  | cons first columns ih =>
    obtain ⟨min, max, hmin, hmax, ha, hb⟩ := h 0 first rfl
    cases mins with
    | nil => simp at hmin
    | cons slot mins =>
      cases maxs with
      | nil => simp at hmax
      | cons other maxs =>
        obtain rfl := Option.some.inj hmin
        obtain rfl := Option.some.inj hmax
        obtain ⟨rest, hrest⟩ := ih fun i column hi => h (i + 1) column hi
        exact ⟨_, bounds?_cons_eq_some_iff.mpr
          ⟨min, max, mins, maxs, rest, rfl, rfl, ha, hb, hrest, rfl⟩⟩

end Bounds

variable {row : IndexRow} {columns : List TableColumn}

theorem range?_eq_some_iff_bounds? {offset : Nat} {range : ShardRange} :
    row.range? columns offset = some range ↔
      ∃ bounds, bounds? columns (row.mins.drop offset) (row.maxs.drop offset) = some bounds ∧
        range = ⟨⟨columns.map TableColumn.type, bounds.map Prod.fst⟩,
          ⟨columns.map TableColumn.type, bounds.map Prod.snd⟩⟩ := by
  rw [range?, Option.bind_eq_bind, Option.bind_eq_some_iff]
  simp only [Option.some.injEq, eq_comm]

/-- A row has a range over some columns exactly if it holds the slots of each of them. -/
theorem exists_range?_iff {offset : Nat} :
    (∃ range, row.range? columns offset = some range) ↔
      ∀ (i : Nat) (column : TableColumn), columns[i]? = some column →
        row.Holds column (offset + i) := by
  constructor
  · intro h i column hi
    obtain ⟨range, hrange⟩ := h
    obtain ⟨bounds, hbounds, -⟩ := range?_eq_some_iff_bounds?.mp hrange
    obtain ⟨b, -, hmin, hmax, ha, hb⟩ := slots_of_bounds? hbounds hi
    rw [List.getElem?_drop] at hmin hmax
    exact ⟨b.1, b.2, hmin, hmax, ha, hb⟩
  · intro h
    have hslots : ∀ (i : Nat) (column : TableColumn), columns[i]? = some column →
        ∃ min max, (row.mins.drop offset)[i]? = some (some min) ∧
          (row.maxs.drop offset)[i]? = some (some max) ∧
          column.type.accepts min = true ∧ column.type.accepts max = true := by
      intro i column hi
      rw [List.getElem?_drop, List.getElem?_drop]
      exact h i column hi
    obtain ⟨bounds, hbounds⟩ := exists_bounds? hslots
    exact ⟨_, range?_eq_some_iff_bounds?.mpr ⟨bounds, hbounds, rfl⟩⟩

theorem readFrom_of_range? {offset : Nat} {range : ShardRange}
    (h : row.range? columns offset = some range) : range.ReadFrom row columns offset := by
  obtain ⟨bounds, hbounds, rfl⟩ := range?_eq_some_iff_bounds?.mp h
  have hlength := length_of_bounds? hbounds
  refine ⟨rfl, rfl, by rw [List.length_map, hlength], by rw [List.length_map, hlength], ?_, ?_⟩
  · intro i hi
    obtain ⟨b, hb, hmin, -⟩ := slots_of_bounds? hbounds (List.getElem?_eq_getElem hi)
    rw [List.getElem?_drop] at hmin
    rw [List.getElem?_map, hb, hmin]
    rfl
  · intro i hi
    obtain ⟨b, hb, -, hmax, -⟩ := slots_of_bounds? hbounds (List.getElem?_eq_getElem hi)
    rw [List.getElem?_drop] at hmax
    rw [List.getElem?_map, hb, hmax]
    rfl

/-- How decoding could go wrong: at a position that no word holds, or at parts that make no tuple
or no range. -/
inductive DecodingFault where
  | positionOverflow (offset : UInt64) (index : Nat)
  | defect (d : Defect)
  deriving DecidableEq

/-- The position of the slot of a column. -/
def position (offset : UInt64) (index : Nat) : Except DecodingFault UInt64 :=
  if offset.toNat + index < UInt64.size then .ok (offset + .ofNat index)
  else .error (.positionOverflow offset index)

/-- What has been read of some columns. -/
structure Gathered where
  types : List ColumnType
  mins : List Value
  maxs : List Value

namespace Gathered

def empty : Gathered := ⟨[], [], []⟩

def push (g : Gathered) (type : ColumnType) (min max : Value) : Gathered :=
  ⟨g.types ++ [type], g.mins ++ [min], g.maxs ++ [max]⟩

/-- The range that was read, if its parts belong together. -/
def range (g : Gathered) : Except Defect ShardRange := do
  let min ← Tuple.check? g.types g.mins
  let max ← Tuple.check? g.types g.maxs
  ShardRange.check? min max

end Gathered

/-- Reads the slots of columns from the one with an index on. -/
def gather (row : IndexRow) (offset : UInt64) :
    Nat → List TableColumn → Gathered → Except DecodingFault (Option Gathered)
  | _, [], gathered => .ok (some gathered)
  | index, column :: columns, gathered => do
    let minPosition ← position offset index
    match row.mins[minPosition.toNat]? with
    | some (some min) => do
      let maxPosition ← position offset index
      match row.maxs[maxPosition.toNat]? with
      | some (some max) =>
        if column.type.accepts min && column.type.accepts max then
          gather row offset (index + 1) columns (gathered.push column.type min max)
        else .ok none
      | _ => .ok none
    | _ => .ok none

/-- The range over columns whose slots begin at an offset. -/
def decode (row : IndexRow) (columns : List TableColumn) (offset : UInt64) :
    Except DecodingFault (Option ShardRange) := do
  match ← row.gather offset 0 columns .empty with
  | some gathered => (gathered.range.map some).mapError .defect
  | none => .ok none

/-- The walk past the slots of some columns is at a position that a word holds. -/
theorem position_eq_ok {offset : UInt64} {index : Nat} (hfits : row.mins.length < UInt64.size)
    (hwalked : index = 0 ∨ offset.toNat + index ≤ row.mins.length) :
    ∃ p, position offset index = .ok p ∧ p.toNat = offset.toNat + index := by
  have hoffset : offset.toNat < UInt64.size := offset.toNat_lt
  have hlt : offset.toNat + index < UInt64.size := by omega
  refine ⟨offset + .ofNat index, by rw [position, if_pos hlt], ?_⟩
  rw [UInt64.toNat_add, UInt64.toNat_ofNat', Nat.add_mod_mod, Nat.mod_eq_of_lt hlt]

theorem bounds?_cons_drop (row : IndexRow) (column : TableColumn) (p : Nat) :
    bounds? (column :: columns) (row.mins.drop p) (row.maxs.drop p) =
      match row.mins[p]?, row.maxs[p]? with
      | some (some min), some (some max) =>
        if column.type.accepts min && column.type.accepts max then
          (bounds? columns (row.mins.drop (p + 1)) (row.maxs.drop (p + 1))).map ((min, max) :: ·)
        else none
      | _, _ => none := by
  rw [← List.head?_drop, ← List.head?_drop, ← List.tail_drop, ← List.tail_drop]
  match row.mins.drop p, row.maxs.drop p with
  | some min :: mins, some max :: maxs => rfl
  | [], _ => rfl
  | none :: _, _ => rfl
  | some _ :: _, [] => rfl
  | some _ :: _, none :: _ => rfl

/-- The walk reads the bounds of the columns that are left, if they have any. -/
theorem gather_eq {offset : UInt64} {index : Nat} (hfits : row.mins.length < UInt64.size)
    (hwalked : index = 0 ∨ offset.toNat + index ≤ row.mins.length) (g : Gathered) :
    row.gather offset index columns g =
      .ok ((bounds? columns (row.mins.drop (offset.toNat + index))
          (row.maxs.drop (offset.toNat + index))).map fun bounds =>
        ⟨g.types ++ columns.map TableColumn.type, g.mins ++ bounds.map Prod.fst,
          g.maxs ++ bounds.map Prod.snd⟩) := by
  induction columns generalizing index g with
  | nil => simp [gather, bounds?]
  | cons column columns ih =>
    obtain ⟨p, hp, hpos⟩ := position_eq_ok hfits hwalked
    rw [gather, hp, bounds?_cons_drop, ← hpos]
    dsimp only [bind, Except.bind]
    cases hmin : row.mins[p.toNat]? with
    | none => rfl
    | some slot =>
      cases slot with
      | none => rfl
      | some min =>
        cases hmax : row.maxs[p.toNat]? with
        | none => rfl
        | some other =>
          cases other with
          | none => rfl
          | some max =>
            -- The slot that was read lies in the row, so that the next position is at most its end.
            have hlt : p.toNat < row.mins.length := by
              by_contra hge
              rw [List.getElem?_eq_none (by omega)] at hmin
              simp at hmin
            dsimp only
            by_cases ha : (column.type.accepts min && column.type.accepts max) = true
            · have hnext := ih (.inr (by omega : offset.toNat + (index + 1) ≤ row.mins.length))
                (g.push column.type min max)
              rw [if_pos ha, if_pos ha, hnext, Option.map_map, hpos]
              simp only [Gathered.push, List.append_assoc, Nat.add_assoc]
              rfl
            · rw [if_neg ha, if_neg ha]
              rfl

/-- Values that are chosen from bounds make a tuple, if the columns accept them. -/
theorem check?_of_bounds? {mins maxs : List (Option Value)} {bounds : List (Value × Value)}
    (h : bounds? columns mins maxs = some bounds) (choose : Value × Value → Value)
    (haccepts : ∀ (column : TableColumn) (b : Value × Value), column.type.accepts b.1 = true →
      column.type.accepts b.2 = true → column.type.accepts (choose b) = true) :
    Tuple.check? (columns.map TableColumn.type) (bounds.map choose) =
      .ok ⟨columns.map TableColumn.type, bounds.map choose⟩ := by
  have hlength := length_of_bounds? h
  refine Tuple.check?_eq_ok (by rw [List.length_map, List.length_map, hlength]) fun c hc => ?_
  obtain ⟨i, hi⟩ := List.mem_iff_getElem?.mp hc
  obtain ⟨htype, hvalue⟩ := List.getElem?_zip_eq_some.mp hi
  rw [List.getElem?_map, Option.map_eq_some_iff] at htype hvalue
  obtain ⟨column, hcolumn, htype⟩ := htype
  obtain ⟨b, hb, hvalue⟩ := hvalue
  obtain ⟨b', hb', -, -, hmin, hmax⟩ := slots_of_bounds? h hcolumn
  obtain rfl := Option.some.inj (hb.symm.trans hb')
  rw [← htype, ← hvalue]
  exact haccepts column b hmin hmax

/-- Bounds make a range: all checks of its parts are met. -/
theorem range_of_bounds? {mins maxs : List (Option Value)} {bounds : List (Value × Value)}
    (h : bounds? columns mins maxs = some bounds) :
    Gathered.range ⟨columns.map TableColumn.type, bounds.map Prod.fst, bounds.map Prod.snd⟩ =
      .ok ⟨⟨columns.map TableColumn.type, bounds.map Prod.fst⟩,
        ⟨columns.map TableColumn.type, bounds.map Prod.snd⟩⟩ := by
  have hmin := check?_of_bounds? h Prod.fst fun _ _ hmin _ => hmin
  have hmax := check?_of_bounds? h Prod.snd fun _ _ _ hmax => hmax
  rw [Gathered.range, hmin, hmax]
  exact if_neg (not_not_intro rfl)

/-- On rows that words can count nothing goes wrong. -/
theorem decode_eq_ok (hfits : row.mins.length < UInt64.size) (columns : List TableColumn)
    (offset : UInt64) :
    row.decode columns offset = .ok (row.range? columns offset.toNat) := by
  rw [decode, gather_eq hfits (.inl rfl), Nat.add_zero, range?]
  dsimp only [bind, Except.bind, Option.bind]
  cases hbounds : bounds? columns (row.mins.drop offset.toNat) (row.maxs.drop offset.toNat) with
  | none => rfl
  | some bounds =>
    have hrange := range_of_bounds? hbounds
    simp only [Option.map_some, Gathered.empty, List.nil_append, hrange]
    rfl

/-- Decoding never goes wrong on a row whose slots a word can count, at whatever offset it begins.
It finds a range exactly if the slots of every column hold values of its type. The range is over the
types of the columns, and its bounds are those values. -/
theorem range?_decodes_slots (row : IndexRow) (columns : List TableColumn) (offset : UInt64) :
    (row.mins.length < UInt64.size →
      row.decode columns offset = .ok (row.range? columns offset.toNat)) ∧
    ((∃ range, row.range? columns offset.toNat = some range) ↔
      ∀ (i : Nat) (column : TableColumn), columns[i]? = some column →
        row.Holds column (offset.toNat + i)) ∧
    (∀ range, row.range? columns offset.toNat = some range →
      range.ReadFrom row columns offset.toNat) ∧
    row.range? [] offset.toNat = some ⟨⟨[], []⟩, ⟨[], []⟩⟩ := by
  refine ⟨fun hfits => decode_eq_ok hfits columns offset, exists_range?_iff, ?_, rfl⟩
  intro range h
  exact readFrom_of_range? h

/-- The statistics of a date and of a name. The greatest name is null in the second pair of slots,
and there is no third pair of greatest values. -/
def unevenRow : IndexRow :=
  ⟨5, [some (.integer 3), some (.text "a"), some (.integer 7), some (.text "b"), some (.integer 9)],
    [some (.integer 4), some (.text "m"), some (.integer 8), none]⟩

def datedNames : List TableColumn :=
  [⟨1, 10, "ds", .date, 0, none⟩, ⟨1, 11, "name", .varchar, 1, none⟩]

theorem range?_decodes_slots_of_unevenRow :
    unevenRow.mins.length < UInt64.size ∧
      unevenRow.decode datedNames 0 = .ok (some
        ⟨⟨[.date, .varchar], [.integer 3, .text "a"]⟩,
          ⟨[.date, .varchar], [.integer 4, .text "m"]⟩⟩) ∧
      (∀ offset ∈ [1, 2, 4, 0xffffffffffffffff],
        unevenRow.decode datedNames offset = .ok none) ∧
      unevenRow.decode [] 0xffffffffffffffff = .ok (some ⟨⟨[], []⟩, ⟨[], []⟩⟩) := by
  have hfits : unevenRow.mins.length < UInt64.size := by decide
  have hdecode : ∀ columns offset, unevenRow.decode columns offset =
      .ok (unevenRow.range? columns offset.toNat) :=
    fun columns offset => (range?_decodes_slots unevenRow columns offset).1 hfits
  refine ⟨hfits, ?_, ?_, ?_⟩
  · rw [hdecode]
    rfl
  · intro offset hoffset
    rw [hdecode]
    simp only [List.mem_cons, List.not_mem_nil, or_false] at hoffset
    rcases hoffset with rfl | rfl | rfl | rfl <;> rfl
  · rw [hdecode]
    rfl

end IndexRow

end ShardCompaction
