import ShardCompaction.Json.Basic

namespace ShardCompaction.Json

def asBool? : Json → Option Bool
  | .bool b => some b
  | _ => none

def asText? : Json → Option String
  | .string s => s
  | _ => none

def asInt? : Json → Option Int
  | .number n => n.toInt?
  | _ => none

/-- An integer from `low` up to below `high`. -/
def asIntIn? (low high : Int) (j : Json) : Option Int := do
  let z ← j.asInt?
  if low ≤ z ∧ z < high then some z else none

def asInt64? (j : Json) : Option Int64 :=
  (j.asIntIn? (-0x8000000000000000) 0x8000000000000000).map Int64.ofInt

def asInt32? (j : Json) : Option Int32 := (j.asIntIn? (-0x80000000) 0x80000000).map Int32.ofInt

def asUInt64? (j : Json) : Option UInt64 :=
  (j.asIntIn? 0 0x10000000000000000).map fun z => UInt64.ofNat z.toNat

def asUInt32? (j : Json) : Option UInt32 :=
  (j.asIntIn? 0 0x100000000).map fun z => UInt32.ofNat z.toNat

def asList? (read : Json → Option α) : Json → Option (List α)
  | .array items => items.mapM read
  | _ => none

/-- Null stands for no value. -/
def asNullable? (read : Json → Option α) : Json → Option (Option α)
  | .null => some none
  | j => (read j).map some

/-- The fields of a record that are still to be read, in declaration order, each `none` if it was
not written. -/
structure Slots where
  named : Bool
  rest : List (Option Json)

/-- The slots of a record with the given field names: an object, or an array of its fields in their
order. A known name may not repeat; unknown names are passed over whatever stands under them, but
every name has to be a text. -/
def slots? (names : List String) : Json → Option Slots
  | .object fields => do
    let named ← fields.mapM fun f => f.1.map (·, f.2)
    let known := named.filter fun f => names.contains f.1
    if (known.map Prod.fst).Nodup then some ⟨true, names.map fun n => List.lookup n known⟩ else none
  | .array items =>
    if items.length ≤ names.length then
      some ⟨false, items.map some ++ List.replicate (names.length - items.length) none⟩
    else none
  | _ => none

abbrev FieldReader := StateT Slots Option

namespace FieldReader

def next : FieldReader (Option Json) := fun s =>
  match s.rest with
  | [] => none
  | j :: rest => some (j, { s with rest })

/-- A field that has to be written. -/
def required (read : Json → Option α) : FieldReader α := do
  match ← next with
  | some j => read j
  | none => failure

/-- A field that may be left out for a default. -/
def defaulted (absent : α) (read : Json → Option α) : FieldReader α := do
  match ← next with
  | some j => read j
  | none => pure absent

/-- A nullable field, which only an object may leave out. -/
def nullable (read : Json → Option α) : FieldReader (Option α) := do
  let named := (← get).named
  match ← next with
  | some j => j.asNullable? read
  | none => if named then pure none else failure

end FieldReader

/-- Reads a record by reading its fields in the order of `names`. -/
def asRecord? (names : List String) (read : FieldReader α) (j : Json) : Option α := do
  let s ← j.slots? names
  (read s).map Prod.fst

end ShardCompaction.Json
