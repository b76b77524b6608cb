import ShardCompaction.Json.Record
import ShardCompaction.Proofs.Json.Documents

namespace ShardCompaction

/-- Every integer that 64 bits hold, signed or not, is read back. -/
theorem Numeral.toInt?_ofInt {z : Int} (hlow : -0x8000000000000000 ≤ z)
    (hhigh : z < 0x10000000000000000) : (Numeral.ofInt z).toInt? = some z := by
  have hvalue : ∀ limit, z.natAbs < limit →
      Decimal.valueBelow? limit 0 (Decimal.digits z.natAbs) = some z.natAbs := by
    intro limit h
    rw [Decimal.valueBelow?_eq, Decimal.append_digits, if_pos h]
  by_cases hz : z < 0
  · have hne : z.natAbs ≠ 0 := by omega
    have hread := hvalue 0x8000000000000001 (by omega)
    calc (ofInt z).toInt? = some (-(z.natAbs : Int)) := by
          simp [toInt?, isIntegral, ofInt, hz, hread, hne]
      _ = some z := congrArg some (by omega)
  · have hread := hvalue 0x10000000000000000 (by omega)
    calc (ofInt z).toInt? = some (z.natAbs : Int) := by
          simp [toInt?, isIntegral, ofInt, hz, hread]
      _ = some z := congrArg some (by omega)

namespace Json

variable {α β : Type}

/-- A document of numerals that is read as a value. -/
structure Reads (read : Json → Option α) (j : Json) (a : α) : Prop where
  wellFormed : j.WellFormed
  read_eq : read j = some a

theorem Reads.parse {read : Json → Option α} {j : Json} {a : α} (h : Reads read j a) :
    Json.parse j.render >>= read = some a := by
  rw [parse_render h.wellFormed]
  exact h.read_eq

theorem reads_bool (b : Bool) : Reads asBool? (.bool b) b := ⟨.bool b, rfl⟩

theorem reads_text (s : String) : Reads asText? (.text s) s := ⟨.string (some s), rfl⟩

theorem wellFormed_int (z : Int) : (int z).WellFormed := .number (Numeral.wellFormed_ofInt z)

theorem asIntIn?_int {low high z : Int} (hlow : low ≤ z) (hhigh : z < high)
    (hleast : -0x8000000000000000 ≤ low) (hgreatest : high ≤ 0x10000000000000000) :
    (int z).asIntIn? low high = some z := by
  have hread : (int z).asInt? = some z := Numeral.toInt?_ofInt (by omega) (by omega)
  rw [asIntIn?, hread]
  exact if_pos ⟨hlow, hhigh⟩

theorem reads_int64 (i : Int64) : Reads asInt64? (.int64 i) i := by
  refine ⟨wellFormed_int i.toInt, ?_⟩
  have hlow := i.le_toInt
  have hhigh := i.toInt_lt
  rw [asInt64?, int64, asIntIn?_int (by omega) (by omega) (by decide) (by decide), Option.map_some,
    Int64.ofInt_toInt]

theorem reads_int32 (i : Int32) : Reads asInt32? (.int i.toInt) i := by
  refine ⟨wellFormed_int i.toInt, ?_⟩
  have hlow := i.le_toInt
  have hhigh := i.toInt_lt
  rw [asInt32?, asIntIn?_int (by omega) (by omega) (by decide) (by decide), Option.map_some,
    Int32.ofInt_toInt]

theorem reads_uint64 (n : UInt64) : Reads asUInt64? (.uint64 n) n := by
  refine ⟨wellFormed_int n.toNat, ?_⟩
  have hhigh := n.toNat_lt
  rw [asUInt64?, uint64, nat, asIntIn?_int (by omega) (by omega) (by decide) (by decide),
    Option.map_some, Int.toNat_natCast, UInt64.ofNat_toNat]

theorem reads_uint32 (n : UInt32) : Reads asUInt32? (.uint32 n) n := by
  refine ⟨wellFormed_int n.toNat, ?_⟩
  have hhigh := n.toNat_lt
  rw [asUInt32?, uint32, nat, asIntIn?_int (by omega) (by omega) (by decide) (by decide),
    Option.map_some, Int.toNat_natCast, UInt32.ofNat_toNat]

/-- Null stands for no value, and a value that is there must not be written as null. -/
theorem reads_option {read : Json → Option α} {write : α → Json} {o : Option α}
    (hnull : read .null = none) (h : ∀ a ∈ o, Reads read (write a) a) :
    Reads (asNullable? read) (.option write o) o := by
  cases o with
  | none => exact ⟨.null, rfl⟩
  | some a =>
    have ha := h a rfl
    refine ⟨ha.wellFormed, ?_⟩
    have hread := ha.read_eq
    rw [option, asNullable?]
    · rw [hread, Option.map_some]
    · intro hw
      rw [hw, hnull] at hread
      simp at hread

theorem reads_list {read : Json → Option α} {write : α → Json} {items : List α}
    (h : ∀ a ∈ items, Reads read (write a) a) : Reads (asList? read) (.list write items) items := by
  constructor
  · refine .array fun j hj => ?_
    obtain ⟨a, ha, rfl⟩ := List.mem_map.mp hj
    exact (h a ha).wellFormed
  · exact mapM_map_eq_some fun a ha => (h a ha).read_eq

namespace FieldReader

variable {read : Json → Option α} {j : Json} {rest : List (Option Json)} {named : Bool}

/-- A reader that reads a field as a value, and goes on after it. -/
def Takes (r : FieldReader α) (j : Json) (a : α) : Prop :=
  j.WellFormed ∧ ∀ rest, r ⟨true, some j :: rest⟩ = some (a, ⟨true, rest⟩)

theorem takes_required (h : Reads read j a) : Takes (required read) j a := by
  refine ⟨h.wellFormed, fun rest => ?_⟩
  change (read j >>= fun a => some (a, _)) = _
  rw [h.read_eq]
  rfl

theorem takes_defaulted (absent : α) (h : Reads read j a) : Takes (defaulted absent read) j a := by
  refine ⟨h.wellFormed, fun rest => ?_⟩
  change (read j >>= fun a => some (a, _)) = _
  rw [h.read_eq]
  rfl

theorem takes_nullable {o : Option α} (h : Reads (asNullable? read) j o) :
    Takes (nullable read) j o := by
  refine ⟨h.wellFormed, fun rest => ?_⟩
  change (j.asNullable? read >>= fun a => some (a, _)) = _
  rw [h.read_eq]
  rfl

/-- A reader that takes some fields, all of them, in their order. -/
structure TakesAll (r : FieldReader α) (fields : List Json) (a : α) : Prop where
  wellFormed : ∀ j ∈ fields, j.WellFormed
  read_eq : ∃ s, r ⟨true, fields.map some⟩ = some (a, s)

theorem takesAll_pure (a : α) : TakesAll (pure a) [] a := ⟨by simp, _, rfl⟩

theorem takesAll_bind {r : FieldReader α} {k : α → FieldReader β} {fields : List Json} {a : α}
    {b : β} (hr : Takes r j a) (hk : TakesAll (k a) fields b) :
    TakesAll (r >>= k) (j :: fields) b := by
  obtain ⟨hj, hread⟩ := hr
  obtain ⟨hfields, s, hrest⟩ := hk
  refine ⟨List.forall_mem_cons.mpr ⟨hj, hfields⟩, s, ?_⟩
  change (r ⟨true, some j :: fields.map some⟩ >>= fun p => k p.1 p.2) = _
  rw [hread]
  exact hrest

end FieldReader

theorem lookup_of_mem {fields : List (String × Json)} (hnd : (fields.map Prod.fst).Nodup)
    {field : String × Json} (h : field ∈ fields) : fields.lookup field.1 = some field.2 := by
  obtain ⟨before, after, rfl⟩ := List.append_of_mem h
  refine List.lookup_eq_some_iff.mpr ⟨before, after, rfl, fun other hother => ?_⟩
  rw [List.map_append, List.map_cons, List.nodup_append] at hnd
  have hne := hnd.2.2 other.1 (List.mem_map_of_mem hother) field.1 List.mem_cons_self
  simpa using hne.symm

/-- The slots of a record that was written with all fields under their names. -/
theorem slots?_record {names : List String} (hnd : names.Nodup) {fields : List (String × Json)}
    (hnames : fields.map Prod.fst = names) :
    (record fields).slots? names = some ⟨true, (fields.map Prod.snd).map some⟩ := by
  subst hnames
  have hnamed : (fields.map fun f => (some f.1, f.2)).mapM
      (fun f : Option String × Json => f.1.map (·, f.2)) = some fields :=
    mapM_map_eq_some fun f _ => rfl
  have hknown : (fields.filter fun f => (fields.map Prod.fst).contains f.1) = fields := by
    refine List.filter_eq_self.mpr fun f hf => ?_
    exact List.contains_iff_mem.mpr (List.mem_map_of_mem hf)
  have hslots : ((fields.map Prod.fst).map fun n => fields.lookup n) =
      (fields.map Prod.snd).map some := by
    rw [List.map_map, List.map_map]
    exact List.map_congr_left fun f hf => lookup_of_mem hnd hf
  rw [record, slots?, hnamed]
  dsimp only [bind, Option.bind]
  rw [hknown, if_pos hnd, hslots]

/-- A record is read from its fields. -/
theorem reads_record {names : List String} {r : FieldReader α} {fields : List (String × Json)}
    {a : α} (hnd : names.Nodup) (hnames : fields.map Prod.fst = names)
    (h : FieldReader.TakesAll r (fields.map Prod.snd) a) :
    Reads (asRecord? names r) (record fields) a := by
  obtain ⟨hfields, s, hread⟩ := h
  constructor
  · refine .object fun field hfield => ?_
    obtain ⟨f, hf, rfl⟩ := List.mem_map.mp hfield
    exact hfields f.2 (List.mem_map_of_mem hf)
  · rw [asRecord?, slots?_record hnd hnames]
    change (r _).map Prod.fst = _
    rw [hread]
    rfl

end Json

end ShardCompaction
