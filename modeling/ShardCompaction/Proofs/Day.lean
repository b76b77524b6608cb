import Mathlib.Logic.Basic
import ShardCompaction.Day.Basic

namespace ShardCompaction

theorem isCalendarInstant_iff {millis : Int} :
    isCalendarInstant millis = true ↔ earliestMillis ≤ millis ∧ millis ≤ latestMillis := by
  rw [isCalendarInstant, Bool.and_eq_true, decide_eq_true_eq, decide_eq_true_eq]

theorem toInt_midpoint (a b : Int64) : (midpoint a b).toInt = (a.toInt + b.toInt) / 2 := by
  have ha := a.le_toInt
  have hb := b.le_toInt
  have ha' := a.toInt_lt
  have hb' := b.toInt_lt
  exact Int64.toInt_ofInt_of_le (by omega) (by omega)

theorem toInt_unpackMillis (packed : Int64) :
    (unpackMillis packed).toInt = packed.toInt / 4096 := by
  have hshift : (unpackMillis packed).toInt = packed.toInt >>> (12 : Nat) := by
    rw [unpackMillis]
    exact BitVec.toInt_sshiftRight
  rw [hshift, Int.shiftRight_eq_div_pow]
  rfl

/-- The number of a day of the calendar fits into 32 bits. -/
theorem toInt_dayNumber {localMillis : Int} (h : isCalendarInstant localMillis = true) :
    (Int32.ofInt (localMillis / millisPerDay + epochDayNumber.toInt)).toInt =
      localMillis / millisPerDay + 719163 := by
  obtain ⟨hearliest, hlatest⟩ := isCalendarInstant_iff.mp h
  have hepoch : epochDayNumber.toInt = 719163 := rfl
  rw [earliestMillis] at hearliest
  rw [latestMillis] at hlatest
  rw [hepoch, millisPerDay]
  exact Int32.toInt_ofInt_of_le (by omega) (by omega)

/-- The day that the calendar counts is the floor. -/
theorem toInt_calendarDay {localMillis : Int} (h : isCalendarInstant localMillis = true) :
    ((Int32.ofInt (localMillis / millisPerDay + epochDayNumber.toInt)).toInt64 -
      epochDayNumber).toInt = localMillis / millisPerDay := by
  obtain ⟨hearliest, hlatest⟩ := isCalendarInstant_iff.mp h
  have hepoch : epochDayNumber.toInt = 719163 := rfl
  rw [earliestMillis] at hearliest
  rw [latestMillis] at hlatest
  rw [Int64.toInt_sub, Int32.toInt_toInt64, toInt_dayNumber h, hepoch, Int.add_sub_cancel,
    millisPerDay]
  exact Int.bmod_eq_of_le (by omega) (by omega)

/-- So is the day that is counted without the calendar. -/
theorem toInt_countedDay (zone : ZoneOffset) (millis : Int64) :
    (Int64.ofInt ((millis.toInt + 1000 * zone.seconds) / millisPerDay)).toInt =
      (millis.toInt + 1000 * zone.seconds) / millisPerDay := by
  have hge := millis.le_toInt
  have hlt := millis.toInt_lt
  have habove := zone.above
  have hbelow := zone.below
  rw [millisPerDay]
  exact Int64.toInt_ofInt_of_le (by omega) (by omega)

/-- An instant of the calendar whose local time is not in it. -/
def LocalTimeRunsOut (zone : ZoneOffset) (millis : Int) : Prop :=
  isCalendarInstant millis = true ∧ isCalendarInstant (millis + 1000 * zone.seconds) = false

instance (zone : ZoneOffset) (millis : Int) : Decidable (LocalTimeRunsOut zone millis) :=
  inferInstanceAs (Decidable (_ ∧ _))

theorem dayOfMillis_of_runsOut {zone : ZoneOffset} {millis : Int64}
    (h : LocalTimeRunsOut zone millis.toInt) :
    dayOfMillis zone millis = .error .localTimeOutOfRange := by
  rw [dayOfMillis, if_pos h.1, localDayNumber, if_neg (by rw [h.2]; simp)]
  rfl

/-- On both sides of the ends of the calendar the day is one floor. -/
theorem exists_dayOfMillis {zone : ZoneOffset} {millis : Int64}
    (h : ¬LocalTimeRunsOut zone millis.toInt) :
    ∃ day, dayOfMillis zone millis = .ok day ∧
      day.toInt = (millis.toInt + 1000 * zone.seconds) / millisPerDay := by
  rw [dayOfMillis]
  split
  -- In the calendar local time is too, since it does not run out.
  case isTrue hin =>
    have hlocal : isCalendarInstant (millis.toInt + 1000 * zone.seconds) = true := by
      rw [← Bool.not_eq_false]
      exact fun hout => h ⟨hin, hout⟩
    rw [localDayNumber, if_pos hlocal]
    exact ⟨_, rfl, toInt_calendarDay hlocal⟩
  case isFalse hout => exact ⟨_, rfl, toInt_countedDay zone millis⟩

theorem dayOfMillis_eq_error {zone : ZoneOffset} {millis : Int64} {d : Defect}
    (h : dayOfMillis zone millis = .error d) :
    d = .localTimeOutOfRange ∧ LocalTimeRunsOut zone millis.toInt := by
  by_cases hout : LocalTimeRunsOut zone millis.toInt
  · rw [dayOfMillis_of_runsOut hout] at h
    exact ⟨(Except.error.inj h).symm, hout⟩
  · obtain ⟨day, hday, -⟩ := exists_dayOfMillis hout
    rw [hday] at h
    exact nomatch h

/-- The midpoint, in milliseconds, of two bounds of a column of timestamps. -/
def ColumnType.midMillis? (a b : Int) : ColumnType → Option Int
  | .timestamp => some ((a + b) / 2)
  | .timestampWithTimeZone => some ((a / 4096 + b / 4096) / 2)
  | _ => none

/-- The day of two bounds in unbounded integers. Dates are days in every zone. -/
def ColumnType.floorDay? (zone : ZoneOffset) (a b : Int) (type : ColumnType) : Option Int :=
  match type with
  | .date => some ((a + b) / 2)
  | type => (type.midMillis? a b).map fun millis => (millis + 1000 * zone.seconds) / 86400000

/-- One type and one value. -/
def Tuple.IsSingle (t : Tuple) : Prop := t.types.length = 1 ∧ t.values.length = 1

instance (t : Tuple) : Decidable t.IsSingle := inferInstanceAs (Decidable (_ ∧ _))

theorem Tuple.eq_of_isSingle {t : Tuple} (h : t.IsSingle) :
    ∃ type value, t = ⟨[type], [value]⟩ := by
  obtain ⟨types, values⟩ := t
  obtain ⟨htypes, hvalues⟩ := h
  obtain ⟨type, rfl⟩ := List.length_eq_one_iff.mp htypes
  obtain ⟨value, rfl⟩ := List.length_eq_one_iff.mp hvalues
  exact ⟨type, value, rfl⟩

theorem Tuple.only?_of_not_isSingle {t : Tuple} (h : ¬t.IsSingle) : t.only? = none := by
  rw [only?]
  split
  case h_1 htypes hvalues => exact absurd ⟨by rw [htypes]; rfl, by rw [hvalues]; rfl⟩ h
  case h_2 => rfl

namespace ShardRange

/-- A range with one integer in each bound. The bounds need not be of one type. -/
def ofBounds (type other : ColumnType) (a b : Int64) : ShardRange :=
  ⟨⟨[type], [.integer a]⟩, ⟨[other], [.integer b]⟩⟩

/-- Why a range has no day. -/
inductive Undated (zone : ZoneOffset) (r : ShardRange) : Prop
  | min (h : ¬r.min.IsSingle)
  | max (h : ¬r.max.IsSingle)
  | value {value : Value} (hmem : value ∈ r.min.values ++ r.max.values)
    (h : ∀ i, value ≠ .integer i)
  | type {type : ColumnType} (hmem : type ∈ r.min.types) (h : type.isTemporal = false)
  | localTime {type other : ColumnType} {a b : Int64} {millis : Int}
    (hr : r = ofBounds type other a b) (hm : type.midMillis? a.toInt b.toInt = some millis)
    (h : LocalTimeRunsOut zone millis)

variable {zone : ZoneOffset} {r : ShardRange}

theorem day_of_not_isSingle (h : ¬(r.min.IsSingle ∧ r.max.IsSingle)) :
    r.day zone = .error (.notSingleColumn r) := by
  rw [day]
  rcases not_and_or.mp h with hmin | hmax
  · rw [Tuple.only?_of_not_isSingle hmin]
  · rw [Tuple.only?_of_not_isSingle hmax]
    cases r.min.only? <;> rfl

theorem exists_bounds (h : r.min.IsSingle ∧ r.max.IsSingle) :
    ∃ type other min max, r = ⟨⟨[type], [min]⟩, ⟨[other], [max]⟩⟩ := by
  obtain ⟨tmin, tmax⟩ := r
  obtain ⟨type, min, rfl⟩ := Tuple.eq_of_isSingle h.1
  obtain ⟨other, max, rfl⟩ := Tuple.eq_of_isSingle h.2
  exact ⟨type, other, min, max, rfl⟩

/-- The midpoint that is computed is the midpoint. -/
theorem exists_midpoint {type : ColumnType} {a b : Int64} {millis : Int}
    (h : type.midMillis? a.toInt b.toInt = some millis) (zone : ZoneOffset) (other : ColumnType) :
    ∃ mid : Int64, mid.toInt = millis ∧
      (ofBounds type other a b).day zone = dayOfMillis zone mid ∧
      type.floorDay? zone a.toInt b.toInt =
        some ((mid.toInt + 1000 * zone.seconds) / millisPerDay) := by
  cases type with
  | timestamp =>
    obtain rfl := Option.some.inj h
    have hmid := toInt_midpoint a b
    exact ⟨midpoint a b, hmid, rfl, by rw [hmid]; rfl⟩
  | timestampWithTimeZone =>
    obtain rfl := Option.some.inj h
    have hmid := toInt_midpoint (unpackMillis a) (unpackMillis b)
    rw [toInt_unpackMillis, toInt_unpackMillis] at hmid
    exact ⟨midpoint (unpackMillis a) (unpackMillis b), hmid, rfl, by rw [hmid]; rfl⟩
  | _ => simp [ColumnType.midMillis?] at h

theorem day_of_runsOut {type : ColumnType} {a b : Int64} {millis : Int}
    (hm : type.midMillis? a.toInt b.toInt = some millis) (h : LocalTimeRunsOut zone millis)
    (other : ColumnType) : (ofBounds type other a b).day zone = .error .localTimeOutOfRange := by
  obtain ⟨mid, rfl, hday, -⟩ := exists_midpoint hm zone other
  rw [hday, dayOfMillis_of_runsOut h]

theorem exists_day_of_not_runsOut {type : ColumnType} (ht : type.isTemporal = true)
    (other : ColumnType) {a b : Int64}
    (h : ∀ millis, type.midMillis? a.toInt b.toInt = some millis → ¬LocalTimeRunsOut zone millis) :
    ∃ day, (ofBounds type other a b).day zone = .ok day ∧
      type.floorDay? zone a.toInt b.toInt = some day.toInt := by
  have hmillis : ∀ millis, type.midMillis? a.toInt b.toInt = some millis →
      ∃ day, (ofBounds type other a b).day zone = .ok day ∧
        type.floorDay? zone a.toInt b.toInt = some day.toInt := by
    intro millis hm
    obtain ⟨mid, rfl, hmid, hfloor⟩ := exists_midpoint hm zone other
    obtain ⟨day, hday, he⟩ := exists_dayOfMillis (h _ hm)
    exact ⟨day, hmid.trans hday, by rw [hfloor, he]⟩
  rcases ColumnType.isTemporal_iff.mp ht with rfl | rfl | rfl
  · exact ⟨midpoint a b, rfl, congrArg some (toInt_midpoint a b).symm⟩
  · exact hmillis _ rfl
  · exact hmillis _ rfl

theorem day_of_not_integer {type other : ColumnType} {min max value : Value}
    (hmem : value ∈ [min] ++ [max]) (h : ∀ i, value ≠ .integer i) :
    ∃ d, (⟨⟨[type], [min]⟩, ⟨[other], [max]⟩⟩ : ShardRange).day zone = .error d := by
  have hnone : value.toInt64? = none := by
    cases value with
    | integer i => exact absurd rfl (h i)
    | _ => rfl
  simp only [day, Tuple.only?]
  rcases List.mem_append.mp hmem with hmin | hmax
  · obtain rfl := List.mem_singleton.mp hmin
    rw [hnone]
    exact ⟨_, rfl⟩
  · obtain rfl := List.mem_singleton.mp hmax
    rw [hnone]
    cases min.toInt64? <;> exact ⟨_, rfl⟩

theorem day_of_not_temporal {type other : ColumnType} (ht : type.isTemporal = false)
    (min max : Value) :
    ∃ d, (⟨⟨[type], [min]⟩, ⟨[other], [max]⟩⟩ : ShardRange).day zone = .error d := by
  simp only [day, Tuple.only?]
  cases min.toInt64? with
  | none => exact ⟨_, rfl⟩
  | some a =>
    cases max.toInt64? with
    | none => exact ⟨_, rfl⟩
    | some b =>
      cases type with
      | date | timestamp | timestampWithTimeZone => simp [ColumnType.isTemporal] at ht
      | _ => exact ⟨_, rfl⟩

theorem day_of_undated (h : r.Undated zone) : ∃ d, r.day zone = .error d := by
  by_cases hboth : r.min.IsSingle ∧ r.max.IsSingle
  case neg => exact ⟨_, day_of_not_isSingle hboth⟩
  cases h with
  | min h => exact absurd hboth.1 h
  | max h => exact absurd hboth.2 h
  | value hmem h =>
    obtain ⟨type, other, min, max, rfl⟩ := exists_bounds hboth
    exact day_of_not_integer hmem h
  | type hmem h =>
    obtain ⟨type, other, min, max, rfl⟩ := exists_bounds hboth
    obtain rfl := List.mem_singleton.mp hmem
    exact day_of_not_temporal h min max
  | localTime hr hm h =>
    rw [hr]
    exact ⟨_, day_of_runsOut hm h _⟩

theorem exists_day (h : ¬r.Undated zone) :
    ∃ type other a b day, r = ofBounds type other a b ∧ r.day zone = .ok day ∧
      type.floorDay? zone a.toInt b.toInt = some day.toInt := by
  obtain ⟨type, other, min, max, rfl⟩ := exists_bounds (r := r)
    ⟨of_not_not fun hmin => h (.min hmin), of_not_not fun hmax => h (.max hmax)⟩
  have hinteger : ∀ value ∈ [min] ++ [max], ∃ i, value = .integer i := fun value hmem =>
    by_contra fun hnone => h (.value hmem (not_exists.mp hnone))
  obtain ⟨a, rfl⟩ := hinteger min (by simp)
  obtain ⟨b, rfl⟩ := hinteger max (by simp)
  have htemporal : type.isTemporal = true := by
    rw [← Bool.not_eq_false]
    exact fun ht => h (.type (List.mem_singleton_self type) ht)
  obtain ⟨day, hday, hfloor⟩ := exists_day_of_not_runsOut htemporal other
    (fun millis hm hout => h (.localTime rfl hm hout))
  exact ⟨type, other, a, b, day, rfl, hday, hfloor⟩

/-- The day of any range, also of one whose bounds are of different types or lengths. It fails
exactly on a bound that is not one type and one value, on a value that is no integer, on a type that is not
temporal, and where the local time of the midpoint runs out. Otherwise it is a floor in unbounded
integers, on which none of the casts has an effect. -/
theorem day_eq_floor (zone : ZoneOffset) (r : ShardRange) :
    ((∃ d, r.day zone = .error d) ↔ r.Undated zone) ∧
    (∀ day, r.day zone = .ok day ↔ ¬r.Undated zone ∧ ∃ type other a b,
      r = ofBounds type other a b ∧ type.floorDay? zone a.toInt b.toInt = some day.toInt) ∧
    (∀ a b, (midpoint a b).toInt = (a.toInt + b.toInt) / 2) ∧
    (∀ packed, (unpackMillis packed).toInt = packed.toInt / 4096) ∧
    (∀ millis : Int64, (Int64.ofInt ((millis.toInt + 1000 * zone.seconds) / millisPerDay)).toInt =
      (millis.toInt + 1000 * zone.seconds) / millisPerDay) := by
  refine ⟨⟨?_, day_of_undated⟩, ?_, toInt_midpoint, toInt_unpackMillis, toInt_countedDay zone⟩
  · intro h
    obtain ⟨d, hd⟩ := h
    refine by_contra fun hdated => ?_
    obtain ⟨_, _, _, _, day, -, hday, -⟩ := exists_day hdated
    exact nomatch hd.symm.trans hday
  · intro day
    constructor
    · intro hday
      have hdated : ¬r.Undated zone := by
        intro h
        obtain ⟨d, hd⟩ := day_of_undated h
        exact nomatch hd.symm.trans hday
      obtain ⟨type, other, a, b, day', hr, hday', hfloor⟩ := exists_day hdated
      obtain rfl := Except.ok.inj (hday.symm.trans hday')
      exact ⟨hdated, type, other, a, b, hr, hfloor⟩
    · intro h
      obtain ⟨hdated, type, other, a, b, hr, hfloor⟩ := h
      obtain ⟨type', other', a', b', day', hr', hday', hfloor'⟩ := exists_day hdated
      simp only [hr, ofBounds, mk.injEq, Tuple.mk.injEq, List.cons.injEq, Value.integer.injEq,
        and_true] at hr'
      obtain ⟨⟨rfl, rfl⟩, rfl, rfl⟩ := hr'
      have hsame := Option.some.inj (hfloor.symm.trans hfloor')
      rw [hday', Int64.toInt_inj.mp hsame]

/-- The least bounds in the westernmost zone. -/
example : (ofBounds .timestamp .timestamp Int64.minValue Int64.minValue).day
    { seconds := -86399 } = .ok (-106751991169) := rfl

end ShardRange

end ShardCompaction
