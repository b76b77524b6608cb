import ShardCompaction.Proofs.Day

namespace ShardCompaction

/-- Packed instants that differ in their zone keys at most. -/
def SameAboveKey (a b : Int64) : Prop :=
  ∀ i < 64, 12 ≤ i → a.toBitVec.getLsbD i = b.toBitVec.getLsbD i

instance (a b : Int64) : Decidable (SameAboveKey a b) :=
  inferInstanceAs (Decidable (∀ i < 64, _ → _))

/-- The zone key is shifted out, and every other bit is kept. -/
theorem unpackMillis_eq_iff (a b : Int64) : unpackMillis a = unpackMillis b ↔ SameAboveKey a b := by
  have hbit : ∀ (packed : Int64) (i : Nat), (unpackMillis packed).toBitVec.getLsbD i =
      (!decide (64 ≤ i) && if 12 + i < 64 then packed.toBitVec.getLsbD (12 + i)
        else packed.toBitVec.msb) := by
    intro packed i
    exact BitVec.getLsbD_sshiftRight packed.toBitVec 12 i
  rw [← Int64.toBitVec_inj]
  constructor
  · intro h i hi hkey
    have hsame := congrArg (fun bits => bits.getLsbD (i - 12)) h
    simp only [hbit, Nat.add_sub_cancel' hkey, hi, if_true, show ¬64 ≤ i - 12 by omega,
      decide_false, Bool.not_false, Bool.true_and] at hsame
    exact hsame
  · intro h
    apply BitVec.eq_of_getLsbD_eq
    intro i hi
    have htop : a.toBitVec.msb = b.toBitVec.msb := by
      rw [BitVec.msb_eq_getLsbD_last, BitVec.msb_eq_getLsbD_last]
      exact h 63 (by omega) (by omega)
    rw [hbit, hbit, htop]
    by_cases hin : 12 + i < 64
    · rw [if_pos hin, if_pos hin, h (12 + i) hin (by omega)]
    · rw [if_neg hin, if_neg hin]

/-- The calendar begins and ends with a day. So of the instants of one local day that are looked at
by the calendar, the local times are all in it or all out of it. -/
theorem not_runsOut_of_between {zone : ZoneOffset} {first millis last : Int}
    (hfirst : first ≤ millis) (hlast : millis ≤ last)
    (hday : (first + 1000 * zone.seconds) / 86400000 = (last + 1000 * zone.seconds) / 86400000)
    (hf : ¬LocalTimeRunsOut zone first) (hl : ¬LocalTimeRunsOut zone last) :
    ¬LocalTimeRunsOut zone millis := by
  have habove := zone.above
  have hbelow := zone.below
  simp only [LocalTimeRunsOut, ← Bool.not_eq_true, isCalendarInstant_iff, earliestMillis,
    latestMillis] at hf hl ⊢
  omega

namespace ColumnType

variable {type : ColumnType} {zone : ZoneOffset} {a b a' b' : Int}

theorem floorDay?_mono {day day' : Int} (ha : a ≤ a') (hb : b ≤ b')
    (h : type.floorDay? zone a b = some day) (h' : type.floorDay? zone a' b' = some day') :
    day ≤ day' := by
  cases type with
  | date =>
    obtain rfl := Option.some.inj h
    obtain rfl := Option.some.inj h'
    omega
  | timestamp =>
    obtain rfl := Option.some.inj h
    obtain rfl := Option.some.inj h'
    dsimp only
    omega
  | timestampWithTimeZone =>
    obtain rfl := Option.some.inj h
    obtain rfl := Option.some.inj h'
    dsimp only
    omega
  | _ => simp [floorDay?, midMillis?] at h

theorem floorDay?_of_midMillis? {millis : Int} (h : type.midMillis? a b = some millis)
    (zone : ZoneOffset) :
    type.floorDay? zone a b = some ((millis + 1000 * zone.seconds) / 86400000) := by
  cases type with
  | timestamp =>
    obtain rfl := Option.some.inj h
    rfl
  | timestampWithTimeZone =>
    obtain rfl := Option.some.inj h
    rfl
  | _ => simp [midMillis?] at h

/-- The midpoint lies between the bounds. -/
theorem exists_midMillis?_between (hab : a ≤ b) {millis : Int}
    (h : type.midMillis? a b = some millis) :
    ∃ first last, type.midMillis? a a = some first ∧ type.midMillis? b b = some last ∧
      first ≤ millis ∧ millis ≤ last := by
  cases type with
  | timestamp =>
    obtain rfl := Option.some.inj h
    exact ⟨_, _, rfl, rfl, by omega, by omega⟩
  | timestampWithTimeZone =>
    obtain rfl := Option.some.inj h
    exact ⟨_, _, rfl, rfl, by omega, by omega⟩
  | _ => simp [midMillis?] at h

end ColumnType

namespace ShardRange

variable {zone : ZoneOffset} {type other : ColumnType} {a b a' b' day day' : Int64}

theorem isTemporal_of_day (h : (ofBounds type other a b).day zone = .ok day) :
    type.isTemporal = true := by
  rw [← Bool.not_eq_false]
  intro ht
  obtain ⟨d, hd⟩ : ∃ d, (ofBounds type other a b).day zone = .error d :=
    day_of_not_temporal ht (.integer a) (.integer b)
  exact nomatch h.symm.trans hd

theorem not_runsOut_of_day (h : (ofBounds type other a b).day zone = .ok day) :
    ∀ millis, type.midMillis? a.toInt b.toInt = some millis → ¬LocalTimeRunsOut zone millis := by
  intro millis hm hout
  exact nomatch h.symm.trans (day_of_runsOut hm hout other)

theorem floorDay?_of_day (h : (ofBounds type other a b).day zone = .ok day) :
    type.floorDay? zone a.toInt b.toInt = some day.toInt := by
  obtain ⟨found, hfound, hfloor⟩ :=
    exists_day_of_not_runsOut (isTemporal_of_day h) other (not_runsOut_of_day h)
  obtain rfl := Except.ok.inj (h.symm.trans hfound)
  exact hfloor

theorem day_mono (ha : a ≤ a') (hb : b ≤ b') (h : (ofBounds type other a b).day zone = .ok day)
    (h' : (ofBounds type other a' b').day zone = .ok day') : day ≤ day' := by
  rw [Int64.le_iff_toInt_le] at ha hb ⊢
  exact ColumnType.floorDay?_mono ha hb (floorDay?_of_day h) (floorDay?_of_day h')

/-- A range inside one local day has a day, and it is that one. -/
theorem day_of_same_day (hab : a ≤ b) (ha : (ofBounds type other a a).day zone = .ok day)
    (hb : (ofBounds type other b b).day zone = .ok day) :
    (ofBounds type other a b).day zone = .ok day := by
  have hin : ∀ millis, type.midMillis? a.toInt b.toInt = some millis →
      ¬LocalTimeRunsOut zone millis := by
    intro millis hm
    obtain ⟨first, last, hfirst, hlast, hle, hle'⟩ :=
      ColumnType.exists_midMillis?_between (Int64.le_iff_toInt_le.mp hab) hm
    have hsame := (floorDay?_of_day ha).trans (floorDay?_of_day hb).symm
    rw [ColumnType.floorDay?_of_midMillis? hfirst,
      ColumnType.floorDay?_of_midMillis? hlast] at hsame
    exact not_runsOut_of_between hle hle' (Option.some.inj hsame) (not_runsOut_of_day ha _ hfirst)
      (not_runsOut_of_day hb _ hlast)
  obtain ⟨found, hfound, -⟩ := exists_day_of_not_runsOut (isTemporal_of_day ha) other hin
  have hge : day ≤ found := day_mono Int64.le_rfl hab ha hfound
  have hle : found ≤ day := day_mono hab Int64.le_rfl hfound hb
  rw [hfound, Int64.le_antisymm hle hge]

/-- Neither the day nor a failure to have one depends on zone keys. -/
theorem day_eq_of_sameAboveKey (ha : SameAboveKey a a') (hb : SameAboveKey b b') (zone : ZoneOffset)
    (other : ColumnType) :
    (ofBounds .timestampWithTimeZone other a b).day zone =
      (ofBounds .timestampWithTimeZone other a' b').day zone := by
  have hday : ∀ a b, (ofBounds .timestampWithTimeZone other a b).day zone =
      dayOfMillis zone (midpoint (unpackMillis a) (unpackMillis b)) := fun _ _ => rfl
  rw [hday, hday, (unpackMillis_eq_iff a a').mpr ha, (unpackMillis_eq_iff b b').mpr hb]

/-- The day of a range grows with each of its bounds, where there is one. So it lies between the
days of the bounds, and a range inside one local day has that day. Packed instants may have any zone
key. -/
theorem day_monotone_in_bounds (zone : ZoneOffset) (type other : ColumnType) :
    (∀ a b a' b' day day', a ≤ a' → b ≤ b' → (ofBounds type other a b).day zone = .ok day →
      (ofBounds type other a' b').day zone = .ok day' → day ≤ day') ∧
    (∀ min max, min ≤ max →
      (∀ first day, (ofBounds type other min min).day zone = .ok first →
        (ofBounds type other min max).day zone = .ok day → first ≤ day) ∧
      (∀ day last, (ofBounds type other min max).day zone = .ok day →
        (ofBounds type other max max).day zone = .ok last → day ≤ last) ∧
      ∀ day, (ofBounds type other min min).day zone = .ok day →
        (ofBounds type other max max).day zone = .ok day →
        (ofBounds type other min max).day zone = .ok day) ∧
    ∀ a b a' b', SameAboveKey a a' → SameAboveKey b b' →
      (ofBounds .timestampWithTimeZone other a b).day zone =
        (ofBounds .timestampWithTimeZone other a' b').day zone := by
  refine ⟨fun a b a' b' day day' ha hb h h' => day_mono ha hb h h', ?_, ?_⟩
  · intro min max hle
    refine ⟨?_, ?_, fun day hmin hmax => day_of_same_day hle hmin hmax⟩
    · exact fun first day hfirst hday => day_mono Int64.le_rfl hle hfirst hday
    · exact fun day last hday hlast => day_mono hle Int64.le_rfl hday hlast
  · exact fun a b a' b' ha hb => day_eq_of_sameAboveKey ha hb zone other

/-- An hour east of UTC the calendar begins at one o'clock. The first of these instants comes before
it and the others after it. -/
theorem day_monotone_in_bounds_of_first_day :
    (ofBounds .timestamp .timestamp (-8334601228800005) (-8334601228800005)).day
        { seconds := 3600 } = .ok (-96465292) ∧
      (ofBounds .timestamp .timestamp (-8334601228799990) (-8334601228799990)).day
        { seconds := 3600 } = .ok (-96465292) ∧
      (ofBounds .timestamp .timestamp (-8334601228800005) (-8334601228799990)).day
        { seconds := 3600 } = .ok (-96465292) ∧
      (ofBounds .timestamp .timestamp (-8334601228799990) (-8334601028799990)).day
        { seconds := 3600 } = .ok (-96465291) ∧
      (-96465292 : Int64) ≤ -96465291 ∧ SameAboveKey (-1) (-4096) ∧
      (ofBounds .timestampWithTimeZone .timestamp (-1) (-4096)).day { seconds := 3600 } =
        (ofBounds .timestampWithTimeZone .timestamp (-4096) (-1)).day { seconds := 3600 } := by
  obtain ⟨hmono, hbetween, -⟩ :=
    day_monotone_in_bounds { seconds := 3600 } .timestamp .timestamp
  obtain ⟨-, -, hkey⟩ := day_monotone_in_bounds { seconds := 3600 } .date .timestamp
  have hless : (-8334601228800005 : Int64) ≤ -8334601228799990 := by decide
  have hlast : (-8334601228799990 : Int64) ≤ -8334601028799990 := by decide
  obtain ⟨-, -, hsame⟩ := hbetween _ _ hless
  have hinside := hsame (-96465292) rfl rfl
  exact ⟨rfl, rfl, hinside, rfl, hmono _ _ _ _ _ _ hless hlast hinside rfl, by decide,
    hkey _ _ _ _ (by decide) (by decide)⟩

end ShardRange

end ShardCompaction
