import Mathlib.Data.List.DropRight
import ShardCompaction.Proofs.RoundTrip

namespace ShardCompaction

namespace Text

/-- A text without the blanks around it. -/
structure Trims (cs core : List Char) : Prop where
  split : ∃ front back, cs = front ++ (core ++ back) ∧ (∀ c ∈ front, isBlank c = true) ∧
    ∀ c ∈ back, isBlank c = true
  head : ∀ c ∈ core.head?, isBlank c = false
  last : ∀ c ∈ core.getLast?, isBlank c = false

theorem dropWhile_append_eq {p : Char → Bool} {blanks cs : List Char}
    (hblanks : ∀ c ∈ blanks, p c = true) (hhead : ∀ c ∈ cs.head?, p c = false) :
    (blanks ++ cs).dropWhile p = cs := by
  rw [List.dropWhile_append_of_pos hblanks]
  cases cs with
  | nil => rfl
  | cons c cs => exact List.dropWhile_cons_of_neg (by simp [hhead c rfl])

theorem rdropWhile_append_eq {p : Char → Bool} {blanks cs : List Char}
    (hblanks : ∀ c ∈ blanks, p c = true) (hlast : ∀ c ∈ cs.getLast?, p c = false) :
    (cs ++ blanks).rdropWhile p = cs := by
  have hreverse : (blanks.reverse ++ cs.reverse).dropWhile p = cs.reverse :=
    dropWhile_append_eq (fun c hc => hblanks c (List.mem_reverse.mp hc))
      (fun c hc => hlast c (List.head?_reverse ▸ hc))
  rw [List.rdropWhile, List.reverse_append, hreverse, List.reverse_reverse]

theorem trims_iff {cs core : List Char} : Trims cs core ↔ trim cs = core := by
  have htrim : trim cs = (cs.dropWhile isBlank).rdropWhile isBlank := rfl
  rw [htrim]
  constructor
  · rintro ⟨⟨front, back, rfl, hfront, hback⟩, hhead, hlast⟩
    cases core with
    | nil =>
      have hall : ∀ c ∈ front ++ back, isBlank c = true := by
        intro c hc
        exact (List.mem_append.mp hc).elim (hfront c) (hback c)
      rw [List.nil_append, List.dropWhile_eq_nil_iff.mpr hall, List.rdropWhile_nil]
    | cons c core =>
      have hfirst : ∀ d ∈ (c :: core ++ back).head?, isBlank d = false := hhead
      rw [dropWhile_append_eq hfront hfirst, rdropWhile_append_eq hback hlast]
  · rintro rfl
    refine ⟨⟨cs.takeWhile isBlank, (cs.dropWhile isBlank).rtakeWhile isBlank, ?_,
      fun c hc => List.mem_takeWhile_imp hc, fun c hc => List.mem_rtakeWhile_imp hc⟩, ?_, ?_⟩
    · rw [List.rdropWhile_append_rtakeWhile, List.takeWhile_append_dropWhile]
    · intro c hc
      obtain ⟨back, hback⟩ := List.rdropWhile_prefix isBlank (l := cs.dropWhile isBlank)
      have hhead : (cs.dropWhile isBlank).head? = some c := by
        rw [← hback, List.head?_append, Option.mem_def.mp hc, Option.some_or]
      simpa [hhead] using List.head?_dropWhile_not isBlank cs
    · intro c hc
      obtain ⟨hne, rfl⟩ := List.mem_getLast?_eq_getLast hc
      simpa using List.rdropWhile_last_not isBlank _ hne

/-- Every text has exactly one form without the blanks around it. -/
theorem existsUnique_trims (cs : List Char) : ∃! core, Trims cs core :=
  ⟨trim cs, trims_iff.mpr rfl, fun _ h => (trims_iff.mp h).symm⟩

end Text

namespace Decimal

theorem digitValue?_eq_some_iff {c : Char} {d : Nat} :
    digitValue? c = some d ↔ d < 10 ∧ c = digitChar d := by
  constructor
  · intro h
    rw [digitValue?] at h
    split at h
    · rename_i hc
      obtain rfl := Option.some.inj h
      have hlow : 48 ≤ c.toNat := hc.1
      have hhigh : c.toNat ≤ 57 := hc.2
      refine ⟨by omega, ?_⟩
      rw [digitChar, Nat.add_sub_cancel' hlow, Char.ofNat_toNat]
    · cases h
  · rintro ⟨hd, rfl⟩
    exact digitValue?_digitChar hd

theorem digitChar_inj {d e : Nat} (hd : d < 10) (he : e < 10) (h : digitChar d = digitChar e) :
    d = e := by
  have hvalue := congrArg digitValue? h
  rw [digitValue?_digitChar hd, digitValue?_digitChar he] at hvalue
  exact Option.some.inj hvalue

/-- A number below a hundred, in two digits. -/
def twoDigits (n : Nat) : List Char := [digitChar (n / 10), digitChar (n % 10)]

theorem twoDigits_eq (t : Nat) {o : Nat} (ho : o < 10) :
    twoDigits (10 * t + o) = [digitChar t, digitChar o] := by
  rw [twoDigits, show (10 * t + o) / 10 = t by omega, show (10 * t + o) % 10 = o by omega]

theorem twoDigits_inj {m n : Nat} (hm : m < 100) (hn : n < 100) (h : twoDigits m = twoDigits n) :
    m = n := by
  obtain ⟨htens, htail⟩ := List.cons.inj h
  obtain ⟨hones, -⟩ := List.cons.inj htail
  have htens := digitChar_inj (by omega) (by omega) htens
  have hones := digitChar_inj (by omega) (by omega) hones
  omega

end Decimal

namespace ZoneOffset

open Decimal

/-- The signs of an offset, and the factors that they stand for. -/
inductive IsSign : Char → Int → Prop
  | plus : IsSign '+' 1
  | hyphen : IsSign '-' (-1)
  | minus : IsSign '\u2212' (-1)

/-- A text begins with an offset: a sign, two digits of hours, any colons and blanks, and two digits
of minutes. The rest is left over. -/
inductive BeginsWithOffset (cs : List Char) (seconds : Int) (rest : List Char) : Prop
  | intro {sign : Char} {factor : Int} {hours minutes : Nat} {separators : List Char}
    (hsign : IsSign sign factor) (hhours : hours < 100) (hminutes : minutes < 60)
    (hseparators : ∀ c ∈ separators, c = ':' ∨ Text.isBlank c = true)
    (htext : cs = sign :: (twoDigits hours ++ (separators ++ (twoDigits minutes ++ rest))))
    (hseconds : seconds = factor * (3600 * hours + 60 * minutes))

/-- A text spells a zone of so many seconds, and the rest is left over. -/
inductive Spells (cs : List Char) (seconds : Int) (rest : List Char) : Prop
  | utc (hname : String.ofList cs ∈ ["UTC", "utc", "Z"]) (hseconds : seconds = 0)
    (hrest : rest = [])
  | offset (hoffset : BeginsWithOffset cs seconds rest) (above : -86400 < seconds)
    (below : seconds < 86400)

theorem sign?_eq_some_iff {c : Char} {k : Int} : sign? c = some k ↔ IsSign c k := by
  constructor
  · intro h
    rw [sign?] at h
    split at h
    · rename_i hplus
      obtain rfl := Option.some.inj h
      exact hplus ▸ .plus
    · split at h
      · rename_i hminus
        obtain rfl := Option.some.inj h
        rcases hminus with rfl | hminus
        · exact .hyphen
        · obtain rfl : c = '\u2212' := Char.toNat_inj.mp hminus
          exact .minus
      · cases h
  · intro h
    cases h with
    | plus => rfl
    | hyphen => rfl
    | minus => rfl

theorem IsSign.unique {c : Char} {k l : Int} (hk : IsSign c k) (hl : IsSign c l) : k = l :=
  Option.some.inj ((sign?_eq_some_iff.mpr hk).symm.trans (sign?_eq_some_iff.mpr hl))

theorem isSeparator_iff {c : Char} : isSeparator c = true ↔ c = ':' ∨ Text.isBlank c = true := by
  rw [isSeparator, Bool.or_eq_true, beq_iff_eq]

theorem isSeparator_digitChar {d : Nat} (h : d < 10) : isSeparator (digitChar d) = false := by
  have all : ∀ d, d < 10 → isSeparator (digitChar d) = false := by decide
  exact all d h

theorem minutes?_eq_some_iff {c d : Char} {m : Nat} :
    minutes? c d = some m ↔ m < 60 ∧ [c, d] = twoDigits m := by
  constructor
  · intro h
    rw [minutes?] at h
    obtain ⟨t, htens, hrest⟩ := Option.bind_eq_some_iff.mp h
    obtain ⟨o, hones, hvalue⟩ := Option.bind_eq_some_iff.mp hrest
    obtain ⟨-, rfl⟩ := digitValue?_eq_some_iff.mp htens
    obtain ⟨ho, rfl⟩ := digitValue?_eq_some_iff.mp hones
    split at hvalue
    · obtain rfl := Option.some.inj hvalue
      exact ⟨by omega, (twoDigits_eq t ho).symm⟩
    · cases hvalue
  · rintro ⟨hm, heq⟩
    obtain ⟨rfl, htail⟩ := List.cons.inj heq
    obtain ⟨rfl, -⟩ := List.cons.inj htail
    have hvalue : 10 * (m / 10) + m % 10 = m := by omega
    rw [minutes?, digitValue?_digitChar (by omega), digitValue?_digitChar (by omega)]
    simp [hvalue, show m / 10 < 6 by omega]

theorem ofSeconds?_eq_some_iff {seconds : Int} {zone : ZoneOffset} :
    ofSeconds? seconds = some zone ↔ zone.seconds = seconds := by
  rw [ofSeconds?]
  constructor
  · intro h
    split at h
    · rw [← Option.some.inj h]
    · cases h
  · rintro rfl
    rw [dif_pos ⟨zone.above, zone.below⟩]

/-- Digits are no separators, so the separators end where the minutes begin. -/
theorem dropWhile_separators {separators : List Char} {minutes : Nat}
    (hseparators : ∀ c ∈ separators, c = ':' ∨ Text.isBlank c = true) (hminutes : minutes < 60)
    (rest : List Char) :
    (separators ++ (twoDigits minutes ++ rest)).dropWhile isSeparator =
      twoDigits minutes ++ rest := by
  apply Text.dropWhile_append_eq
  · exact fun c hc => isSeparator_iff.mpr (hseparators c hc)
  · intro c hc
    obtain rfl := Option.some.inj hc
    exact isSeparator_digitChar (by omega)

theorem exists_separators {tail cs : List Char} (h : tail.dropWhile isSeparator = cs) :
    ∃ separators, tail = separators ++ cs ∧
      ∀ c ∈ separators, c = ':' ∨ Text.isBlank c = true := by
  refine ⟨tail.takeWhile isSeparator, ?_, fun c hc => ?_⟩
  · rw [← h, List.takeWhile_append_dropWhile]
  · exact isSeparator_iff.mp (List.mem_takeWhile_imp hc)

theorem BeginsWithOffset.unique {cs rest rest' : List Char} {seconds seconds' : Int}
    (h : BeginsWithOffset cs seconds rest) (h' : BeginsWithOffset cs seconds' rest') :
    seconds = seconds' ∧ rest = rest' := by
  obtain ⟨hsign, hhours, hminutes, hseparators, rfl, rfl⟩ := h
  obtain ⟨hsign', hhours', hminutes', hseparators', htext, rfl⟩ := h'
  obtain ⟨rfl, htail⟩ := List.cons.inj htext
  obtain ⟨hhour, htail⟩ := List.append_inj htail rfl
  have hdrop := congrArg (List.dropWhile isSeparator) htail
  rw [dropWhile_separators hseparators hminutes,
    dropWhile_separators hseparators' hminutes'] at hdrop
  obtain ⟨hminute, hrest⟩ := List.append_inj hdrop rfl
  rw [hsign.unique hsign', twoDigits_inj hhours hhours' hhour,
    twoDigits_inj (by omega) (by omega) hminute]
  exact ⟨rfl, hrest⟩

/-- What follows the minutes has no part in the offset. -/
theorem ofOffsetChars?_eq_ofSeconds? {sign : Char} {factor : Int} {hours minutes : Nat}
    {separators : List Char} (hsign : IsSign sign factor) (hhours : hours < 100)
    (hminutes : minutes < 60) (hseparators : ∀ c ∈ separators, c = ':' ∨ Text.isBlank c = true)
    (rest : List Char) :
    ofOffsetChars? (sign :: (twoDigits hours ++ (separators ++ (twoDigits minutes ++ rest)))) =
      ofSeconds? (factor * (3600 * hours + 60 * minutes)) := by
  have htens := digitValue?_digitChar (d := hours / 10) (by omega)
  have hones := digitValue?_digitChar (d := hours % 10) (by omega)
  have hdrop := dropWhile_separators hseparators hminutes rest
  have hread : minutes? (digitChar (minutes / 10)) (digitChar (minutes % 10)) = some minutes :=
    minutes?_eq_some_iff.mpr ⟨hminutes, rfl⟩
  have hvalue : (10 * ((hours / 10 : Nat) : Int) + (hours % 10 : Nat)) = hours := by omega
  simp only [twoDigits, List.cons_append, List.nil_append] at hdrop ⊢
  simp only [ofOffsetChars?, sign?_eq_some_iff.mpr hsign, htens, hones, hdrop, hread, hvalue,
    Option.bind_eq_bind, Option.bind_some]

theorem ofOffsetChars?_eq_some_iff {cs : List Char} {zone : ZoneOffset} :
    ofOffsetChars? cs = some zone ↔ ∃ rest, BeginsWithOffset cs zone.seconds rest := by
  constructor
  · intro h
    unfold ofOffsetChars? at h
    split at h
    · rename_i s a b tail
      obtain ⟨factor, hsign, hread⟩ := Option.bind_eq_some_iff.mp h
      obtain ⟨t, htens, hread'⟩ := Option.bind_eq_some_iff.mp hread
      obtain ⟨o, hones, hafter⟩ := Option.bind_eq_some_iff.mp hread'
      obtain ⟨ht, rfl⟩ := digitValue?_eq_some_iff.mp htens
      obtain ⟨ho, rfl⟩ := digitValue?_eq_some_iff.mp hones
      split at hafter
      · rename_i c d rest hdrop
        obtain ⟨minutes, hminutes, hzone⟩ := Option.bind_eq_some_iff.mp hafter
        obtain ⟨hminutes, hdigits⟩ := minutes?_eq_some_iff.mp hminutes
        obtain ⟨separators, rfl, hseparators⟩ := exists_separators hdrop
        have hhours : 10 * t + o < 100 := by omega
        refine ⟨rest, .intro (sign?_eq_some_iff.mp hsign) hhours hminutes hseparators ?_ ?_⟩
        · rw [twoDigits_eq t ho, ← hdigits]
          rfl
        · rw [ofSeconds?_eq_some_iff.mp hzone]
          push_cast
          rfl
      · cases hafter
    · cases h
  · rintro ⟨rest, hsign, hhours, hminutes, hseparators, rfl, hseconds⟩
    rw [ofOffsetChars?_eq_ofSeconds? hsign hhours hminutes hseparators rest]
    exact ofSeconds?_eq_some_iff.mpr hseconds

/-- The names of UTC begin with a letter, which is no sign. -/
theorem BeginsWithOffset.ofList_not_mem {cs rest : List Char} {seconds : Int}
    (h : BeginsWithOffset cs seconds rest) : String.ofList cs ∉ ["UTC", "utc", "Z"] := by
  obtain ⟨hsign, -, -, -, rfl, -⟩ := h
  intro hname
  have unsigned : ∀ name ∈ ["UTC", "utc", "Z"], name.toList.head?.bind sign? = none := by decide
  have hnone := unsigned _ hname
  rw [String.toList_ofList, List.head?_cons, Option.bind_some, sign?_eq_some_iff.mpr hsign] at hnone
  cases hnone

theorem Spells.unique {cs rest rest' : List Char} {seconds seconds' : Int}
    (h : Spells cs seconds rest) (h' : Spells cs seconds' rest') :
    seconds = seconds' ∧ rest = rest' := by
  cases h with
  | utc hname hseconds hrest =>
    cases h' with
    | utc _ hseconds' hrest' => exact ⟨hseconds.trans hseconds'.symm, hrest.trans hrest'.symm⟩
    | offset hoffset' => exact absurd hname hoffset'.ofList_not_mem
  | offset hoffset =>
    cases h' with
    | utc hname' => exact absurd hname' hoffset.ofList_not_mem
    | offset hoffset' => exact hoffset.unique hoffset'

theorem Spells.bounded {cs rest : List Char} {seconds : Int} (h : Spells cs seconds rest) :
    -86400 < seconds ∧ seconds < 86400 := by
  cases h with
  | utc _ hseconds => omega
  | offset _ above below => exact ⟨above, below⟩

theorem ofText?_eq_some_iff {s : String} {zone : ZoneOffset} :
    ofText? s = some zone ↔ ∃ rest, Spells (Text.trim s.toList) zone.seconds rest := by
  rw [ofText?]
  split
  · rename_i hcontains
    have hname := List.contains_iff_mem.mp hcontains
    constructor
    · intro h
      obtain rfl := Option.some.inj h
      exact ⟨[], .utc hname rfl rfl⟩
    · rintro ⟨rest, hspells⟩
      have hutc : zone.seconds = utc.seconds := (hspells.unique (.utc hname rfl rfl)).1
      exact congrArg some (ZoneOffset.ext hutc).symm
  · rename_i hcontains
    rw [ofOffsetChars?_eq_some_iff]
    constructor
    · rintro ⟨rest, hoffset⟩
      exact ⟨rest, .offset hoffset zone.above zone.below⟩
    · rintro ⟨rest, hspells⟩
      cases hspells with
      | utc hname => exact absurd (List.contains_iff_mem.mpr hname) hcontains
      | offset hoffset => exact ⟨rest, hoffset⟩

end ZoneOffset

namespace Config

open ZoneOffset Decimal

/-- The complaint about a zone that is not taken. -/
def unknownZone (c : Config) : ConfigError :=
  .invalid ("time_zone '" ++ c.timeZone ++ "' is not 'UTC' or a '+hh:mm' offset")

/-- Settings are turned down wherever their zone is read. A batch size of zero is found first. -/
structure RefusesZone (c : Config) : Prop where
  zone : c.zone = .error c.unknownZone
  validate : ∃ e, c.validate = .error e ∧ e.code = "SHARD_CONFIG_INVALID" ∧
    (c.batchSize ≠ 0 → e = c.unknownZone)
  ofText : ∀ text, (Json.parse text >>= ofJson?) = some c →
    ∃ e, ofText text = .error e ∧ e.code = "SHARD_CONFIG_INVALID" ∧
      (c.batchSize ≠ 0 → e = c.unknownZone)

theorem zone_eq_ok_iff {c : Config} {zone : ZoneOffset} :
    c.zone = .ok zone ↔ ofText? c.timeZone = some zone := by
  cases hfound : ofText? c.timeZone <;> simp [Config.zone, hfound]

theorem zone_eq_error_of_none {c : Config} (h : ofText? c.timeZone = none) :
    c.zone = .error c.unknownZone := by
  rw [Config.zone, h]
  rfl

theorem refusesZone_of_none {c : Config} (h : ofText? c.timeZone = none) : c.RefusesZone := by
  have hzone := zone_eq_error_of_none h
  have hvalidate : ∃ e, c.validate = .error e ∧ e.code = "SHARD_CONFIG_INVALID" ∧
      (c.batchSize ≠ 0 → e = c.unknownZone) := by
    rw [validate]
    split
    · rename_i hzero
      exact ⟨_, rfl, rfl, fun hbatch => absurd hzero hbatch⟩
    · rw [hzone]
      exact ⟨_, rfl, rfl, fun _ => rfl⟩
  refine ⟨hzone, hvalidate, fun text hread => ?_⟩
  obtain ⟨e, hinvalid, he⟩ := hvalidate
  refine ⟨e, ?_, he⟩
  rw [ofText_of_read hread, hinvalid]
  rfl

section Trimmed

variable {c : Config} {core : List Char}

theorem zone_eq_ok_iff_spells (htrims : Text.Trims c.timeZone.toList core) (zone : ZoneOffset) :
    c.zone = .ok zone ↔ ∃ rest, Spells core zone.seconds rest := by
  obtain rfl := Text.trims_iff.mp htrims
  exact zone_eq_ok_iff.trans ofText?_eq_some_iff

theorem exists_zone_iff_spells (htrims : Text.Trims c.timeZone.toList core) :
    (∃ zone, c.zone = .ok zone) ↔ ∃ seconds rest, Spells core seconds rest := by
  constructor
  · rintro ⟨zone, hzone⟩
    exact ⟨zone.seconds, (zone_eq_ok_iff_spells htrims zone).mp hzone⟩
  · rintro ⟨seconds, rest, hspells⟩
    have hbounds := hspells.bounded
    exact ⟨⟨seconds, hbounds.1, hbounds.2⟩, (zone_eq_ok_iff_spells htrims _).mpr ⟨rest, hspells⟩⟩

theorem refusesZone_of_not_spells (htrims : Text.Trims c.timeZone.toList core)
    (h : ∀ seconds rest, ¬Spells core seconds rest) : c.RefusesZone := by
  apply refusesZone_of_none
  rw [Option.eq_none_iff_forall_ne_some]
  intro zone hzone
  obtain ⟨rest, hspells⟩ := (zone_eq_ok_iff_spells htrims zone).mp (zone_eq_ok_iff.mpr hzone)
  exact h zone.seconds rest hspells

end Trimmed

/-- Settings name a zone if, without the blanks around it, their text spells one: a name of UTC or
an offset of less than a day. The zone is the one that is spelled, whatever is left over after it.
If nothing is spelled, the settings are turned down. -/
theorem zone_taken_iff_spelled {c : Config} {core : List Char}
    (htrims : Text.Trims c.timeZone.toList core) :
    (∀ zone, c.zone = .ok zone ↔ ∃ rest, Spells core zone.seconds rest) ∧
      (∀ seconds rest, Spells core seconds rest → -86400 < seconds ∧ seconds < 86400 ∧
        ∀ seconds' rest', Spells core seconds' rest' → seconds' = seconds ∧ rest' = rest) ∧
      ((∀ seconds rest, ¬Spells core seconds rest) → c.RefusesZone) ∧
      (c.validate = .ok () ↔ c.batchSize ≠ 0 ∧ (∃ seconds rest, Spells core seconds rest) ∧
        ∃ minimum, c.severity = .ok minimum) ∧
      ∀ text, ofText text = .ok c → ∃ seconds rest, Spells core seconds rest := by
  have hvalidate := validate_eq_ok_iff (c := c)
  rw [exists_zone_iff_spells htrims] at hvalidate
  refine ⟨zone_eq_ok_iff_spells htrims, ?_, refusesZone_of_not_spells htrims, hvalidate, ?_⟩
  · intro seconds rest hspells
    have hbounds := hspells.bounded
    exact ⟨hbounds.1, hbounds.2, fun _ _ hspells' => hspells'.unique hspells⟩
  · intro text hread
    obtain ⟨-, hvalid⟩ := ofText_eq_ok_iff.mp hread
    exact (hvalidate.mp hvalid).2.1

/-- Settings with blanks around and within their zone. -/
def spacedZone : Config := { default with timeZone := " \u221209 : 30\t" }

/-- Settings with an offset of a whole day. -/
def wholeDayZone : Config := { default with timeZone := "-24:00" }

theorem zone_taken_iff_spelled_of_spaced :
    Text.Trims spacedZone.timeZone.toList "\u221209 : 30".toList ∧
      Spells "\u221209 : 30".toList (-34200) [] ∧
      spacedZone.zone = .ok ⟨-34200, by decide, by decide⟩ ∧ wholeDayZone.RefusesZone := by
  have htrims : Text.Trims spacedZone.timeZone.toList "\u221209 : 30".toList :=
    Text.trims_iff.mpr (by decide)
  have htext : "\u221209 : 30".toList =
      '\u2212' :: (twoDigits 9 ++ ([' ', ':', ' '] ++ (twoDigits 30 ++ []))) := rfl
  have hoffset : BeginsWithOffset "\u221209 : 30".toList (-34200) [] :=
    .intro .minus (by decide) (by decide) (by simp [Text.isBlank]) htext rfl
  have hspells : Spells "\u221209 : 30".toList (-34200) [] :=
    .offset hoffset (by decide) (by decide)
  obtain ⟨core, hday, -⟩ := Text.existsUnique_trims wholeDayZone.timeZone.toList
  refine ⟨htrims, hspells, ((zone_taken_iff_spelled htrims).1 _).mpr ⟨[], hspells⟩,
    (zone_taken_iff_spelled hday).2.2.1 fun seconds rest hspells => ?_⟩
  have hbounds := hspells.bounded
  have hzone : wholeDayZone.zone = .ok ⟨seconds, hbounds.1, hbounds.2⟩ :=
    ((zone_taken_iff_spelled hday).1 _).mpr ⟨rest, hspells⟩
  cases hzone

/-- Settings with letters after the minutes of their zone. -/
def trailingZone : Config := { default with timeZone := "+05:30abc" }

theorem trailingZone_taken :
    ofText trailingZone.toJson.render = .ok trailingZone ∧
      trailingZone.zone = .ok ⟨19800, by decide, by decide⟩ ∧
      Text.Trims trailingZone.timeZone.toList "+05:30abc".toList ∧
      ∀ seconds, ¬Spells "+05:30abc".toList seconds [] := by
  have htext : "+05:30abc".toList =
      '+' :: (twoDigits 5 ++ ([':'] ++ (twoDigits 30 ++ ['a', 'b', 'c']))) := rfl
  have hoffset : BeginsWithOffset "+05:30abc".toList 19800 ['a', 'b', 'c'] :=
    .intro .plus (by decide) (by decide) (by simp) htext rfl
  refine ⟨ofText_render rfl, rfl, Text.trims_iff.mpr (by decide), fun seconds hspells => ?_⟩
  cases (hspells.unique (.offset hoffset (by decide) (by decide))).2

end Config

end ShardCompaction
