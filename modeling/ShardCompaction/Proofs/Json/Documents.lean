import Mathlib.Data.List.TakeWhile
import ShardCompaction.Proofs.Json.Strings

namespace ShardCompaction

/-- Digits as a numeral allows them: at least one, and no zero before others. -/
structure Numeral.WellFormed (n : Numeral) : Prop where
  whole_ne_nil : n.whole ≠ []
  whole_lt : ∀ d ∈ n.whole, d < 10
  leading : ∀ ds, n.whole = 0 :: ds → ds = []
  fraction_lt : ∀ d ∈ n.fraction, d < 10
  exponent_ne_nil : ∀ e ∈ n.exponent, e.digits ≠ []
  exponent_lt : ∀ e ∈ n.exponent, ∀ d ∈ e.digits, d < 10

theorem Numeral.wellFormed_ofInt (z : Int) : (Numeral.ofInt z).WellFormed where
  whole_ne_nil := Decimal.digits_ne_nil _
  whole_lt := Decimal.digits_lt _
  leading _ h := Decimal.digits_eq_zero_cons h
  fraction_lt _ h := nomatch h
  exponent_ne_nil _ h := nomatch h
  exponent_lt _ h := nomatch h

namespace Json

open Decimal

/-- A document of numerals. -/
inductive WellFormed : Json → Prop
  | null : WellFormed .null
  | bool (b : Bool) : WellFormed (.bool b)
  | number {n : Numeral} (h : n.WellFormed) : WellFormed (.number n)
  | string (s : Option String) : WellFormed (.string s)
  | array {items : List Json} (h : ∀ item ∈ items, WellFormed item) : WellFormed (.array items)
  | object {fields : List (Option String × Json)} (h : ∀ field ∈ fields, WellFormed field.2) :
    WellFormed (.object fields)

/-- The separator and the closing brackets, and white space. -/
def endChars : List Char := [',', ']', '}', ' ', '\t', '\n', '\r']

/-- What may follow a value. -/
def Ends (cs : List Char) : Prop := ∀ c ∈ cs.head?, c ∈ endChars

theorem ends_cons {c : Char} (h : c ∈ endChars) (cs : List Char) : Ends (c :: cs) := by
  intro d hd
  rwa [← Option.some.inj hd]

theorem ends_of_space {ws : List Char} (h : ∀ c ∈ ws, isSpace c = true) : Ends ws := by
  intro c hc
  have hspace := h c (List.mem_of_mem_head? hc)
  simp only [isSpace, Bool.or_eq_true, beq_iff_eq] at hspace
  rcases hspace with ((rfl | rfl) | rfl) | rfl <;> decide

section Numerals

variable {n : Numeral} {rest : List Char}

def fractionChars (ds : List Nat) : List Char :=
  if ds.isEmpty then [] else '.' :: ds.map digitChar

def exponentChars : Option Exponent → List Char
  | none => []
  | some e => 'e' :: (if e.negative then '-' else '+') :: e.digits.map digitChar

theorem numeralChars_eq (n : Numeral) :
    numeralChars n = (if n.negative then ['-'] else []) ++ n.whole.map digitChar ++
      fractionChars n.fraction ++ exponentChars n.exponent := rfl

theorem digitChar_ne_minus {d : Nat} (h : d < 10) : digitChar d ≠ '-' := by
  have all : ∀ d, d < 10 → digitChar d ≠ '-' := by decide
  exact all d h

theorem Ends.noDigit (h : Ends rest) : NoDigit rest := by
  have all : ∀ c ∈ endChars, digitValue? c = none := by simp [endChars, digitValue?]
  exact fun c hc => all c (h c hc)

theorem noDigit_exponentChars (e : Option Exponent) (h : Ends rest) :
    NoDigit (exponentChars e ++ rest) := by
  cases e with
  | none => exact h.noDigit
  | some e =>
    intro c hc
    obtain rfl : 'e' = c := Option.some.inj hc
    rfl

theorem noDigit_fractionChars (ds : List Nat) {cs : List Char} (h : NoDigit cs) :
    NoDigit (fractionChars ds ++ cs) := by
  cases ds with
  | nil => exact h
  | cons d ds =>
    intro c hc
    obtain rfl : '.' = c := Option.some.inj hc
    rfl

theorem readExponent_exponentChars {e : Option Exponent} (hne : ∀ x ∈ e, x.digits ≠ [])
    (hlt : ∀ x ∈ e, ∀ d ∈ x.digits, d < 10) (h : Ends rest) :
    readExponent (exponentChars e ++ rest) = some (e, rest) := by
  cases e with
  | none =>
    rw [exponentChars, List.nil_append]
    cases rest with
    | nil => rfl
    | cons c rest =>
      have all : ∀ c ∈ endChars, c ≠ 'e' ∧ c ≠ 'E' := by simp [endChars]
      obtain ⟨hlower, hupper⟩ := all c (h c rfl)
      rw [readExponent]
      all_goals simp [hlower, hupper]
  | some e =>
    obtain ⟨negative, ds⟩ := e
    have htake : takeDigits (ds.map digitChar ++ rest) = (ds, rest) :=
      takeDigits_append (hlt _ rfl) h.noDigit
    cases ds with
    | nil => exact absurd rfl (hne _ rfl)
    | cons d ds =>
      have hread : ∀ cs, takeDigits cs = (d :: ds, rest) →
          readExponent ('e' :: (if negative then '-' else '+') :: cs) =
            some (some ⟨negative, d :: ds⟩, rest) := by
        intro cs hcs
        cases negative <;> simp [readExponent, hcs]
      exact hread _ htake

theorem readFraction_fractionChars {ds : List Nat} (hlt : ∀ d ∈ ds, d < 10) {cs : List Char}
    (h : NoDigit cs) (hpoint : ∀ c ∈ cs.head?, c ≠ '.') :
    readFraction (fractionChars ds ++ cs) = some (ds, cs) := by
  cases ds with
  | nil =>
    change readFraction cs = some ([], cs)
    cases cs with
    | nil => rfl
    | cons c cs =>
      have hc := hpoint c rfl
      rw [readFraction]
      simpa using hc
  | cons d ds =>
    have htake := takeDigits_append hlt h
    rw [fractionChars, if_neg (by simp), List.cons_append, readFraction, htake]

/-- A numeral after its sign. -/
def readUnsigned (negative : Bool) (cs : List Char) : Option (Numeral × List Char) :=
  match takeDigits cs with
  | ([], _) => none
  | (0 :: _ :: _, _) => none
  | (ds, rest) => do
    let (fraction, rest) ← readFraction rest
    let (exponent, rest) ← readExponent rest
    some (⟨negative, ds, fraction, exponent⟩, rest)

theorem readNumeral_of_ne {c : Char} (h : c ≠ '-') (cs : List Char) :
    readNumeral (c :: cs) = readUnsigned false (c :: cs) := by
  rw [readNumeral]
  · rfl
  · simp [h]

theorem readUnsigned_chars (hn : n.WellFormed) (h : Ends rest) :
    readUnsigned n.negative (n.whole.map digitChar ++
      (fractionChars n.fraction ++ (exponentChars n.exponent ++ rest))) = some (n, rest) := by
  have htail := noDigit_exponentChars n.exponent h
  have hpoint : ∀ c ∈ (exponentChars n.exponent ++ rest).head?, c ≠ '.' := by
    intro c hc
    cases he : n.exponent with
    | none =>
      rw [he] at hc
      have all : ∀ c ∈ endChars, c ≠ '.' := by simp [endChars]
      exact all c (h c hc)
    | some e =>
      rw [he] at hc
      obtain rfl : 'e' = c := Option.some.inj hc
      decide
  have hwhole := takeDigits_append hn.whole_lt (noDigit_fractionChars n.fraction htail)
  have hfraction := readFraction_fractionChars hn.fraction_lt htail hpoint
  have hexponent := readExponent_exponentChars hn.exponent_ne_nil hn.exponent_lt h
  rw [readUnsigned, hwhole]
  split
  · rename_i heq
    exact absurd (Prod.mk.inj heq).1 hn.whole_ne_nil
  · rename_i heq
    exact absurd (hn.leading _ (Prod.mk.inj heq).1) (by simp)
  · rename_i heq
    obtain ⟨rfl, rfl⟩ := Prod.mk.inj heq
    simp [hfraction, hexponent]

theorem readNumeral_numeralChars (hn : n.WellFormed) (h : Ends rest) :
    readNumeral (numeralChars n ++ rest) = some (n, rest) := by
  have hunsigned := readUnsigned_chars hn h
  rw [numeralChars_eq, List.append_assoc, List.append_assoc, List.append_assoc]
  cases hsign : n.negative with
  | true =>
    rw [hsign] at hunsigned
    exact hunsigned
  | false =>
    rw [hsign] at hunsigned
    cases hw : n.whole with
    | nil => exact absurd hw hn.whole_ne_nil
    | cons d ds =>
      have hd : digitChar d ≠ '-' := digitChar_ne_minus (hn.whole_lt d (by simp [hw]))
      rw [hw] at hunsigned
      exact (readNumeral_of_ne hd _).trans hunsigned

theorem exists_numeralChars (h : n.WellFormed) :
    ∃ c cs, numeralChars n = c :: cs ∧ (c = '-' ∨ ∃ d < 10, c = digitChar d) := by
  obtain ⟨negative, whole, fraction, exponent⟩ := n
  cases negative with
  | true => exact ⟨_, _, rfl, .inl rfl⟩
  | false =>
    cases whole with
    | nil => exact absurd rfl h.whole_ne_nil
    | cons d ds => exact ⟨_, _, rfl, .inr ⟨d, h.whole_lt d List.mem_cons_self, rfl⟩⟩

end Numerals

theorem skipSpace_cons {c : Char} (h : isSpace c = false) (cs : List Char) :
    skipSpace (c :: cs) = c :: cs := by
  rw [skipSpace, List.dropWhile_cons_of_neg (by simp [h])]

/-- Signs and digits begin numbers and no other values. -/
theorem readValue_numeral {c : Char} (h : c = '-' ∨ ∃ d < 10, c = digitChar d) (fuel : Nat)
    (cs : List Char) : readValue (fuel + 1) (c :: cs) =
      (readNumeral (c :: cs)).map fun r => (.number r.1, r.2) := by
  have all : ∀ d, d < 10 → isSpace (digitChar d) = false ∧
      digitChar d ∉ ['n', 't', 'f', '"', '[', '{'] := by decide
  have hc : isSpace c = false ∧ c ∉ ['n', 't', 'f', '"', '[', '{'] := by
    rcases h with rfl | ⟨d, hd, rfl⟩
    · exact ⟨rfl, by decide⟩
    · exact all d hd
  simp only [List.mem_cons, not_or] at hc
  obtain ⟨hspace, hn, ht, hf, hquote, hlist, hobject, -⟩ := hc
  rw [readValue, skipSpace_cons hspace]
  split <;> simp_all
  cases readNumeral (c :: cs) <;> rfl

/-- What the written form of a value begins with. -/
theorem exists_chars {j : Json} (h : j.WellFormed) :
    ∃ c cs, j.chars = c :: cs ∧ isSpace c = false ∧ c ≠ ']' := by
  cases h with
  | null => exact ⟨_, _, rfl, rfl, by decide⟩
  | bool b => cases b <;> exact ⟨_, _, rfl, rfl, by decide⟩
  | string s =>
    obtain ⟨body, hbody, -⟩ := exists_stringChars s
    exact ⟨_, _, hbody, rfl, by decide⟩
  | array h => exact ⟨_, _, rfl, rfl, by decide⟩
  | object h => exact ⟨_, _, rfl, rfl, by decide⟩
  | number h =>
    obtain ⟨c, cs, hchars, hc⟩ := exists_numeralChars h
    refine ⟨c, cs, hchars, ?_⟩
    have all : ∀ d, d < 10 → isSpace (digitChar d) = false ∧ digitChar d ≠ ']' := by decide
    rcases hc with rfl | ⟨d, hd, rfl⟩
    · decide
    · exact all d hd

theorem exists_itemChars {items : List Json} (hne : items ≠ [])
    (h : ∀ item ∈ items, item.WellFormed) :
    ∃ c cs, itemChars items = c :: cs ∧ isSpace c = false ∧ c ≠ ']' := by
  match items with
  | [] => exact absurd rfl hne
  | [item] => exact exists_chars (h item List.mem_cons_self)
  | item :: next :: items =>
    obtain ⟨c, cs, hchars, hc⟩ := exists_chars (h item List.mem_cons_self)
    exact ⟨c, _, by rw [itemChars, hchars, List.cons_append], hc⟩

theorem exists_fieldChars (field : Option String × Json) (fields : List (Option String × Json)) :
    ∃ cs, fieldChars (field :: fields) = '"' :: cs := by
  obtain ⟨key, item⟩ := field
  obtain ⟨body, hbody, -⟩ := exists_stringChars key
  cases fields with
  | nil => exact ⟨_, by rw [fieldChars, hbody, List.cons_append]⟩
  | cons next fields =>
    exact ⟨_, by rw [fieldChars, hbody, List.append_assoc, List.cons_append]⟩

/-- The value is read back wherever it may end, with fuel for its length. -/
def ReadsBack (j : Json) : Prop :=
  ∀ fuel rest, j.chars.length ≤ fuel → Ends rest →
    readValue (fuel + 1) (j.chars ++ rest) = some (j, rest)

theorem readItems_itemChars {items : List Json} (hne : items ≠ [])
    (h : ∀ item ∈ items, ReadsBack item) {fuel : Nat} (hfuel : (itemChars items).length + 2 ≤ fuel)
    (rest : List Char) :
    readItems fuel (itemChars items ++ ']' :: rest) = some (items, rest) := by
  induction items generalizing fuel with
  | nil => exact absurd rfl hne
  | cons item items ih =>
    obtain ⟨hitem, hitems⟩ := List.forall_mem_cons.mp h
    obtain ⟨fuel, rfl⟩ : ∃ n, fuel = n + 2 := ⟨fuel - 2, by omega⟩
    cases items with
    | nil =>
      rw [itemChars] at hfuel ⊢
      have hread := hitem fuel (']' :: rest) (by omega) (ends_cons (by decide) rest)
      rw [readItems, hread]
      rfl
    | cons next items =>
      rw [itemChars, List.length_append, List.length_cons] at hfuel
      have hread := hitem fuel (',' :: (itemChars (next :: items) ++ ']' :: rest)) (by omega)
        (ends_cons (by decide) _)
      have hmore : readItems (fuel + 1) (itemChars (next :: items) ++ ']' :: rest) =
          some (next :: items, rest) := ih (by simp) hitems (by omega)
      rw [itemChars, List.append_assoc, List.cons_append, readItems, hread]
      simp [skipSpace, isSpace, hmore]

theorem readFields_fieldChars {fields : List (Option String × Json)} (hne : fields ≠ [])
    (h : ∀ field ∈ fields, ReadsBack field.2) {fuel : Nat}
    (hfuel : (fieldChars fields).length + 2 ≤ fuel) (rest : List Char) :
    readFields fuel (fieldChars fields ++ '}' :: rest) = some (fields, rest) := by
  induction fields generalizing fuel with
  | nil => exact absurd rfl hne
  | cons field fields ih =>
    obtain ⟨hfield, hfields⟩ := List.forall_mem_cons.mp h
    obtain ⟨fuel, rfl⟩ : ∃ n, fuel = n + 2 := ⟨fuel - 2, by omega⟩
    obtain ⟨key, item⟩ := field
    obtain ⟨body, hbody, hkey⟩ := exists_stringChars key
    have hitem : ReadsBack item := hfield
    cases fields with
    | nil =>
      have htext : fieldChars [(key, item)] ++ '}' :: rest =
          '"' :: (body ++ ':' :: (item.chars ++ '}' :: rest)) := by
        simp [fieldChars, hbody]
      have hlength : (fieldChars [(key, item)]).length = body.length + item.chars.length + 2 := by
        simp [fieldChars, hbody]
        omega
      have hread := hitem fuel ('}' :: rest) (by omega) (ends_cons (by decide) rest)
      rw [htext, readFields]
      simp [hkey, hread, skipSpace, isSpace]
    | cons next fields =>
      have htext : fieldChars ((key, item) :: next :: fields) ++ '}' :: rest =
          '"' :: (body ++ ':' :: (item.chars ++
            ',' :: (fieldChars (next :: fields) ++ '}' :: rest))) := by
        simp [fieldChars, hbody]
      have hlength : (fieldChars ((key, item) :: next :: fields)).length =
          body.length + item.chars.length + (fieldChars (next :: fields)).length + 3 := by
        simp [fieldChars, hbody]
        omega
      have hread := hitem fuel (',' :: (fieldChars (next :: fields) ++ '}' :: rest)) (by omega)
        (ends_cons (by decide) _)
      have hmore : readFields (fuel + 1) (fieldChars (next :: fields) ++ '}' :: rest) =
          some (next :: fields, rest) := ih (by simp) hfields (by omega)
      rw [htext, readFields]
      simp [hkey, hread, hmore, skipSpace, isSpace]

theorem readsBack {j : Json} (h : j.WellFormed) : ReadsBack j := by
  induction h with
  | null =>
    intro fuel rest _ _
    rfl
  | bool b =>
    intro fuel rest _ _
    cases b <;> rfl
  | @number n hn =>
    intro fuel rest _ hends
    obtain ⟨c, cs, hfirst, hc⟩ := exists_numeralChars hn
    have hread := readNumeral_numeralChars hn hends
    rw [hfirst, List.cons_append] at hread
    rw [chars, hfirst, List.cons_append, readValue_numeral hc, hread]
    rfl
  | string s =>
    intro fuel rest _ _
    obtain ⟨body, hbody, hread⟩ := exists_stringChars s
    rw [chars, hbody, List.cons_append, readValue, skipSpace_cons rfl]
    simp [hread]
  | @array items hitems ih =>
    intro fuel rest hfuel _
    have htext : (array items).chars ++ rest = '[' :: (itemChars items ++ ']' :: rest) := by
      simp [chars]
    rw [htext, readValue, skipSpace_cons rfl]
    cases items with
    | nil => rfl
    | cons item items =>
      obtain ⟨c, cs, hfirst, hspace, hclose⟩ := exists_itemChars (by simp) hitems
      rw [chars, List.length_append, List.length_cons, List.length_singleton] at hfuel
      have hread : readItems fuel (itemChars (item :: items) ++ ']' :: rest) =
        some (item :: items, rest) := readItems_itemChars (by simp) ih (by omega) rest
      rw [hfirst, List.cons_append] at hread ⊢
      simp only [skipSpace_cons hspace]
      split
      · rename_i heq
        exact absurd (List.cons.inj heq).1 hclose
      · rw [hread]
        rfl
  | @object fields _ ih =>
    intro fuel rest hfuel _
    have htext : (object fields).chars ++ rest = '{' :: (fieldChars fields ++ '}' :: rest) := by
      simp [chars]
    rw [htext, readValue, skipSpace_cons rfl]
    cases fields with
    | nil => rfl
    | cons field fields =>
      rw [chars, List.length_append, List.length_cons, List.length_singleton] at hfuel
      have hread : readFields fuel (fieldChars (field :: fields) ++ '}' :: rest) =
        some (field :: fields, rest) := readFields_fieldChars (by simp) ih (by omega) rest
      obtain ⟨body, hfirst⟩ := exists_fieldChars field fields
      rw [hfirst, List.cons_append] at hread ⊢
      simp [skipSpace, isSpace, hread]

/-- The text of a document holds the document, with white space after it or without. -/
theorem parse_append_space {j : Json} (h : j.WellFormed) {ws : List Char}
    (hws : ∀ c ∈ ws, isSpace c = true) : parse (String.ofList (j.chars ++ ws)) = some j := by
  have hread := readsBack h (2 * (j.chars ++ ws).length) ws
    (by rw [List.length_append]; omega) (ends_of_space hws)
  have hskip : skipSpace ws = [] := List.dropWhile_eq_nil_iff.mpr hws
  rw [parse, String.toList_ofList, hread]
  simp [hskip]

theorem parse_render {j : Json} (h : j.WellFormed) : parse j.render = some j := by
  have hparse := parse_append_space h (List.forall_mem_nil _)
  rwa [List.append_nil] at hparse

end Json

end ShardCompaction
