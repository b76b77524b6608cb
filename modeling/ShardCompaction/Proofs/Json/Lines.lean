import ShardCompaction.Proofs.Json.Documents

namespace ShardCompaction

namespace Json

/-- A text without control characters. -/
def Printable (cs : List Char) : Prop := ∀ c ∈ cs, 32 ≤ c.toNat

instance (cs : List Char) : Decidable (Printable cs) := List.decidableBAll _ cs

namespace Printable

variable {xs ys : List Char}

theorem append (hx : Printable xs) (hy : Printable ys) : Printable (xs ++ ys) := by
  intro c hc
  exact (List.mem_append.mp hc).elim (hx c) (hy c)

theorem cons {c : Char} (hc : 32 ≤ c.toNat) (hy : Printable ys) : Printable (c :: ys) :=
  List.forall_mem_cons.mpr ⟨hc, hy⟩

theorem nil : Printable [] := by simp [Printable]

theorem digits {ds : List Nat} (h : ∀ d ∈ ds, d < 10) : Printable (ds.map Decimal.digitChar) := by
  have all : ∀ d, d < 10 → 32 ≤ (Decimal.digitChar d).toNat := by decide
  intro c hc
  obtain ⟨d, hd, rfl⟩ := List.mem_map.mp hc
  exact all d (h d hd)

end Printable

theorem printable_escape (c : Char) : Printable (escape c) := by
  have all : ∀ d, d < 16 → 32 ≤ (Hex.digitChar d).toNat := by decide
  have hhex : Printable (Hex.ofNat 4 c.toNat) := by
    intro x hx
    obtain ⟨d, hd, rfl⟩ := List.mem_map.mp hx
    exact all d (Hex.digits_lt 4 _ d hd)
  have hshort : ∀ e : Char, 32 ≤ e.toNat → Printable ['\\', e] :=
    fun e he => .cons (by decide) (.cons he .nil)
  rw [escape]
  repeat' split
  all_goals first
    | exact hshort _ (by decide)
    | exact .cons (by decide) (.cons (by decide) hhex)
    | exact .cons (by omega) .nil

theorem printable_stringChars (s : Option String) : Printable (stringChars s) := by
  cases s with
  | none => decide
  | some s =>
    refine .cons (by decide) (.append ?_ (.cons (by decide) .nil))
    intro c hc
    obtain ⟨x, -, hx⟩ := List.mem_flatMap.mp hc
    exact printable_escape x c hx

theorem printable_numeralChars {n : Numeral} (h : n.WellFormed) : Printable (numeralChars n) := by
  rw [numeralChars_eq]
  refine .append (.append (.append ?_ (.digits h.whole_lt)) ?_) ?_
  · cases n.negative <;> decide
  · rw [fractionChars]
    split
    · exact .nil
    · exact .cons (by decide) (.digits h.fraction_lt)
  · cases he : n.exponent with
    | none => exact .nil
    | some e =>
      have hsign : 32 ≤ (if e.negative then '-' else '+').toNat := by cases e.negative <;> decide
      exact .cons (by decide) (.cons hsign (.digits (h.exponent_lt e he)))

theorem printable_itemChars {items : List Json} (h : ∀ item ∈ items, Printable item.chars) :
    Printable (itemChars items) := by
  induction items with
  | nil => exact .nil
  | cons item items ih =>
    obtain ⟨hitem, hitems⟩ := List.forall_mem_cons.mp h
    cases items with
    | nil => exact hitem
    | cons next items => exact hitem.append (.cons (by decide) (ih hitems))

theorem printable_fieldChars {fields : List (Option String × Json)}
    (h : ∀ field ∈ fields, Printable field.2.chars) : Printable (fieldChars fields) := by
  induction fields with
  | nil => exact .nil
  | cons field fields ih =>
    obtain ⟨hfield, hfields⟩ := List.forall_mem_cons.mp h
    obtain ⟨key, item⟩ := field
    have hkey := printable_stringChars key
    cases fields with
    | nil => exact hkey.append (.cons (by decide) hfield)
    | cons next fields =>
      exact (hkey.append (.cons (by decide) hfield)).append (.cons (by decide) (ih hfields))

theorem printable_chars {j : Json} (h : j.WellFormed) : Printable j.chars := by
  induction h with
  | null => decide
  | bool b => cases b <;> decide
  | number hn => exact printable_numeralChars hn
  | string s => exact printable_stringChars s
  | array _ ih =>
    exact .append (.cons (by decide) (printable_itemChars ih)) (.cons (by decide) .nil)
  | object _ ih =>
    exact .append (.cons (by decide) (printable_fieldChars ih)) (.cons (by decide) .nil)

theorem newline_not_mem_chars {j : Json} (h : j.WellFormed) : '\n' ∉ j.chars := by
  intro hmem
  exact absurd (printable_chars h _ hmem) (by decide)

/-- Lines, each of which is ended. -/
def linesText (docs : List Json) : String := String.join (docs.map fun j => j.render ++ "\n")

theorem toList_linesText_cons (j : Json) (docs : List Json) :
    (linesText (j :: docs)).toList = j.chars ++ '\n' :: (linesText docs).toList := by
  simp [linesText, render]

/-- Documents that are written line by line stand between the line feeds. -/
theorem splitOn_linesText {docs : List Json} (h : ∀ j ∈ docs, j.WellFormed) :
    (linesText docs).toList.splitOn '\n' = docs.map chars ++ [[]] := by
  induction docs with
  | nil => rfl
  | cons j docs ih =>
    obtain ⟨hj, hdocs⟩ := List.forall_mem_cons.mp h
    rw [toList_linesText_cons,
      List.splitOn_append_cons_self_of_not_mem (newline_not_mem_chars hj), ih hdocs]
    rfl

end Json

end ShardCompaction
