import ShardCompaction.Log.Basic
import ShardCompaction.Proofs.Json.Lines
import ShardCompaction.Proofs.Text.ByteOrder

namespace ShardCompaction

namespace Json

/-- Every field after the first follows a comma. -/
theorem fieldChars_cons (field : Option String × Json) (fields : List (Option String × Json)) :
    fieldChars (field :: fields) = stringChars field.1 ++ ':' :: field.2.chars ++
      fields.flatMap fun f => ',' :: stringChars f.1 ++ ':' :: f.2.chars := by
  induction fields generalizing field with
  | nil => simp [fieldChars]
  | cons next fields ih =>
    rw [fieldChars, ih next, List.flatMap_cons]
    simp

theorem record_inj {fields fields' : List (String × Json)} (h : record fields = record fields') :
    fields = fields' := by
  have hitem : Function.Injective fun f : String × Json => (some f.1, f.2) := by
    intro f g hfg
    simpa [Prod.ext_iff] using hfg
  exact hitem.list_map (Json.object.inj h)

end Json

theorem Severity.name_inj {s t : Severity} (h : s.name = t.name) : s = t := by
  cases s <;> cases t <;> first | rfl | exact absurd h (by decide)

/-- Sorting keeps the order of what compares as equal. -/
theorem filter_mergeSort_of_ties {α : Type} {le : α → α → Bool}
    (trans : ∀ a b c, le a b = true → le b c = true → le a c = true)
    (total : ∀ a b, (le a b || le b a) = true) {p : α → Bool}
    (hties : ∀ a b, p a = true → p b = true → le a b = true) (xs : List α) :
    (xs.mergeSort le).filter p = xs.filter p := by
  have hpairwise : (xs.filter p).Pairwise fun a b => le a b = true :=
    List.pairwise_of_forall_mem_list fun a ha b hb =>
      hties a b (List.mem_filter.mp ha).2 (List.mem_filter.mp hb).2
  have hsublist := (List.sublist_mergeSort trans total hpairwise List.filter_sublist).filter p
  simp only [List.filter_filter, Bool.and_self] at hsublist
  have hlength := ((List.mergeSort_perm xs le).filter p).length_eq
  exact (hsublist.eq_of_length hlength.symm).symm

namespace LogEntry

/-- The object of a line: the event, the severity, and fields in the order given. -/
def object (event : String) (severity : Severity) (fields : List LogField) : Json :=
  .record (("event", .text event) :: ("severity", .text severity.name) ::
    fields.map fun f => (f.1, .text f.2))

theorem wellFormed_object (event : String) (severity : Severity) (fields : List LogField) :
    (object event severity fields).WellFormed := by
  refine .object fun field hfield => ?_
  simp only [List.map_cons, List.map_map, List.mem_cons, List.mem_map] at hfield
  rcases hfield with rfl | rfl | ⟨f, -, rfl⟩ <;> exact .string _

theorem object_inj {event event' : String} {severity severity' : Severity}
    {fields fields' : List LogField}
    (h : object event severity fields = object event' severity' fields') :
    event = event' ∧ severity = severity' ∧ fields = fields' := by
  have hparts := Json.record_inj h
  simp only [List.cons.injEq, Prod.mk.injEq, true_and, Json.text, Json.string.injEq,
    Option.some.injEq] at hparts
  obtain ⟨hevent, hname, hfields⟩ := hparts
  have hitem : Function.Injective fun f : LogField => (f.1, Json.string (some f.2)) := by
    intro f g hfg
    simpa [Prod.ext_iff] using hfg
  exact ⟨hevent, Severity.name_inj hname, hitem.list_map hfields⟩

/-- The opening pieces of a line are names in quotes like any other. -/
theorem lineChars_eq_quoted (e : LogEntry) :
    e.lineChars = '\x7b' :: Json.quoted "event" ++ ':' :: Json.quoted e.event ++
      ',' :: Json.quoted "severity" ++ ':' :: Json.quoted e.severity.name ++
        e.sortedFields.flatMap fieldChars ++ ['}'] := by
  have hevent : "\x7b\"event\":".toList = '\x7b' :: Json.quoted "event" ++ [':'] := rfl
  have hseverity : ",\"severity\":".toList = ',' :: Json.quoted "severity" ++ [':'] := rfl
  -- The equation of `lineChars` would compute the texts of the two pieces.
  delta lineChars
  rw [hevent, hseverity]
  simp only [List.cons_append, List.append_assoc, List.nil_append]

/-- What the line of an entry holds. -/
def document (e : LogEntry) : Json := object e.event e.severity e.sortedFields

theorem wellFormed_document (e : LogEntry) : e.document.WellFormed := wellFormed_object _ _ _

theorem lineChars_eq_chars (e : LogEntry) : e.lineChars = e.document.chars := by
  rw [lineChars_eq_quoted, document, object, Json.record, Json.chars, List.map_cons,
    Json.fieldChars_cons, List.map_cons, List.flatMap_cons, List.map_map, List.flatMap_map]
  simp only [Json.text, Json.chars, Json.stringChars, List.cons_append, List.append_assoc]
  rfl

theorem line_eq_render (e : LogEntry) : e.line = e.document.render := by
  rw [line, lineChars_eq_chars, Json.render]

theorem parse_render (e : LogEntry) : Json.parse e.render = some e.document := by
  rw [render, lineChars_eq_chars]
  exact Json.parse_append_space e.wellFormed_document (by simp [Json.isSpace])

theorem count_newline_render (e : LogEntry) : e.render.toList.count '\n' = 1 := by
  have hline := Json.newline_not_mem_chars e.wellFormed_document
  rw [render, String.toList_ofList, lineChars_eq_chars, List.count_append,
    List.count_eq_zero.mpr hline, List.count_singleton_self]

theorem keyLe_iff {a b : LogField} : keyLe a b = true ↔ Text.bytes a.1 ≤ Text.bytes b.1 :=
  Text.isLE_compare_iff

theorem keyLe_trans (a b c : LogField) (hab : keyLe a b = true) (hbc : keyLe b c = true) :
    keyLe a c = true :=
  keyLe_iff.mpr (List.le_trans (keyLe_iff.mp hab) (keyLe_iff.mp hbc))

theorem keyLe_total (a b : LogField) : (keyLe a b || keyLe b a) = true := by
  rw [Bool.or_eq_true, keyLe_iff, keyLe_iff]
  exact List.le_total _ _

/-- The fields under a key. -/
def fieldsOf (key : String) (fields : List LogField) : List LogField :=
  fields.filter fun f => f.1 = key

/-- Fields in the order of the bytes of their keys. -/
def Ordered (fields : List LogField) : Prop :=
  fields.Pairwise fun a b => Text.bytes a.1 ≤ Text.bytes b.1

instance (fields : List LogField) : Decidable (Ordered fields) :=
  inferInstanceAs (Decidable (List.Pairwise _ _))

/-- The fields given, in the order of their keys, and those of one key in the order given. -/
structure SortedByKey (given sorted : List LogField) : Prop where
  perm : sorted.Perm given
  ordered : Ordered sorted
  stable : ∀ key, fieldsOf key sorted = fieldsOf key given

theorem sortedByKey_sortedFields (e : LogEntry) : SortedByKey e.fields e.sortedFields where
  perm := List.mergeSort_perm e.fields keyLe
  ordered := (List.pairwise_mergeSort keyLe_trans keyLe_total e.fields).imp keyLe_iff.mp
  stable key := by
    refine filter_mergeSort_of_ties keyLe_trans keyLe_total (fun a b ha hb => ?_) e.fields
    rw [decide_eq_true_eq] at ha hb
    rw [keyLe_iff, ha, hb]
    exact List.le_refl _

section Keys

variable {xs ys : List LogField}

theorem mem_iff_of_fieldsOf_eq (h : ∀ key, fieldsOf key xs = fieldsOf key ys) (f : LogField) :
    f ∈ xs ↔ f ∈ ys := by
  have hmem : ∀ fields, f ∈ fieldsOf f.1 fields ↔ f ∈ fields := by simp [fieldsOf]
  rw [← hmem xs, h, hmem ys]

theorem Ordered.head_le {a b : LogField} (h : Ordered (a :: xs)) (hb : b ∈ a :: xs) :
    Text.bytes a.1 ≤ Text.bytes b.1 := by
  rcases List.mem_cons.mp hb with rfl | hb
  · exact List.le_refl _
  · exact (List.pairwise_cons.mp h).1 b hb

/-- Sorted fields are decided by what stands under each key: two lists of them begin with the least
key there is, and with the first field under it. -/
theorem eq_of_fieldsOf_eq (hx : Ordered xs) (hy : Ordered ys)
    (h : ∀ key, fieldsOf key xs = fieldsOf key ys) : xs = ys := by
  induction xs generalizing ys with
  | nil =>
    cases ys with
    | nil => rfl
    | cons y ys => exact nomatch (mem_iff_of_fieldsOf_eq h y).mpr List.mem_cons_self
  | cons x xs ih =>
    have hmem := mem_iff_of_fieldsOf_eq h
    cases ys with
    | nil => exact nomatch (hmem x).mp List.mem_cons_self
    | cons y ys =>
      have hxy := hx.head_le ((hmem y).mpr List.mem_cons_self)
      have hyx := hy.head_le ((hmem x).mp List.mem_cons_self)
      have hkey : x.1 = y.1 := Text.bytes_inj (List.le_antisymm hxy hyx)
      obtain rfl : x = y := by
        have hfirst := h x.1
        simp only [fieldsOf, List.filter_cons, hkey, decide_true, if_true] at hfirst
        exact (List.cons.inj hfirst).1
      have htail : ∀ key, fieldsOf key xs = fieldsOf key ys := by
        intro key
        have hall := h key
        simp only [fieldsOf, List.filter_cons] at hall ⊢
        split at hall
        · exact (List.cons.inj hall).2
        · exact hall
      rw [ih (List.pairwise_cons.mp hx).2 (List.pairwise_cons.mp hy).2 htail]

/-- Among distinct keys there is one field under a key at most. -/
theorem fieldsOf_eq_of_perm (hperm : xs.Perm ys) (hkeys : (ys.map Prod.fst).Nodup)
    (key : String) : fieldsOf key xs = fieldsOf key ys := by
  have hone : ∀ fields : List LogField, (fields.map Prod.fst).Nodup →
      (fieldsOf key fields).Pairwise fun _ _ => False := by
    intro fields hnodup
    refine ((List.pairwise_map.mp hnodup).filter _).imp_of_mem fun ha hb hne => hne ?_
    have hb' := of_decide_eq_true (List.mem_filter.mp hb).2
    rw [of_decide_eq_true (List.mem_filter.mp ha).2, hb']
  refine (hperm.filter _).eq_of_pairwise (fun _ _ _ _ h => h.elim) (hone xs ?_) (hone ys hkeys)
  exact (hperm.map Prod.fst).nodup_iff.mpr hkeys

end Keys

/-- Lines are the same just for entries that agree in the event, in the severity and in what stands
under each key. -/
theorem render_eq_iff {e e' : LogEntry} : e.render = e'.render ↔
    e.event = e'.event ∧ e.severity = e'.severity ∧
      ∀ key, fieldsOf key e.fields = fieldsOf key e'.fields := by
  have hsort := sortedByKey_sortedFields e
  have hsort' := sortedByKey_sortedFields e'
  constructor
  · intro h
    have hdocument : some e.document = some e'.document := by
      rw [← parse_render, ← parse_render, h]
    obtain ⟨hevent, hseverity, hfields⟩ := object_inj (Option.some.inj hdocument)
    refine ⟨hevent, hseverity, fun key => ?_⟩
    rw [← hsort.stable, ← hsort'.stable, hfields]
  · rintro ⟨hevent, hseverity, hfields⟩
    have hsorted : e.sortedFields = e'.sortedFields := by
      refine eq_of_fieldsOf_eq hsort.ordered hsort'.ordered fun key => ?_
      rw [hsort.stable, hsort'.stable, hfields]
    rw [render, render, lineChars_eq_chars, lineChars_eq_chars, document, document, hevent,
      hseverity, hsorted]

end LogEntry

namespace Log

/-- The log as it is written. -/
def text (log : Log) : String := String.join (log.entries.toList.map LogEntry.render)

theorem text_eq_linesText (log : Log) :
    log.text = Json.linesText (log.entries.toList.map LogEntry.document) := by
  have hrender : ∀ e : LogEntry, e.render = e.document.render ++ "\n" := by
    intro e
    rw [LogEntry.render, LogEntry.lineChars_eq_chars, String.ofList_append, Json.render]
  rw [text, Json.linesText, List.map_map]
  exact congrArg String.join (List.map_congr_left fun e _ => hrender e)

/-- The text of a log is split into its lines and no others. -/
theorem splitOn_text (log : Log) :
    log.text.toList.splitOn '\n' = log.lines.map String.toList ++ [[]] := by
  have hline : Json.chars ∘ LogEntry.document = String.toList ∘ LogEntry.line := by
    funext e
    rw [Function.comp_apply, Function.comp_apply, LogEntry.line, String.toList_ofList,
      LogEntry.lineChars_eq_chars]
  have hdocuments : ∀ j ∈ log.entries.toList.map LogEntry.document, j.WellFormed := by
    intro j hj
    obtain ⟨e, -, rfl⟩ := List.mem_map.mp hj
    exact e.wellFormed_document
  rw [text_eq_linesText, Json.splitOn_linesText hdocuments, lines, List.map_map, List.map_map,
    hline]

theorem parse_lines (log : Log) :
    log.lines.map Json.parse = log.entries.toList.map fun e => some e.document := by
  rw [lines, List.map_map]
  refine List.map_congr_left fun e _ => ?_
  rw [Function.comp_apply, LogEntry.line_eq_render, Json.parse_render e.wellFormed_document]

end Log

namespace LogEntry

/-- An entry is written as one line, which is read back as its event, its severity and its fields by
key. Neither the order of distinct keys nor the texts change that, and in a log no entry can end the
line of another or add one. -/
theorem render_reads_back_as_entry (e : LogEntry) :
    (e.render.toList.count '\n' = 1 ∧ e.render.toList.getLast? = some '\n') ∧
    (∃ sorted, SortedByKey e.fields sorted ∧
      Json.parse e.render = some (object e.event e.severity sorted)) ∧
    (∀ fields : List LogField, (e.fields.map Prod.fst).Nodup → fields.Perm e.fields →
      ({ e with fields } : LogEntry).render = e.render) ∧
    (∀ e' : LogEntry, e'.render = e.render ↔ e'.event = e.event ∧ e'.severity = e.severity ∧
      ∀ key, fieldsOf key e'.fields = fieldsOf key e.fields) ∧
    ∀ log : Log, log.text.toList.splitOn '\n' = log.lines.map String.toList ++ [[]] ∧
      log.lines.map Json.parse = log.entries.toList.map fun e => some e.document := by
  refine ⟨⟨e.count_newline_render, ?_⟩, ⟨e.sortedFields, sortedByKey_sortedFields e,
    e.parse_render⟩, ?_, fun e' => render_eq_iff, fun log => ⟨log.splitOn_text, log.parse_lines⟩⟩
  · rw [render, String.toList_ofList, List.getLast?_concat]
  · intro fields hkeys hperm
    exact render_eq_iff.mpr ⟨rfl, rfl, fieldsOf_eq_of_perm hperm hkeys⟩

/-- An entry with quotes, line ends and whole objects in its texts. -/
def crafted : LogEntry where
  severity := .error
  event := "FAILED\"\x7d\n\x7b\"event\":\"DONE"
  fields := [("Ω", "\x01\r\n"), ("zone", "\",\"severity\":\"INFO"), ("path", "C:\\tmp\\\n")]

theorem render_reads_back_as_entry_of_crafted :
    (crafted.fields.map Prod.fst).Nodup ∧ crafted.fields.reverse.Perm crafted.fields ∧
    ({ crafted with fields := crafted.fields.reverse } : LogEntry).render = crafted.render ∧
    crafted.render.toList.count '\n' = 1 ∧
    Json.parse crafted.render = some (object crafted.event .error crafted.fields.reverse) := by
  have hkeys : (crafted.fields.map Prod.fst).Nodup := by decide
  have hperm : crafted.fields.reverse.Perm crafted.fields := List.reverse_perm _
  obtain ⟨⟨hcount, -⟩, ⟨sorted, hsorted, hparse⟩, hrender, -⟩ := render_reads_back_as_entry crafted
  have hreverse : sorted = crafted.fields.reverse := by
    refine eq_of_fieldsOf_eq hsorted.ordered (by decide) fun key => ?_
    rw [hsorted.stable, fieldsOf_eq_of_perm hperm hkeys]
  rw [hreverse] at hparse
  exact ⟨hkeys, hperm, hrender _ hkeys hperm, hcount, hparse⟩

end LogEntry

end ShardCompaction
