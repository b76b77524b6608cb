import ShardCompaction.Proofs.Metadata.Reachable

namespace ShardCompaction

/-- Sorting is stable: what compares as equal keeps the order that it had. -/
theorem pairwise_mergeSort_of_pairwise {α : Type} (le : α → α → Bool) {R : α → α → Prop}
    (trans : ∀ a b c, le a b = true → le b c = true → le a c = true)
    (total : ∀ a b, (le a b || le b a) = true) {xs : List α} (h : xs.Pairwise R) :
    (xs.mergeSort le).Pairwise fun a b => le a b = true ∧ (le b a = true → R a b) := by
  induction xs with
  | nil => simp
  | cons x xs ih =>
    obtain ⟨hx, hrest⟩ := List.pairwise_cons.mp h
    obtain ⟨before, after, hsort, htail, hlt⟩ := List.mergeSort_cons trans total x xs
    have hsorted := List.pairwise_mergeSort trans total (x :: xs)
    have htails := ih hrest
    rw [hsort] at hsorted ⊢
    rw [htail] at htails
    obtain ⟨hbefore, hafter, hcross⟩ := List.pairwise_append.mp htails
    obtain ⟨-, hle, -⟩ := List.pairwise_append.mp hsorted
    refine List.pairwise_append.mpr ⟨hbefore, List.pairwise_cons.mpr ⟨?_, hafter⟩, ?_⟩
    · intro b hb
      have hb' : b ∈ xs.mergeSort le := htail ▸ List.mem_append_right before hb
      have hmem : b ∈ xs := List.mem_mergeSort.mp hb'
      exact ⟨(List.pairwise_cons.mp hle).1 b hb, fun _ => hx b hmem⟩
    · intro a ha b hb
      rcases List.mem_cons.mp hb with rfl | hb
      · have hnot : le b a = false := by simpa using hlt a ha
        have hab : le a b = true := by simpa [hnot] using total a b
        exact ⟨hab, fun hba => absurd hba (by simp [hnot])⟩
      · exact hcross a ha b hb

namespace CatalogStore

variable {store : CatalogStore}

/-- The columns of a table that have a sort position, by position and then by id. -/
structure IsSortKey (store : CatalogStore) (table : Int64) (columns : List TableColumn) :
    Prop where
  mem : ∀ c, c ∈ columns ↔
    store.columnMap[(c.table, c.id)]? = some c ∧ c.table = table ∧ c.sortPosition.isSome = true
  ordered : columns.Pairwise fun a b => ∀ p ∈ a.sortPosition, ∀ q ∈ b.sortPosition,
    p < q ∨ p = q ∧ a.id < b.id

theorem pairwise_id_columns (h : store.WellKeyed) (table : Int64) :
    (store.columnMap.values.filter fun c =>
      c.table = table && c.sortPosition.isSome).Pairwise fun a b => a.id < b.id := by
  rw [FilledMap.values_eq_map_toList, List.filter_map, List.pairwise_map]
  refine List.Pairwise.imp_of_mem ?_
    (Std.TreeMap.ordered_keys_toList.filter _)
  intro a b ha hb hlt
  have hentry : ∀ e ∈ store.columnMap.toList.filter
      ((fun c : TableColumn => decide (c.table = table) && c.sortPosition.isSome) ∘ Prod.snd),
      e.1 = (table, e.2.id) := by
    intro e he
    obtain ⟨hmem, htest⟩ := List.mem_filter.mp he
    have hkey := h.column _ _ (Std.TreeMap.mem_toList_iff_getElem?_eq_some.mp hmem)
    have htable : e.2.table = table := by
      simp only [Function.comp_apply, Bool.and_eq_true, decide_eq_true_eq] at htest
      exact htest.1
    rw [← hkey, htable]
  have htable : compareIds table table = .eq := compareBy_eq_eq_iff.mpr rfl
  rw [hentry a ha, hentry b hb, compareColumnKeys, htable, Ordering.eq_then] at hlt
  exact Int64.lt_iff_toInt_lt.mpr (compareBy_eq_lt_iff.mp hlt)

theorem isSortKey_sortColumns (h : store.WellKeyed) (table : Int64) :
    store.IsSortKey table (store.sortColumns table) := by
  constructor
  · intro c
    rw [sortColumns, List.mem_mergeSort, List.mem_filter, FilledMap.mem_values_iff,
      Bool.and_eq_true, decide_eq_true_eq]
    refine and_congr_left fun _ => ?_
    constructor
    · intro hc
      obtain ⟨key, hkey⟩ := hc
      rwa [h.column key c hkey]
    · intro hc
      exact ⟨_, hc⟩
  · let position (c : TableColumn) : Nat := (c.sortPosition.map UInt32.toNat).getD 0
    have htrans : ∀ a b c : TableColumn, decide (position a ≤ position b) = true →
        decide (position b ≤ position c) = true → decide (position a ≤ position c) = true := by
      intro a b c hab hbc
      simp only [decide_eq_true_eq] at hab hbc ⊢
      omega
    have htotal : ∀ a b : TableColumn,
        (decide (position a ≤ position b) || decide (position b ≤ position a)) = true := by
      intro a b
      simp only [Bool.or_eq_true, decide_eq_true_eq]
      omega
    have hsort := pairwise_mergeSort_of_pairwise (fun a b => decide (position a ≤ position b))
      htrans htotal (pairwise_id_columns h table)
    refine hsort.imp ?_
    intro a b hab p hp q hq
    obtain ⟨hle, hid⟩ := hab
    simp only [position, Option.mem_def.mp hp, Option.mem_def.mp hq, Option.map_some,
      Option.getD_some, decide_eq_true_eq] at hle hid
    rcases Nat.lt_or_eq_of_le hle with hlt | he
    · exact .inl (UInt32.lt_iff_toNat_lt.mpr hlt)
    · exact .inr ⟨UInt32.toNat_inj.mp he, hid (Nat.le_of_eq he.symm)⟩

end CatalogStore

end ShardCompaction
