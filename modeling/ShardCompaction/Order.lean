namespace ShardCompaction

/-- The order of the integers that `code` gives. -/
def compareBy (code : α → Int) (a b : α) : Ordering := compareOfLessAndEq (code a) (code b)

theorem compareBy_eq_lt_iff {code : α → Int} {a b : α} :
    compareBy code a b = .lt ↔ code a < code b :=
  compareOfLessAndEq_eq_lt

theorem compareBy_eq_eq_iff {code : α → Int} {a b : α} :
    compareBy code a b = .eq ↔ code a = code b :=
  compareOfLessAndEq_eq_eq Int.le_refl Int.not_le

theorem compareBy_swap {code : α → Int} {a b : α} :
    compareBy code a b = (compareBy code b a).swap :=
  compareOfLessAndEq_eq_swap Int.le_antisymm Int.le_total Int.not_le

theorem isLE_compareBy_iff {code : α → Int} {a b : α} :
    (compareBy code a b).isLE ↔ code a ≤ code b :=
  isLE_compareOfLessAndEq Int.le_antisymm Int.not_le Int.le_total

instance {code : α → Int} : Std.TransCmp (compareBy code) where
  eq_swap := compareBy_swap
  isLE_trans ab bc :=
    isLE_compareBy_iff.mpr (Int.le_trans (isLE_compareBy_iff.mp ab) (isLE_compareBy_iff.mp bc))

/-- If no two values share a code, only equal values compare as equal. -/
theorem lawfulEqCmp_compareBy {code : α → Int} (inj : ∀ {a b}, code a = code b → a = b) :
    Std.LawfulEqCmp (compareBy code) where
  compare_self := compareBy_eq_eq_iff.mpr rfl
  eq_of_compare h := inj (compareBy_eq_eq_iff.mp h)

end ShardCompaction
