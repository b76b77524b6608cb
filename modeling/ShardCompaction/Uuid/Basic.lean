import ShardCompaction.Order

namespace ShardCompaction

/-- An identifier as one word. The order of its bytes is the order of the words. -/
@[ext] structure Uuid where
  word : BitVec 128
  deriving DecidableEq, Hashable, Inhabited

namespace Uuid

def ofNat (n : Nat) : Uuid := ⟨BitVec.ofNat 128 n⟩

def toNat (u : Uuid) : Nat := u.word.toNat

instance : LT Uuid := ⟨fun a b => a.toNat < b.toNat⟩

instance (a b : Uuid) : Decidable (a < b) := inferInstanceAs (Decidable (a.toNat < b.toNat))

theorem toNat_inj {a b : Uuid} : a.toNat = b.toNat ↔ a = b :=
  ⟨fun h => Uuid.ext (BitVec.eq_of_toNat_eq h), fun h => h ▸ rfl⟩

abbrev compare : Uuid → Uuid → Ordering := compareBy fun u => (u.toNat : Int)

instance : Std.LawfulEqCmp compare :=
  lawfulEqCmp_compareBy fun h => toNat_inj.mp (Int.ofNat_inj.mp h)

theorem compare_eq_lt_iff {a b : Uuid} : compare a b = .lt ↔ a < b :=
  compareBy_eq_lt_iff.trans Int.ofNat_lt

end Uuid

end ShardCompaction
