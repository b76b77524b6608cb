import Mathlib.Algebra.Ring.Int.Defs
import ShardCompaction.Proofs.Day

namespace ShardCompaction

/-- Instants that 52 bits hold with their sign. -/
def FitsAboveKey (millis : Int64) : Prop := -2 ^ 51 ≤ millis.toInt ∧ millis.toInt < 2 ^ 51

instance (millis : Int64) : Decidable (FitsAboveKey millis) := inferInstanceAs (Decidable (_ ∧ _))

theorem toBitVec_zoneKey (zoneKey : UInt16) :
    (Int64.ofNat (zoneKey &&& 0x0fff).toNat).toBitVec =
      (zoneKey.toBitVec.setWidth 12).setWidth 64 := by
  have hmask : (zoneKey &&& 0x0fff).toNat = zoneKey.toNat % 2 ^ 12 := by
    rw [UInt16.toNat_and]
    exact Nat.and_two_pow_sub_one_eq_mod _ 12
  apply BitVec.eq_of_toNat_eq
  rw [Int64.toBitVec_ofNat', BitVec.toNat_ofNat, hmask, BitVec.toNat_setWidth,
    BitVec.toNat_setWidth]
  rfl

/-- Nothing of the key reaches the bits of the instant: the two stand side by side. -/
theorem toBitVec_packMillis (millis : Int64) (zoneKey : UInt16) :
    (packMillis millis zoneKey).toBitVec =
      millis.toBitVec.setWidth 52 ++ zoneKey.toBitVec.setWidth 12 := by
  have hshift : (millis <<< 12).toBitVec = millis.toBitVec <<< 12 := rfl
  rw [packMillis, Int64.toBitVec_or, toBitVec_zoneKey, hshift]
  apply BitVec.eq_of_getLsbD_eq
  intro i hi
  rw [BitVec.getLsbD_or, BitVec.getLsbD_shiftLeft, BitVec.getLsbD_setWidth, BitVec.getLsbD_append]
  by_cases hlow : i < 12
  · simp [hlow, hi]
  · simp [hlow, hi, BitVec.getLsbD_setWidth, show i - 12 < 52 by omega]

theorem toInt_packMillis (millis : Int64) (zoneKey : UInt16) :
    (packMillis millis zoneKey).toInt =
      4096 * (millis.toBitVec.setWidth 52).toInt + (zoneKey.toNat % 4096 : Nat) := by
  have hkey : (zoneKey.toBitVec.setWidth 12).toNat = zoneKey.toNat % 4096 :=
    BitVec.toNat_setWidth 12 zoneKey.toBitVec
  rw [← Int64.toInt_toBitVec, toBitVec_packMillis, BitVec.toInt_append, hkey]
  rfl

theorem toInt_unpackMillis_packMillis (millis : Int64) (zoneKey : UInt16) :
    (unpackMillis (packMillis millis zoneKey)).toInt = (millis.toBitVec.setWidth 52).toInt := by
  rw [toInt_unpackMillis, toInt_packMillis]
  omega

theorem unpackMillis_packMillis (millis : Int64) (zoneKey : UInt16) :
    (unpackMillis (packMillis millis zoneKey)).toBitVec =
      (millis.toBitVec.setWidth 52).signExtend 64 := by
  apply BitVec.eq_of_toInt_eq
  rw [Int64.toInt_toBitVec, toInt_unpackMillis_packMillis,
    BitVec.toInt_signExtend_of_le (by decide)]

theorem toInt_setWidth_eq_iff (millis : Int64) :
    (millis.toBitVec.setWidth 52).toInt = millis.toInt ↔ FitsAboveKey millis := by
  have hbmod : (millis.toBitVec.setWidth 52).toInt = millis.toInt.bmod (2 ^ 52) := by
    rw [BitVec.toInt_setWidth, ← Int64.toInt_toBitVec, BitVec.toInt_eq_toNat_bmod,
      Int.bmod_bmod_of_dvd (by decide)]
  rw [hbmod, FitsAboveKey]
  constructor
  · intro h
    rw [← h]
    exact ⟨Int.le_bmod (by decide), Int.bmod_lt (by decide)⟩
  · intro h
    exact Int.bmod_eq_of_le h.1 h.2

/-- An instant is read back exactly if it fits. -/
theorem unpackMillis_packMillis_eq_iff (millis : Int64) (zoneKey : UInt16) :
    unpackMillis (packMillis millis zoneKey) = millis ↔ FitsAboveKey millis := by
  rw [← Int64.toInt_inj, toInt_unpackMillis_packMillis, toInt_setWidth_eq_iff]

theorem setWidth_packMillis (millis : Int64) (zoneKey : UInt16) :
    ((packMillis millis zoneKey).toBitVec.setWidth 12).toNat = zoneKey.toNat % 4096 := by
  rw [toBitVec_packMillis, BitVec.setWidth_append_eq_right]
  exact BitVec.toNat_setWidth 12 zoneKey.toBitVec

/-- A key is below the step from one instant to the next. -/
theorem packMillis_lt_packMillis {a b : Int64} (ha : FitsAboveKey a) (hb : FitsAboveKey b)
    (hab : a < b) (zoneKey zoneKey' : UInt16) : packMillis a zoneKey < packMillis b zoneKey' := by
  rw [Int64.lt_iff_toInt_lt] at hab ⊢
  rw [toInt_packMillis, toInt_packMillis, (toInt_setWidth_eq_iff a).mpr ha,
    (toInt_setWidth_eq_iff b).mpr hb]
  have hkey := Nat.mod_lt zoneKey.toNat (show 4096 > 0 by decide)
  omega

theorem unpackMillis_le_unpackMillis {a b : Int64} (hab : a ≤ b) :
    unpackMillis a ≤ unpackMillis b := by
  rw [Int64.le_iff_toInt_le] at hab ⊢
  rw [toInt_unpackMillis, toInt_unpackMillis]
  omega

/-- A packed value holds the low 52 bits of an instant with their sign, and the low 12 bits of a
key. So an instant is read back exactly if it fits, and instants that fit are packed in their order,
whatever the keys. What is read back is in the order of the packed values always. -/
theorem packMillis_keeps_low_bits_and_order :
    (∀ millis zoneKey,
      (unpackMillis (packMillis millis zoneKey)).toBitVec =
          (millis.toBitVec.setWidth 52).signExtend 64 ∧
        (unpackMillis (packMillis millis zoneKey) = millis ↔ FitsAboveKey millis) ∧
        ((packMillis millis zoneKey).toBitVec.setWidth 12).toNat = zoneKey.toNat % 4096) ∧
    (∀ a b zoneKey zoneKey', FitsAboveKey a → FitsAboveKey b → a < b →
      packMillis a zoneKey < packMillis b zoneKey') ∧
    ∀ a b, a ≤ b → unpackMillis a ≤ unpackMillis b := by
  refine ⟨?_, ?_, fun a b hab => unpackMillis_le_unpackMillis hab⟩
  · intro millis zoneKey
    exact ⟨unpackMillis_packMillis millis zoneKey, unpackMillis_packMillis_eq_iff millis zoneKey,
      setWidth_packMillis millis zoneKey⟩
  · intro a b zoneKey zoneKey' ha hb hab
    exact packMillis_lt_packMillis ha hb hab zoneKey zoneKey'

/-- The first and the last instant that fit, and the next one, which is read back as the first. -/
theorem packMillis_keeps_low_bits_and_order_of_ends :
    FitsAboveKey (-2251799813685248) ∧ FitsAboveKey 2251799813685247 ∧
      packMillis (-2251799813685248) 0xffff < packMillis 2251799813685247 0 ∧
      unpackMillis (packMillis 2251799813685248 7) = -2251799813685248 ∧
      unpackMillis (packMillis 2251799813685248 7) ≠ 2251799813685248 ∧
      (-1 : Int64) ≤ 4095 ∧ unpackMillis (-1) ≤ unpackMillis 4095 := by
  obtain ⟨hbits, horder, hmono⟩ := packMillis_keeps_low_bits_and_order
  obtain ⟨-, hback, -⟩ := hbits 2251799813685248 7
  have hpast : ¬FitsAboveKey 2251799813685248 := by decide
  exact ⟨by decide, by decide, horder _ _ 0xffff 0 (by decide) (by decide) (by decide), rfl,
    fun h => hpast (hback.mp h), by decide, hmono _ _ (by decide)⟩

end ShardCompaction
