import Flowchart.Proofs.Binary.Rounding
import Flowchart.Proofs.Single.Units

/-!
# The Total Order on Singles

Boxes are sorted by keys, since a sort needs an order that no operand falls out of, and the
order on numbers is none: the missing number compares with nothing, and the two zeros do not
compare with each other. Wherever numbers do compare, the keys agree.

A key is read off the bits of a single. Apart from the sign these count through the numbers in
order, one rounded mantissa after another and one exponent after another. That is all there is
to `reading_mono`, and the sign only turns the count around.

## Main definitions

* `Single.reading`: The reading of a single whose bits, but for the sign, are a number.

## Theorems

* `reading_mono`: Readings grow with the bits.
* `units_eq`: The reading of a single by its bits.
* `key_lt_of_lt`: A lesser number has a lesser key.
-/

namespace Flowchart

namespace Single

open Float.Model (Format UnpackedFloat)
open Float.Model.UnpackedFloat

/-- The reading of a single with these bits and no sign. The last 23 bits are the mantissa,
    without the first digit that it has from the second exponent on. -/
def reading (k : Nat) : Nat :=
  if k < 2 ^ 23 then k else (2 ^ 23 + k % 2 ^ 23) * 2 ^ (k / 2 ^ 23 - 1)

theorem reading_mono {k l : Nat} (h : k ≤ l) : reading k ≤ reading l := by
  unfold reading
  by_cases hk : k < 2 ^ 23
  · rw [if_pos hk]
    by_cases hl : l < 2 ^ 23
    · rw [if_pos hl]
      exact h
    · rw [if_neg hl]
      calc k ≤ 2 ^ 23 + l % 2 ^ 23 := by omega
        _ ≤ (2 ^ 23 + l % 2 ^ 23) * 2 ^ (l / 2 ^ 23 - 1) :=
            Nat.le_mul_of_pos_right _ (Nat.two_pow_pos _)
  · rw [if_neg hk, if_neg (by omega)]
    rcases Nat.eq_or_lt_of_le (Nat.div_le_div_right (c := 2 ^ 23) h) with heq | hlt
    · -- Within an exponent the mantissas are counted.
      rw [heq]
      exact Nat.mul_le_mul_right _ (by omega)
    · -- A greater exponent makes up for any mantissa.
      have hexp : k / 2 ^ 23 - 1 + 1 ≤ l / 2 ^ 23 - 1 := by omega
      calc (2 ^ 23 + k % 2 ^ 23) * 2 ^ (k / 2 ^ 23 - 1)
          ≤ 2 ^ 24 * 2 ^ (k / 2 ^ 23 - 1) := Nat.mul_le_mul_right _ (by omega)
        _ = 2 ^ 23 * 2 ^ (k / 2 ^ 23 - 1 + 1) := by rw [Nat.pow_succ 2 (k / 2 ^ 23 - 1)]; omega
        _ ≤ 2 ^ 23 * 2 ^ (l / 2 ^ 23 - 1) :=
            Nat.mul_le_mul_left _ (Nat.pow_le_pow_right (by decide) hexp)
        _ ≤ (2 ^ 23 + l % 2 ^ 23) * 2 ^ (l / 2 ^ 23 - 1) := Nat.mul_le_mul_right _ (by omega)

/-- The fields of a single, by its bits. -/
theorem toNat_fields (b : BitVec Format.binary32.numBits) :
    (unpackExponent b).toNat = b.toNat / 2 ^ 23 % 2 ^ 8 ∧
      (unpackMantissa b).toNat = b.toNat % 2 ^ 23 ∧
      Sign.ofBitVec (unpackSign b) = if b.toNat < 2 ^ 31 then .positive else .negative := by
  refine ⟨?_, ?_, ?_⟩
  · simp [unpackExponent, BitVec.extractLsb, Nat.shiftRight_eq_div_pow]
  · simp [unpackMantissa, BitVec.extractLsb]
  · have hlt : b.toNat < 2 ^ 32 := b.isLt
    -- The sign is the highest bit.
    have hbit : (unpackSign b).toNat = b.toNat / 2 ^ 31 % 2 := by
      have hextract : unpackSign b = b.extractLsb 31 31 := rfl
      rw [hextract, BitVec.extractLsb_toNat, Nat.shiftRight_eq_div_pow]
    have hzero : unpackSign b = 0#1 ↔ b.toNat < 2 ^ 31 := by
      rw [BitVec.toNat_eq, hbit, BitVec.toNat_ofNat]
      omega
    rw [Sign.ofBitVec]
    exact if_congr hzero rfl rfl

/-- Bits without the sign are an exponent and a mantissa, one behind the other. -/
theorem unitsOf_ofFields (s : Sign) (e : BitVec 8) (m : BitVec 23)
    (h : (Binary.ofFields (f := .binary32) s e m).isNaN = false) :
    unitsOf (Binary.ofFields (f := .binary32) s e m) =
      s.apply (reading (e.toNat * 2 ^ 23 + m.toNat)) := by
  have hm : m.toNat < 2 ^ 23 := m.isLt
  -- All ones in the exponent are infinity, all zeros a number without a hidden digit.
  by_cases hones : e = -1#8
  · rw [Binary.ofFields, if_pos hones] at h ⊢
    by_cases hzero : m = 0#23
    · rw [if_pos hzero, unitsOf_infinity, hones, hzero]
      exact congrArg (fun n : Nat => s.apply (n : Int)) (by decide +kernel)
    · rw [if_neg hzero] at h
      cases h
  · by_cases hzeros : e = 0#8
    · rw [hzeros, Binary.ofFields_zero, BitVec.toNat_ofNat, Nat.zero_mod, Nat.zero_mul,
        Nat.zero_add, reading, if_pos hm, unitsOf_eq, Binary.unitsOf_ofParts]
      exact congrArg (fun n : Nat => s.apply (n : Int)) (Nat.mul_one _)
    · have hpos : 0 < e.toNat := Nat.pos_of_ne_zero fun h => hzeros (BitVec.eq_of_toNat_eq h)
      have hdigits : 0 < 2 ^ 23 + m.toNat := by omega
      have hshift : ((e.toNat : Int) - (127 + 23) + 149).toNat = e.toNat - 1 := by omega
      rw [Binary.ofFields, if_neg hones, if_neg hzeros, Binary.ofParts_of_pos hdigits,
        unitsOf_finite, reading, if_neg (by omega)]
      have hscale : scale (2 ^ 23 + m.toNat) ((e.toNat : Int) - (127 + 23)) =
          (2 ^ 23 + m.toNat) * 2 ^ (e.toNat - 1) := by rw [scale, hshift]
      rw [show (e.toNat * 2 ^ 23 + m.toNat) % 2 ^ 23 = m.toNat by omega,
        show (e.toNat * 2 ^ 23 + m.toNat) / 2 ^ 23 = e.toNat by omega, ← hscale]
      rfl

/-- The reading of a single by its bits. -/
theorem units_eq {x : Float32} (h : x.isNaN = false) :
    units x = if x.toBits.toNat < 2 ^ 31 then (reading x.toBits.toNat : Int)
      else -reading (x.toBits.toNat - 2 ^ 31) := by
  have hlt : x.toBits.toNat < 2 ^ 32 := x.toBits.toNat_lt
  rcases toNat_fields x.toModel.toBits.toBitVec with ⟨hexponent, hmantissa, hsign⟩
  change _ = x.toBits.toNat / 2 ^ 23 % 2 ^ 8 at hexponent
  change _ = x.toBits.toNat % 2 ^ 23 at hmantissa
  change _ = if x.toBits.toNat < 2 ^ 31 then _ else _ at hsign
  have hunpack : x.toModel.unpack = Binary.ofFields (f := .binary32)
      (if x.toBits.toNat < 2 ^ 31 then .positive else .negative)
      (unpackExponent x.toModel.toBits.toBitVec) (unpackMantissa x.toModel.toBits.toBitVec) := by
    rw [← hsign]
    exact Binary.unpack_eq _
  rw [isNaN_eq, hunpack] at h
  rw [units, hunpack, unitsOf_ofFields _ _ _ h, hexponent, hmantissa]
  -- Without the sign the bits are exponent and mantissa again.
  by_cases hpositive : x.toBits.toNat < 2 ^ 31
  · rw [if_pos hpositive, if_pos hpositive, show x.toBits.toNat / 2 ^ 23 % 2 ^ 8 * 2 ^ 23 +
      x.toBits.toNat % 2 ^ 23 = x.toBits.toNat by omega]
    rfl
  · rw [if_neg hpositive, if_neg hpositive, show x.toBits.toNat / 2 ^ 23 % 2 ^ 8 * 2 ^ 23 +
      x.toBits.toNat % 2 ^ 23 = x.toBits.toNat - 2 ^ 31 by omega]
    rfl

theorem key_eq {x : Float32} (h : x.isNaN = false) :
    key x = if x.toBits.toNat < 2 ^ 31 then (x.toBits.toNat : Int)
      else 2 ^ 31 - 1 - x.toBits.toNat := by
  unfold key
  rw [h, if_neg Bool.false_ne_true]
  rfl

/-- A lesser number has a lesser key. -/
theorem key_lt_of_lt {a b : Float32} (h : a < b) : key a < key b := by
  rcases (lt_iff a b).mp h with ⟨ha, hb, hlt⟩
  rw [units_eq ha, units_eq hb] at hlt
  rw [key_eq ha, key_eq hb]
  -- Readings compare as bits do among positive numbers, and the other way around among negative
  -- ones.
  by_cases hneg : a.toBits.toNat < 2 ^ 31
  · rw [if_pos hneg] at hlt ⊢
    by_cases hneg' : b.toBits.toNat < 2 ^ 31
    · rw [if_pos hneg'] at hlt ⊢
      by_contra hle
      have := reading_mono (k := b.toBits.toNat) (l := a.toBits.toNat) (by omega)
      omega
    · rw [if_neg hneg'] at hlt
      omega
  · rw [if_neg hneg] at hlt ⊢
    by_cases hneg' : b.toBits.toNat < 2 ^ 31
    · rw [if_pos hneg']
      omega
    · rw [if_neg hneg'] at hlt ⊢
      by_contra hle
      have := reading_mono (k := a.toBits.toNat - 2 ^ 31) (l := b.toBits.toNat - 2 ^ 31) (by omega)
      omega

end Single

end Flowchart
