import Flowchart.Proofs.Single.Exact

/-!
# The Middle of Two Singles

Half of a single is a single with the same digits and the next lesser exponent,
unless there is no lesser exponent. Then the last digit is the unit, and half of
an odd number of units has to be rounded. So a half may be off by half a unit,
which is nothing to whoever compares it with other singles: these are whole
numbers of units.

The middle of two singles is half of their sum. The sum is rounded too, but it
stays between the double of the one and the double of the other, since doubles
need no rounding. So a middle lies between what it is the middle of, as long as
the sum is not cut off at infinity.

## Main definitions

* `Single.two`: Two, unpacked.
* `Single.Halved`: A float that is half of a reading, but for half a unit.

## Theorems

* `halved_div`: The quotient by two is half of what is divided.
* `units_half`: Half of a finite single is finite.
* `rounding_mem`: What lies between two doubles is not rounded past them.
* `units_midpoint`, `le_midpoint`, `midpoint_le`: The middle of two singles lies
  between them.
-/

namespace Flowchart

namespace Single

open Float.Model (Format UnpackedFloat totalExponent)
open Float.Model.UnpackedFloat

/-! ## Halves -/

/-- Two, unpacked. -/
def two : UnpackedFloat := .finite .positive (2 ^ 23) (-22) (Nat.two_pow_pos 23)

theorem unpack_two : (2 : Float32).toModel.unpack = two := rfl

/-- A float that is half of a reading, but for half a unit. -/
structure Halved (u : UnpackedFloat) (n : Int) : Prop where
  rounded : Rounded u
  finite : u.isFinite = true
  close : (2 * unitsOf u - n).natAbs ≤ 1

theorem natAbs_two_mul_apply_sub (s : Sign) (a b : Nat) :
    (2 * s.apply a - s.apply b).natAbs = (2 * a - b : Int).natAbs := by
  cases s with
  | positive => rfl
  | negative =>
      dsimp only [Sign.apply]
      omega

/-- The quotient by two is computed to the exponent `r`, which takes `d` digits
    more. -/
theorem div_two_eq (s : Sign) {m d : Nat} {e r : Int} (hm : 0 < m)
    (hr : min (e + 22) (max (m.log2 + e - 25) (-149)) = r) (hd : e + 22 = r + d) :
    UnpackedFloat.div .binary32 (.finite s m e hm) two =
      roundWithAccuracy .binary32 s (m * 2 ^ d / 2 ^ 23) r
        (accuracyOfFraction (m * 2 ^ d % 2 ^ 23) (2 ^ 23)) := by
  -- Two is written with all its digits, so that a division by it shifts.
  have hcore : UnpackedFloat.div .binary32 (.finite s m e hm) two =
      let t := min (e - -22) (Format.binary32.targetExponent
        (totalExponent m e - totalExponent (2 ^ 23) (-22)))
      roundWithAccuracy .binary32 (s / .positive) (m <<< (e - -22 - t).toNat / 2 ^ 23) t
        (accuracyOfFraction (m <<< (e - -22 - t).toNat % 2 ^ 23) (2 ^ 23)) :=
    rfl
  have hsign : s / .positive = s := by cases s <;> rfl
  have htarget : Format.binary32.targetExponent
      (totalExponent m e - totalExponent (2 ^ 23) (-22)) = max (m.log2 + e - 25) (-149) := by
    unfold Format.targetExponent totalExponent
    rw [Nat.log2_two_pow]
    change max (_ - (24 : Int)) (-149) = _
    congr 1
    omega
  rw [hcore, hsign, htarget, Int.sub_neg, hr, hd]
  dsimp only
  rw [show (r + d - r).toNat = d by omega, Nat.shiftLeft_eq]

/-- A number whose last digit is far above the unit has a half with the same
    digits. -/
theorem halved_div_of_le (s : Sign) {m : Nat} {e : Int} (hm : 0 < m) (hlow : 2 ^ 23 ≤ m)
    (hhigh : m < 2 ^ 24) (he : -147 ≤ e) :
    Halved (UnpackedFloat.div .binary32 (.finite s m e hm) two) (s.apply (scale m e)) := by
  have hlog : m.log2 = 23 := (Nat.log2_eq_iff (by omega)).mpr ⟨hlow, hhigh⟩
  have hmul : m * 2 ^ 24 = m * 2 * 2 ^ 23 := by omega
  have htarget : Binary.target .binary32 (m * 2) (e - 2) = e - 2 + (1 : Nat) := by
    rw [Binary.target_eq, ← Nat.pow_one 2, Binary.log2_mul_two_pow (by omega), hlog]
    change max (_ - (23 : Int)) (-149) = _
    omega
  -- Nothing is shifted out but a zero.
  have hdigits : (ExtendedMantissa.ofMantissaAndAccuracy (m * 2) .exact >>> 1).roundedMantissa =
      m := by
    rw [(shifted_shiftRight (m * 2) 1).roundedMantissa_eq]
    exact halfEven_of_mul m 1
  have hleast : Format.binary32.minExponent ≤ e - 2 + (1 : Nat) := by
    change (-149 : Int) ≤ _
    omega
  rw [div_two_eq s (d := 24) (r := e - 2) hm (by omega) (by omega), hmul, Nat.mul_mod_left,
    Nat.mul_div_cancel _ (Nat.two_pow_pos 23)]
  change Halved (roundWithAccuracy .binary32 s (m * 2) (e - 2) .exact) _
  rw [Binary.roundWithAccuracy_eq s .exact htarget, hdigits]
  refine ⟨rounded_iff.mpr (Binary.rounded_carried (Nat.le_of_lt hhigh) hleast (Or.inl hlow)),
    Binary.isFinite_carried _ _ _, ?_⟩
  have hscale : scale m e = 2 * scale m (e - 1) := by
    unfold scale
    rw [show (e + 149).toNat = (e - 1 + 149).toNat + 1 by omega,
      Nat.pow_succ 2, Nat.mul_comm _ 2, Nat.mul_left_comm]
  rw [unitsOf_eq, Binary.unitsOf_carried hleast]
  change (2 * s.apply (scale m (e - 2 + (1 : Nat))) - _).natAbs ≤ 1
  rw [natAbs_two_mul_apply_sub, hscale, show e - 2 + (1 : Nat) = e - 1 by omega]
  omega

/-- A number whose last digit is the unit, or almost, loses at most half a unit. -/
theorem halved_div_of_lt (s : Sign) {m : Nat} {e : Int} (hm : 0 < m) (hhigh : m < 2 ^ 24)
    (hleast : -149 ≤ e) (he : e < -147) :
    Halved (UnpackedFloat.div .binary32 (.finite s m e hm) two) (s.apply (scale m e)) := by
  have hlog : m.log2 < 24 := (Nat.log2_lt (Nat.ne_of_gt hm)).mpr hhigh
  have hdigits : m * 2 ^ (e + 171).toNat = scale m e * 2 ^ 22 := by
    unfold scale
    rw [Nat.mul_assoc, ← Nat.pow_add]
    congr 2
    omega
  rw [div_two_eq s (d := (e + 171).toNat) (r := -149) hm (by omega) (by omega), hdigits]
  have hscale : scale m e ≤ 2 * m := by
    unfold scale
    rw [Nat.mul_comm]
    have hexp : (e + 149).toNat ≤ 1 := by omega
    exact Nat.mul_le_mul_right m (Nat.pow_le_pow_right Nat.two_pos hexp)
  generalize scale m e = n at hscale ⊢
  rw [show n * 2 ^ 22 / 2 ^ 23 = n / 2 by omega]
  -- The half is counted in units already, and keeps them.
  have htarget : Binary.target .binary32 (n / 2) (-149) = -149 + (0 : Nat) := by
    have hlog : (n / 2).log2 < 24 := by
      rcases Nat.eq_zero_or_pos (n / 2) with hzero | hpos
      · rw [hzero, Nat.log2_zero]
        decide
      · exact (Nat.log2_lt (Nat.ne_of_gt hpos)).mpr (by omega)
    rw [Binary.target_eq]
    change max (_ - (23 : Int)) (-149) = _
    omega
  rcases Binary.roundWithAccuracy_spec s (accuracyOfFraction (n * 2 ^ 22 % 2 ^ 23) (2 ^ 23)) htarget
    with ⟨hrounded, hfinite, q, hunits, hlo, hhi, hexact⟩
  refine ⟨rounded_iff.mpr hrounded, hfinite, ?_⟩
  have hq : Binary.scale .binary32 q (-149 + (0 : Nat)) = q := Nat.mul_one q
  rw [unitsOf_eq, hunits, hq, natAbs_two_mul_apply_sub]
  rw [Nat.pow_zero, Nat.div_one] at hlo hhi
  rcases Nat.mod_two_eq_zero_or_one n with heven | hodd
  · -- Nothing is lost.
    have hzero : n * 2 ^ 22 % 2 ^ 23 = 0 := by omega
    rw [hexact rfl (by rw [hzero]; rfl)]
    omega
  · omega

/-- Half of a finite float is half of its reading, but for half a unit. -/
theorem halved_div {u : UnpackedFloat} (hc : Canonical u) (hf : u.isFinite = true) :
    Halved (UnpackedFloat.div .binary32 u two) (unitsOf u) := by
  cases u with
  | notANumber => exact absurd hf Bool.false_ne_true
  | infinity s => exact absurd hf Bool.false_ne_true
  | zero s => exact ⟨trivial, rfl, Nat.zero_le 1⟩
  | finite s m e hm =>
      rcases hc.rounded with ⟨hhigh, hleast, hfull⟩
      rw [unitsOf_finite]
      by_cases he : e < -147
      · exact halved_div_of_lt s hm hhigh hleast he
      · exact halved_div_of_le s hm (hfull.resolve_right (by omega)) hhigh (by omega)

/-- A half is never too large, and comes out of its bits as it was packed. -/
theorem Halved.unpack_pack {u : UnpackedFloat} {n : Int} (h : Halved u n) (hn : n.natAbs < top) :
    (Float32.Model.pack u).unpack.isFinite = true ∧
      unitsOf (Float32.Model.pack u).unpack = unitsOf u := by
  have hclose := h.close
  have hunits : unitsOf (Float32.Model.pack u).unpack = unitsOf u := by
    rw [Single.unpack_pack h.rounded, unitsOf_bounded h.rounded, clamp]
    omega
  have hnan : (Float32.Model.pack u).unpack.isNaN = false :=
    (Binary.isNaN_unpack_pack one_lt_half (rounded_iff.mp h.rounded)).trans
      (Binary.isNaN_of_isFinite h.finite)
  refine ⟨Binary.isFinite_of_natAbs_lt (f := .binary32) hnan ?_, hunits⟩
  rw [← unitsOf_eq, hunits]
  change _ < top
  omega

/-- Half of a finite single is finite, and half of its reading but for half a
    unit. -/
theorem units_half {a : Float32} (ha : a.isFinite = true) :
    (a / 2).isFinite = true ∧ (2 * units (a / 2) - units a).natAbs ≤ 1 := by
  have hhalf := halved_div (canonical_unpack a.toModel) ha
  have hquot : (a / 2).toModel.unpack =
      (Float32.Model.pack (UnpackedFloat.div .binary32 a.toModel.unpack two)).unpack := by
    rw [← unpack_two]
    rfl
  rcases hhalf.unpack_pack (natAbs_units_lt ha) with ⟨hfinite, hunits⟩
  rw [← hquot] at hfinite hunits
  refine ⟨hfinite, ?_⟩
  rw [units, hunits]
  exact hhalf.close

/-! ## The middle -/

/-- The double of a finite single needs no rounding, although it may be too
    large. -/
theorem rounding_two_mul_unitsOf {u : UnpackedFloat} (hc : Canonical u) (hf : u.isFinite = true) :
    rounding (2 * unitsOf u) = 2 * unitsOf u := by
  cases u with
  | notANumber => exact absurd hf Bool.false_ne_true
  | infinity s => exact absurd hf Bool.false_ne_true
  | zero s => exact rounding_natCast 0
  | finite s m e hm =>
      have hdouble : 2 * unitsOf (.finite s m e hm) =
          s.apply (m * 2 ^ ((e + 149).toNat + 1) : Nat) := by
        rw [unitsOf_finite, scale, Nat.pow_succ 2, ← Nat.mul_assoc]
        cases s <;> dsimp only [Sign.apply] <;> omega
      rw [hdouble, rounding_apply, nearest_of_digits hc.rounded.1]

/-- What lies between two doubles is not rounded past either of them. -/
theorem rounding_mem {a b : Float32} (ha : a.isFinite = true) (hb : b.isFinite = true) {n : Int}
    (hlow : 2 * units a ≤ n) (hhigh : n ≤ 2 * units b) :
    2 * units a ≤ rounding n ∧ rounding n ≤ 2 * units b := by
  have hdouble : ∀ {c : Float32}, c.isFinite = true → rounding (2 * units c) = 2 * units c :=
    fun hc => rounding_two_mul_unitsOf (canonical_unpack _) hc
  rw [← hdouble ha, ← hdouble hb]
  exact ⟨rounding_mono hlow, rounding_mono hhigh⟩

/-- The middle of two singles lies between them, if their sum is not too
    large. -/
theorem units_midpoint {a b : Float32} (hsum : (a + b).isFinite = true) :
    ((a + b) / 2).isFinite = true ∧ min (units a) (units b) ≤ units ((a + b) / 2) ∧
      units ((a + b) / 2) ≤ max (units a) (units b) := by
  rcases isFinite_of_add hsum with ⟨ha, hb⟩
  rcases units_half hsum with ⟨hfinite, hclose⟩
  -- A finite sum was not cut off.
  have hadd : units (a + b) = rounding (units a + units b) := by
    have hlt := natAbs_units_lt hsum
    have hclamp := (units_add ha hb).2
    unfold clamp at hclamp
    omega
  refine ⟨hfinite, ?_⟩
  rcases Int.le_total (units a) (units b) with hle | hle
  · have hmem := rounding_mem (n := units a + units b) ha hb (by omega) (by omega)
    omega
  · have hmem := rounding_mem (n := units a + units b) hb ha (by omega) (by omega)
    omega

section midpoint

variable {a b c : Float32} (hsum : (a + b).isFinite = true)

include hsum

/-- What is not greater than either of two singles is not greater than their
    middle. -/
theorem le_midpoint (ha : c ≤ a) (hb : c ≤ b) : c ≤ (a + b) / 2 := by
  rcases units_midpoint hsum with ⟨hfinite, hlow, _⟩
  rw [le_iff] at *
  exact ⟨ha.1, isNaN_of_isFinite hfinite, by omega⟩

/-- What is not less than either of two singles is not less than their middle. -/
theorem midpoint_le (ha : a ≤ c) (hb : b ≤ c) : (a + b) / 2 ≤ c := by
  rcases units_midpoint hsum with ⟨hfinite, _, hhigh⟩
  rw [le_iff] at *
  exact ⟨isNaN_of_isFinite hfinite, ha.2.1, by omega⟩

end midpoint

end Single

end Flowchart
