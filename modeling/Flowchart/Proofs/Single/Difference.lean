import Flowchart.Proofs.Single.Monotone

/-!
# Differences of Singles

A difference is the sum with the opposite, of floats and not only of the numbers that they
stand for, so that what is known of rounded sums holds of rounded differences too. Two
consequences matter for drawings. What is left of a number that is taken from itself is zero
and not just something small; and a difference of numbers that are finite and not negative is
never cut off, as it lies between the one and the opposite of the other.

## Theorems

* `units_sub`: The reading of a difference of finite singles.
* `units_sub_self`, `units_sub_of_units_eq_zero`: Differences that are exact.
* `isFinite_sub_of_nonneg`: A difference that is never cut off.
* `units_mul_eq_zero`: A product with zero is zero.
* `abs_lt_iff`: When the absolute value of a single is less than another one.
-/

namespace Flowchart

namespace Single

open Float.Model (Format UnpackedFloat)
open Float.Model.UnpackedFloat

theorem apply_neg (s : Sign) (n : Int) : (-s).apply n = -s.apply n := by
  cases s with
  | positive => rfl
  | negative => exact (Int.neg_neg n).symm

theorem sub_eq_add_neg (u v : UnpackedFloat) :
    UnpackedFloat.sub .binary32 u v = UnpackedFloat.add .binary32 u v.neg := by
  have hdouble : ∀ s t : Sign, (s == - -t) = (s == t) := by
    intro s t
    cases s <;> cases t <;> rfl
  -- Both operations make the same cases, and only two finite numbers are computed with.
  cases u with
  | notANumber => cases v <;> rfl
  | infinity s => cases v <;> rfl
  | zero s => cases v <;> rfl
  | finite s m e hm =>
      cases v with
      | notANumber => rfl
      | infinity t => rfl
      | zero t => rfl
      | finite t n e' hn =>
          change normalize .binary32 (s.apply _ - t.apply _) _ _ =
            normalize .binary32 (s.apply _ + (-t).apply _) _ _
          rw [apply_neg, Int.sub_eq_add_neg]

theorem unitsOf_neg (u : UnpackedFloat) : unitsOf u.neg = -unitsOf u := by
  cases u with
  | notANumber => rfl
  | zero s => rfl
  | infinity s => exact apply_neg s _
  | finite s m e hm => exact apply_neg s _

theorem canonical_neg {u : UnpackedFloat} (h : Canonical u) : Canonical u.neg := by
  cases u with
  | finite s m e hm =>
      refine ⟨h.rounded, ?_⟩
      have hbounded := h.bounded
      by_cases hbig : 105 ≤ e
      · have hinfinity : UnpackedFloat.infinity s = .finite s m e hm :=
          (if_pos hbig).symm.trans hbounded
        cases hinfinity
      · exact if_neg hbig
  | _ => exact ⟨trivial, rfl⟩

theorem isFinite_neg (u : UnpackedFloat) : u.neg.isFinite = u.isFinite := by
  cases u <;> rfl

variable {a b c : Float32}

/-- The reading of a difference of finite singles. -/
theorem units_sub (ha : a.isFinite = true) (hb : b.isFinite = true) :
    (a - b).isNaN = false ∧ units (a - b) = clamp (rounding (units a - units b)) := by
  have hsum := isRounding_add (canonical_unpack a.toModel)
    (canonical_neg (canonical_unpack b.toModel)) ha ((isFinite_neg _).trans hb)
  rw [unitsOf_neg, ← Int.sub_eq_add_neg, ← sub_eq_add_neg] at hsum
  have hnan : (a - b).isNaN = _ :=
    Binary.isNaN_unpack_pack one_lt_half (rounded_iff.mp hsum.rounded)
  have hpack : (a - b).toModel.unpack = _ := unpack_pack hsum.rounded
  refine ⟨hnan.trans (Binary.isNaN_of_isFinite hsum.finite), ?_⟩
  rw [units, hpack, unitsOf_bounded hsum.rounded, hsum.units]
  rfl

theorem rounding_units (ha : a.isFinite = true) : rounding (units a) = units a :=
  rounding_unitsOf (canonical_unpack a.toModel) ha

theorem clamp_units (a : Float32) : clamp (units a) = units a :=
  clamp_unitsOf (canonical_unpack a.toModel)

/-- To take away nothing changes nothing. -/
theorem units_sub_of_units_eq_zero (ha : a.isFinite = true) (hb : b.isFinite = true)
    (h : units b = 0) : (a - b).isFinite = true ∧ units (a - b) = units a := by
  rcases units_sub ha hb with ⟨hnan, hunits⟩
  rw [h, Int.sub_zero, rounding_units ha, clamp_units] at hunits
  refine ⟨isFinite_of_natAbs_lt hnan ?_, hunits⟩
  rw [hunits]
  exact natAbs_units_lt ha

/-- What is taken from itself leaves nothing. -/
theorem units_sub_self (ha : a.isFinite = true) :
    (a - a).isFinite = true ∧ units (a - a) = 0 := by
  rcases units_sub ha ha with ⟨hnan, hunits⟩
  rw [Int.sub_self] at hunits
  have hzero : units (a - a) = 0 := hunits
  refine ⟨isFinite_of_natAbs_lt hnan ?_, hzero⟩
  rw [hzero]
  exact zero_lt_top

/-- A difference of numbers that are not negative is within the range of both. -/
theorem isFinite_sub_of_nonneg (ha : a.isFinite = true) (hb : b.isFinite = true) (hapos : 0 ≤ a)
    (hbpos : 0 ≤ b) : (a - b).isFinite = true := by
  rcases units_sub ha hb with ⟨hnan, hunits⟩
  have hau := ((nonneg_iff a).mp hapos).2
  have hbu := ((nonneg_iff b).mp hbpos).2
  -- Rounding is monotone and leaves the two operands alone, between which the difference lies.
  have hhigh : rounding (units a - units b) ≤ units a :=
    calc rounding (units a - units b)
        ≤ rounding (units a) := rounding_mono (by omega)
      _ = units a := rounding_units ha
  have hlow : -units b ≤ rounding (units a - units b) :=
    calc -units b
        = -rounding (units b) := by rw [rounding_units hb]
      _ = rounding (-units b) := (rounding_neg _).symm
      _ ≤ rounding (units a - units b) := rounding_mono (by omega)
  have halt := natAbs_units_lt ha
  have hblt := natAbs_units_lt hb
  refine isFinite_of_natAbs_lt hnan ?_
  unfold clamp at hunits
  omega

/-! ## Products with zero -/

theorem eq_zero_of_unitsOf {u : UnpackedFloat} (hf : u.isFinite = true) (h : unitsOf u = 0) :
    ∃ s, u = .zero s := by
  cases u with
  | notANumber => cases hf
  | infinity s => cases hf
  | zero s => exact ⟨s, rfl⟩
  | finite s m e hm =>
      have hscale : 0 < scale m e := Nat.mul_pos hm (Nat.two_pow_pos _)
      change s.apply (scale m e) = 0 at h
      have habs := Binary.natAbs_apply s (scale m e)
      rw [h, Int.natAbs_zero] at habs
      omega

theorem mul_eq_zero {u v : UnpackedFloat} (hu : u.isFinite = true) (hv : v.isFinite = true)
    (h : unitsOf u = 0 ∨ unitsOf v = 0) : ∃ s, UnpackedFloat.mul .binary32 u v = .zero s := by
  rcases h with h | h
  · rcases eq_zero_of_unitsOf hu h with ⟨s, rfl⟩
    cases v with
    | notANumber => cases hv
    | infinity t => cases hv
    | zero t => exact ⟨_, rfl⟩
    | finite t m e hm => exact ⟨_, rfl⟩
  · rcases eq_zero_of_unitsOf hv h with ⟨s, rfl⟩
    cases u with
    | notANumber => cases hu
    | infinity t => cases hu
    | zero t => exact ⟨_, rfl⟩
    | finite t m e hm => exact ⟨_, rfl⟩

/-- A product with zero is zero. -/
theorem units_mul_eq_zero (ha : a.isFinite = true) (hb : b.isFinite = true)
    (h : units a = 0 ∨ units b = 0) : (a * b).isFinite = true ∧ units (a * b) = 0 := by
  rcases mul_eq_zero ha hb h with ⟨s, hs⟩
  have hunpack : (a * b).toModel.unpack = .zero s := by
    change (Float32.Model.pack (UnpackedFloat.mul .binary32 a.toModel.unpack _)).unpack = _
    rw [hs, unpack_pack (u := .zero s) trivial]
    rfl
  refine ⟨?_, ?_⟩
  · change (a * b).toModel.unpack.isFinite = true
    rw [hunpack]
    rfl
  · rw [units, hunpack]
    rfl

/-! ## Absolute values -/

theorem unpack_abs (a : Float32) : a.abs.toModel.unpack = a.toModel.unpack.abs := by
  have hcanonical := Binary.canonical_abs (canonical_iff.mp (canonical_unpack a.toModel))
  exact (Binary.unpack_pack one_lt_half hcanonical.rounded).trans hcanonical.bounded

/-- An absolute value is less than a single if the reading is, whatever its sign. -/
theorem abs_lt_iff : a.abs < c ↔
    a.isNaN = false ∧ c.isNaN = false ∧ (units a).natAbs < units c := by
  have hnan : a.abs.isNaN = a.isNaN := by
    rw [isNaN_eq, isNaN_eq, unpack_abs]
    cases a.toModel.unpack <;> rfl
  have hunits : units a.abs = (units a).natAbs := by
    rw [units, unpack_abs, unitsOf_eq, Binary.unitsOf_abs, ← unitsOf_eq]
    rfl
  rw [lt_iff, hnan, hunits]

end Single

end Flowchart
