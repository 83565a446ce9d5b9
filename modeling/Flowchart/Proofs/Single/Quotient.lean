import Flowchart.Proofs.Single.Difference

/-!
# Quotients of Singles

A quotient is computed like any other number: some of its digits exactly, what is left over as
one of four cases, and then the last digits are shifted out and rounded away. The four cases
are quarters. With two more digits for them the quotient is a number whose last bits are
dropped, and what is known of such a number holds of it.

Of two positive singles the quotient may be too small for a single, and then it is zero. That
happens if it is half of the unit or less, since a tie goes to the even neighbour: if the
divisor is `2 ^ 150` times as large as the dividend, or larger.

## Main definitions

* `Single.quarters`: What is left over of a number, in quarters.
* `Single.IsQuotient`: What is known of a quotient.

## Theorems

* `shifted_ofAccuracy`: A number with something left over has two more digits.
* `roundedMantissa_pos_iff`: When digits are left of a quotient.
* `isNaN_div`: By a positive number one may divide.
* `units_div_pos_iff`: Which quotients are not zero.
* `isNaN_zero_div`: By zero one may not divide zero.
* `isFinite_mul_of_le_one`: A part of a number is finite.
* `min_spec`: The minimum of two numbers.
-/

namespace Flowchart

namespace Single

open Float.Model (Format UnpackedFloat totalExponent)
open Float.Model.UnpackedFloat

/-! ## Digits of a quotient -/

/-- What is left over of a number below its last digit, in quarters. An odd number of them stands
    for anything between its neighbours. -/
def quarters : Accuracy → Nat
  | .exact => 0
  | .inexact .lt => 1
  | .inexact .eq => 2
  | .inexact .gt => 3

theorem quarters_le (acc : Accuracy) : quarters acc ≤ 3 := by
  rcases acc with _ | o
  · decide
  · cases o <;> decide

/-- What is left over of a division is nothing, something, and more than a half. -/
theorem quarters_accuracyOfFraction {r n : Nat} (hr : r < n) :
    (0 < quarters (accuracyOfFraction r n) ↔ 0 < r) ∧
      (quarters (accuracyOfFraction r n) = 3 ↔ n < 2 * r) := by
  unfold accuracyOfFraction
  by_cases hzero : r = 0
  · rw [if_pos hzero, quarters]
    omega
  · rw [if_neg hzero]
    rcases Nat.lt_trichotomy (2 * r) n with h | h | h
    · rw [Nat.compare_eq_lt.mpr h, quarters]
      omega
    · rw [Nat.compare_eq_eq.mpr h, quarters]
      omega
    · rw [Nat.compare_eq_gt.mpr h, quarters]
      omega

/-- A number with something left over is a number that has lost two digits. -/
theorem shifted_ofAccuracy (m : Nat) (acc : Accuracy) :
    Shifted (.ofMantissaAndAccuracy m acc) (4 * m + quarters acc) 2 := by
  have hshifted : ∀ (round sticky : Bool) (c : Nat), c ≤ 3 → (round = true ↔ 2 ≤ c) →
      (sticky = true ↔ c % 2 = 1) → Shifted ⟨m, round, sticky⟩ (4 * m + c) 2 := by
    intro round sticky c hc hround hsticky
    refine ⟨?_, hround.trans (by omega), hsticky.trans (by omega)⟩
    change m = _
    omega
  rcases acc with _ | o
  · exact hshifted false false 0 (by decide) (by decide) (by decide)
  · cases o with
    | lt => exact hshifted false true 1 (by decide) (by decide) (by decide)
    | eq => exact hshifted true false 2 (by decide) (by decide) (by decide)
    | gt => exact hshifted true true 3 (by decide) (by decide) (by decide)

/-- A number is not rounded to zero if it is more than half of the last digit. -/
theorem halfEven_pos_iff (n k : Nat) : 0 < halfEven n k ↔ 2 ^ k < 2 * n := by
  have hpos := Nat.two_pow_pos k
  by_cases hn : n < 2 ^ k
  · unfold halfEven
    rw [Nat.div_eq_of_lt hn, Nat.mod_eq_of_lt hn]
    split
    · omega
    · split <;> omega
  · have hdiv : 0 < n / 2 ^ k := Nat.div_pos (by omega) hpos
    exact iff_of_true (Nat.lt_of_lt_of_le hdiv (div_le_halfEven n k)) (by omega)

/-- More than half of a digit is left of a quotient if the dividend is more than half of that
    many divisors. -/
theorem lt_quarters_iff {n : Nat} (hn : 0 < n) (x k : Nat) :
    2 ^ (2 + k) < 2 * (4 * (x / n) + quarters (accuracyOfFraction (x % n) n)) ↔
      n * 2 ^ k < 2 * x := by
  rcases quarters_accuracyOfFraction (Nat.mod_lt x hn) with ⟨hsome, hmost⟩
  have hle := quarters_le (accuracyOfFraction (x % n) n)
  have hx := Nat.div_add_mod x n
  have hmod := Nat.mod_lt x hn
  generalize quarters (accuracyOfFraction (x % n) n) = c at *
  generalize x % n = r at *
  generalize x / n = q at *
  cases k with
  | zero =>
      -- Half of a whole is asked for, and what is left over tells.
      rcases Nat.eq_zero_or_pos q with rfl | hq
      · omega
      · have hnq : n ≤ n * q := Nat.le_mul_of_pos_right n hq
        omega
  | succ k =>
      have hpow : 2 ^ (2 + (k + 1)) = 8 * 2 ^ k := by
        rw [show 2 + (k + 1) = 3 + k by omega, Nat.pow_add]
      have hdouble : n * 2 ^ (k + 1) = 2 * (n * 2 ^ k) := by rw [Nat.pow_succ]; ac_rfl
      rw [hpow, hdouble]
      -- A whole number of digits is compared with the quotient first.
      rcases Nat.lt_trichotomy (2 ^ k) q with h | h | h
      · have hnq : n * (2 ^ k + 1) ≤ n * q := Nat.mul_le_mul_left n h
        rw [Nat.mul_succ] at hnq
        omega
      · rw [h]
        omega
      · have hnq : n * (q + 1) ≤ n * 2 ^ k := Nat.mul_le_mul_left n h
        rw [Nat.mul_succ] at hnq
        omega

/-- When a digit is left of a quotient that is rounded. -/
theorem roundedMantissa_pos_iff {n : Nat} (hn : 0 < n) (x k : Nat) :
    0 < (ExtendedMantissa.ofMantissaAndAccuracy (x / n) (accuracyOfFraction (x % n) n) >>>
      k).roundedMantissa ↔ n * 2 ^ k < 2 * x := by
  rw [((shifted_ofAccuracy _ _).shiftRight k).roundedMantissa_eq, halfEven_pos_iff,
    lt_quarters_iff hn]

/-! ## Quotients -/

/-- What is known of a quotient of two readings that are not negative. -/
structure IsQuotient (u : UnpackedFloat) (n k : Nat) : Prop where
  rounded : Rounded u
  finite : u.isFinite = true
  nonneg : 0 ≤ unitsOf u
  pos : 0 < unitsOf u ↔ k < 2 ^ 150 * n

theorem isQuotient_zero (s : Sign) (k : Nat) : IsQuotient (.zero s) 0 k where
  rounded := trivial
  finite := rfl
  nonneg := Int.le_refl 0
  pos := iff_of_false (Int.lt_irrefl 0) (Nat.not_lt_zero k)

/-- A quotient that is counted in the unit, or has all its digits, is more than half of its last
    digit if the dividend is more than half of the unit. -/
theorem lt_iff_of_target {m n d k : Nat} {e₁ e₂ r : Int} (hn : 0 < n) (he₁ : -149 ≤ e₁)
    (he₂ : -149 ≤ e₂) (hd : e₁ - e₂ = r + d)
    (hk : Binary.target .binary32 (m * 2 ^ d / n) r = r + k) :
    n * 2 ^ k < 2 * (m * 2 ^ d) ↔ scale n e₂ < 2 ^ 150 * scale m e₁ := by
  have hleast : -149 ≤ r + k := by
    rw [← hk]
    exact Binary.minExponent_le_target _ _
  unfold scale
  generalize ha : (e₁ + 149).toNat = a
  generalize hb : (e₂ + 149).toNat = b
  -- Both sides are compared with as many digits more as it takes.
  have hleft : n * 2 ^ k < 2 * (m * 2 ^ d) ↔ n * 2 ^ (k + b) < m * 2 ^ (d + 1 + b) := by
    rw [← Nat.mul_lt_mul_right (Nat.two_pow_pos b), Nat.mul_assoc n, ← Nat.pow_add,
      show 2 * (m * 2 ^ d) * 2 ^ b = m * 2 ^ (d + 1 + b) by
        rw [Nat.pow_add, Nat.pow_succ]
        ac_rfl]
  have hright : n * 2 ^ b < 2 ^ 150 * (m * 2 ^ a) ↔ n * 2 ^ (k + b) < m * 2 ^ (150 + a + k) := by
    rw [← Nat.mul_lt_mul_right (Nat.two_pow_pos k), Nat.mul_assoc n, ← Nat.pow_add,
      Nat.add_comm b k, show 2 ^ 150 * (m * 2 ^ a) * 2 ^ k = m * 2 ^ (150 + a + k) by
        rw [Nat.pow_add, Nat.pow_add]
        ac_rfl]
  rcases Binary.two_pow_le_of_target hk with hfull | hunit
  · -- With all its digits the quotient is far from zero.
    rw [Nat.le_div_iff_mul_le hn] at hfull
    change 2 ^ 23 * 2 ^ k * n ≤ _ at hfull
    have hpos : 0 < n * 2 ^ k := Nat.mul_pos hn (Nat.two_pow_pos k)
    rw [Nat.mul_assoc, Nat.mul_comm _ n] at hfull
    have hlt : n * 2 ^ k < 2 * (m * 2 ^ d) := by omega
    have hexp : 2 ^ (d + 1 + b) ≤ 2 ^ (150 + a + k) := Nat.pow_le_pow_right Nat.two_pos (by omega)
    exact iff_of_true hlt
      (hright.mpr (Nat.lt_of_lt_of_le (hleft.mp hlt) (Nat.mul_le_mul_left m hexp)))
  · change r + k = -149 at hunit
    rw [hleft, hright, show d + 1 + b = 150 + a + k by omega]

/-- A quotient with all its digits is not zero, and one that is counted in units is rounded to
    zero if it is half of the unit or less. -/
theorem isQuotient_roundWithAccuracy {m n d k : Nat} {e₁ e₂ r : Int} (hn : 0 < n)
    (he₁ : -149 ≤ e₁) (he₂ : -149 ≤ e₂) (hd : e₁ - e₂ = r + d)
    (hk : Binary.target .binary32 (m * 2 ^ d / n) r = r + k) :
    IsQuotient (roundWithAccuracy .binary32 .positive (m * 2 ^ d / n) r
      (accuracyOfFraction (m * 2 ^ d % n) n)) (scale m e₁) (scale n e₂) := by
  have hmin : Format.binary32.minExponent ≤ r + k := by
    rw [← hk]
    exact Binary.minExponent_le_target _ _
  rcases Binary.roundWithAccuracy_spec .positive (accuracyOfFraction (m * 2 ^ d % n) n) hk with
    ⟨hrounded, hfinite, _⟩
  -- The quotient is rounded to as many digits as are carried.
  have hunits : unitsOf (roundWithAccuracy .binary32 .positive (m * 2 ^ d / n) r
      (accuracyOfFraction (m * 2 ^ d % n) n)) =
      (scale (ExtendedMantissa.ofMantissaAndAccuracy (m * 2 ^ d / n)
        (accuracyOfFraction (m * 2 ^ d % n) n) >>> k).roundedMantissa (r + k) : Nat) := by
    rw [Binary.roundWithAccuracy_eq .positive _ hk, unitsOf_eq, Binary.unitsOf_carried hmin]
    rfl
  refine ⟨rounded_iff.mpr hrounded, hfinite, ?_, ?_⟩
  · rw [hunits]
    exact Int.natCast_nonneg _
  · rw [hunits, Int.natCast_pos, scale, Nat.mul_pos_iff_of_pos_right (Nat.two_pow_pos _),
      roundedMantissa_pos_iff hn, lt_iff_of_target hn he₁ he₂ hd hk]

/-- The quotient of a finite float that is not negative by a positive one. -/
theorem isQuotient_div {u v : UnpackedFloat} (hu : Canonical u) (hv : Canonical v)
    (huf : u.isFinite = true) (hvf : v.isFinite = true) {n k : Nat} (hn : unitsOf u = n)
    (hk : unitsOf v = k) (hpos : 0 < k) : IsQuotient (UnpackedFloat.div .binary32 u v) n k := by
  cases v with
  | notANumber => exact absurd hvf Bool.false_ne_true
  | infinity t => exact absurd hvf Bool.false_ne_true
  | zero t =>
      have hzero : k = 0 := Int.ofNat_eq_zero.mp hk.symm
      omega
  | finite t m' e₂ hm' =>
      cases u with
      | notANumber => exact absurd huf Bool.false_ne_true
      | infinity s => exact absurd huf Bool.false_ne_true
      | zero s =>
          have hzero : n = 0 := Int.ofNat_eq_zero.mp hn.symm
          rw [hzero]
          exact isQuotient_zero _ _
      | finite s m e₁ hm =>
          -- Both are positive, and what is computed is the quotient of their digits.
          rcases positive_of_apply hm hn with ⟨rfl, rfl⟩
          rcases positive_of_apply hm' hk with ⟨rfl, rfl⟩
          have he₁ := hu.rounded.2.1
          have he₂ := hv.rounded.2.1
          have htarget := Binary.divCore_le_target (f := .binary32) m m' e₁ e₂ (Nat.ne_of_gt hm)
            (Nat.ne_of_gt hm')
          have hcore : UnpackedFloat.div .binary32 (.finite .positive m e₁ hm)
              (.finite .positive m' e₂ hm') =
              let r := min (e₁ - e₂)
                (Format.binary32.targetExponent (totalExponent m e₁ - totalExponent m' e₂))
              roundWithAccuracy .binary32 .positive (m <<< (e₁ - e₂ - r).toNat / m') r
                (accuracyOfFraction (m <<< (e₁ - e₂ - r).toNat % m') m') :=
            rfl
          rw [hcore]
          dsimp only at htarget ⊢
          rw [Nat.shiftLeft_eq]
          generalize Format.binary32.targetExponent (totalExponent m e₁ - totalExponent m' e₂) = x
            at *
          generalize hr : min (e₁ - e₂) x = r at *
          exact isQuotient_roundWithAccuracy
            (k := (Binary.target .binary32 (m * 2 ^ (e₁ - e₂ - r).toNat / m') r - r).toNat)
            hm' he₁ he₂ (by omega) (by omega)

theorem infinity_div {v : UnpackedFloat} (hv : v.isFinite = true) (s : Sign) :
    ∃ t, UnpackedFloat.div .binary32 (.infinity s) v = .infinity t := by
  cases v with
  | notANumber => exact absurd hv Bool.false_ne_true
  | infinity t => exact absurd hv Bool.false_ne_true
  | zero t => exact ⟨_, rfl⟩
  | finite t m e hm => exact ⟨_, rfl⟩

variable {a b : Float32}

theorem unpack_div (a b : Float32) : (a / b).toModel.unpack =
    (Float32.Model.pack (UnpackedFloat.div .binary32 a.toModel.unpack b.toModel.unpack)).unpack :=
  rfl

/-- By a positive number one may divide. -/
theorem isNaN_div (ha : a.isNaN = false) (hb : b.isFinite = true) (hpos : 0 < units b) :
    (a / b).isNaN = false := by
  rw [isNaN_eq, unpack_div]
  by_cases haf : a.isFinite = true
  · have hnear := Binary.nearQuotient_div (f := .binary32) (by decide)
      (canonical_iff.mp (canonical_unpack a.toModel))
      (canonical_iff.mp (canonical_unpack b.toModel)) haf hb (by
        rw [← unitsOf_eq]
        exact Int.ne_of_gt hpos)
    exact (Binary.isNaN_unpack_pack one_lt_half hnear.rounded).trans
      (Binary.isNaN_of_isFinite hnear.finite)
  · rcases Binary.exists_eq_infinity ha haf with ⟨s, hs⟩
    rcases infinity_div (v := b.toModel.unpack) hb s with ⟨t, ht⟩
    rw [hs, ht, unpack_pack (u := .infinity t) trivial]
    rfl

/-- A quotient of numbers that are not negative is not negative, and it is not zero unless the
    divisor is `2 ^ 150` times as large as the dividend, or larger. -/
theorem units_div_pos_iff (ha : a.isFinite = true) (hpos : 0 ≤ a) (hb : b.isFinite = true)
    (hbpos : 0 < units b) :
    0 ≤ units (a / b) ∧ (0 < units (a / b) ↔ units b < 2 ^ 150 * units a) := by
  rcases exists_units_eq hpos with ⟨n, hn⟩
  have hk : units b = ((units b).toNat : Int) := (Int.toNat_of_nonneg (Int.le_of_lt hbpos)).symm
  have hquot := isQuotient_div (canonical_unpack a.toModel) (canonical_unpack b.toModel) ha hb hn hk
    (by omega)
  have hunits : units (a / b) =
      clamp (unitsOf (UnpackedFloat.div .binary32 a.toModel.unpack b.toModel.unpack)) := by
    rw [units, unpack_div, unpack_pack hquot.rounded, unitsOf_bounded hquot.rounded]
  have hnonneg := hquot.nonneg
  have hiff := hquot.pos
  have htop := zero_lt_top
  rw [hunits, clamp, hn]
  omega

/-- By zero one may not divide zero. -/
theorem isNaN_zero_div (ha : a.isFinite = true) (hazero : units a = 0) (hb : b.isFinite = true)
    (hbzero : units b = 0) : (a / b).isNaN = true := by
  rcases eq_zero_of_unitsOf ha hazero with ⟨s, hs⟩
  rcases eq_zero_of_unitsOf hb hbzero with ⟨t, ht⟩
  have hdiv : UnpackedFloat.div .binary32 (.zero s) (.zero t) = .notANumber := rfl
  rw [isNaN_eq, unpack_div, hs, ht, hdiv, unpack_pack (u := .notANumber) trivial]
  rfl

/-! ## Parts -/

/-- One times a number is the number. -/
theorem nearestFrom_mul_one (n : Nat) : nearestFrom 149 (n * 2 ^ 149) = nearest n * 2 ^ 149 := by
  rcases Nat.eq_zero_or_pos n with rfl | hn
  · decide +kernel
  · have hgrain : max (grain (n * 2 ^ 149)) 149 = grain n + 149 := by
      rw [grain, grain, Binary.log2_mul_two_pow (Nat.ne_of_gt hn)]
      omega
    rw [nearestFrom, hgrain, halfEven_mul_two_pow, nearest, Nat.pow_add, Nat.mul_assoc]

/-- A part of a number that is finite and not negative is finite and not negative. -/
theorem isFinite_mul_of_le_one (ha : a.isFinite = true) (hapos : 0 ≤ a) (hb : b.isFinite = true)
    (hbpos : 0 ≤ b) (hle : b ≤ 1) : (a * b).isFinite = true ∧ 0 ≤ a * b := by
  rcases exists_units_eq hapos with ⟨n, hn⟩
  rcases exists_units_eq hbpos with ⟨k, hk⟩
  have hreads := reads_mul ha hb hn hk
  rcases hreads.units with ⟨p, hp, hunits⟩
  have hone : k ≤ 2 ^ 149 := by
    have hunit : units 1 = (2 ^ 149 : Nat) := by decide +kernel
    have := ((le_iff b 1).mp hle).2.2
    omega
  -- The number itself is not changed by rounding, and the product is rounded to at most it.
  have hdigits : nearest n = n := by
    have hround := rounding_units ha
    rw [hn, rounding_natCast] at hround
    exact Int.ofNat_inj.mp hround
  have hpn : p ≤ n := by
    have hmono := nearestFrom_mono 149 (Nat.mul_le_mul_left n hone)
    rw [nearestFrom_mul_one, hdigits, ← hp] at hmono
    exact Nat.le_of_mul_le_mul_right hmono (Nat.two_pow_pos 149)
  have hlt := natAbs_units_lt ha
  refine ⟨isFinite_of_natAbs_lt hreads.number ?_, hreads.nonneg⟩
  rw [hunits, clamp]
  omega

/-! ## Minima -/

/-- The minimum of two numbers is a number, and the lesser of them. -/
theorem min_spec (ha : a.isNaN = false) (hb : b.isNaN = false) :
    (Single.min a b).isNaN = false ∧ units (Single.min a b) = min (units a) (units b) := by
  unfold Single.min
  rw [ha, hb, if_neg Bool.false_ne_true, if_neg Bool.false_ne_true]
  by_cases hlt : b < a
  · rw [if_pos hlt]
    rw [lt_iff] at hlt
    exact ⟨hb, by omega⟩
  · rw [if_neg hlt]
    rw [lt_iff] at hlt
    have hle : units a ≤ units b := Int.not_lt.mp fun h => hlt ⟨hb, ha, h⟩
    exact ⟨ha, by omega⟩

end Single

end Flowchart
