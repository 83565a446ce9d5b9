import Flowchart.Proofs.Binary.Units

/-!
# Rounding Is Faithful

A result that a format cannot hold is rounded to a neighbour. Which neighbour
depends on the digits that are lost, and matters to whoever computes with the
format; for how far apart things are it is enough that the rounded number is
off by no more than one in its last digit. The last digit of a number with all
its digits is a fixed part of the number, so the error is too: if there are `t`
digits after the first it is at most the number divided by `2 ^ t`. At the least
exponent nothing is left of this but the unit.

For a difference the exception does not arise, since the difference of two
multiples of the unit is a multiple of the unit. For a quotient it does.

## Main definitions

* `Binary.target`: The exponent at which a number is rounded.
* `Binary.carried`: A rounded mantissa, which may have a digit too many.
* `Binary.Near`: A float that is a whole number of units, but for rounding.
* `Binary.NearQuotient`: A float that is a quotient, but for rounding.

## Theorems

* `roundWithAccuracy_eq`: Rounding loses the digits below the target.
* `roundWithAccuracy_spec`: It takes one of the two neighbours.
* `normalize_of_round`: What holds of rounding holds with the sign taken out.
* `near_sub`: A difference is off by a fixed part of itself.
* `nearQuotient_div`: A quotient is off by a fixed part of itself, or by the
  unit.
-/

namespace Flowchart

namespace Binary

open Float.Model (Format UnpackedFloat totalExponent)
open Float.Model.UnpackedFloat

variable {f : Format}

/-! ## Neighbours -/

theorem mantissa_shiftRight (em : ExtendedMantissa) (k : Nat) :
    (em >>> k).mantissa = em.mantissa / 2 ^ k := by
  induction k with
  | zero => exact (Nat.div_one _).symm
  | succ k ih =>
      rw [Nat.pow_succ, ← Nat.div_div_eq_div_mul, ← ih]
      rfl

theorem mantissa_ofMantissaAndAccuracy (m : Nat) (acc : Accuracy) :
    (ExtendedMantissa.ofMantissaAndAccuracy m acc).mantissa = m := by
  cases acc with
  | exact => rfl
  | inexact o => cases o <;> rfl

/-- Rounding keeps a mantissa or makes it one more. -/
theorem roundedMantissa_mem (em : ExtendedMantissa) :
    em.mantissa ≤ em.roundedMantissa ∧ em.roundedMantissa ≤ em.mantissa + 1 := by
  unfold ExtendedMantissa.roundedMantissa
  generalize em.accuracy = acc
  cases acc with
  | exact => exact ⟨Nat.le_refl _, Nat.le_succ _⟩
  | inexact o =>
      cases o with
      | lt => exact ⟨Nat.le_refl _, Nat.le_succ _⟩
      | gt => exact ⟨Nat.le_succ _, Nat.le_refl _⟩
      | eq =>
          dsimp only [Accuracy.roundToNearestEven]
          omega

/-- The exponent at which a number is rounded: that of its last digit, or of
    the unit if that is coarser. -/
def target (f : Format) (m : Nat) (e : Int) : Int := f.targetExponent (totalExponent m e)

theorem target_eq (m : Nat) (e : Int) :
    target f m e = max (m.log2 + e - tail f) f.minExponent := by
  have hbits := mantissaBits_eq f
  unfold target Format.targetExponent totalExponent
  omega

theorem minExponent_le_target (m : Nat) (e : Int) : f.minExponent ≤ target f m e :=
  Int.le_max_right _ _

theorem shiftToTargetExponent_eq (m : Nat) (e : Int) (acc : Accuracy) :
    shiftToTargetExponent f m e acc =
      (ExtendedMantissa.ofMantissaAndAccuracy m acc >>> (target f m e - e).toNat,
        max e (target f m e)) := by
  have hexp : e + ((target f m e - e).toNat : Int) = max e (target f m e) := by omega
  rw [← hexp]
  rfl

/-- A rounded mantissa with a digit too many is a power of two, and takes the
    next exponent. -/
def carried (f : Format) (s : Sign) (q : Nat) (e : Int) : UnpackedFloat :=
  if q = 2 * 2 ^ tail f then ofParts s (2 ^ tail f) (e + 1) else ofParts s q e

theorem unitsOf_ofParts (s : Sign) (m : Nat) (e : Int) :
    unitsOf f (ofParts s m e) = s.apply (scale f m e) := by
  by_cases hm : m = 0
  · rw [ofParts, dif_pos hm, hm, scale, Nat.zero_mul]
    cases s <;> rfl
  · rw [ofParts_of_pos (Nat.pos_of_ne_zero hm)]
    rfl

theorem isFinite_ofParts (s : Sign) (m : Nat) (e : Int) : (ofParts s m e).isFinite = true := by
  rcases Nat.eq_zero_or_pos m with rfl | hpos
  · rfl
  · rw [ofParts_of_pos hpos]
    rfl

theorem rounded_ofParts {s : Sign} {m : Nat} {e : Int} (hm : m < 2 * 2 ^ tail f)
    (he : f.minExponent ≤ e) (hfull : 2 ^ tail f ≤ m ∨ e = f.minExponent) :
    Rounded f (ofParts s m e) := by
  rcases Nat.eq_zero_or_pos m with rfl | hpos
  · trivial
  · rw [ofParts_of_pos hpos]
    exact ⟨hm, he, hfull⟩

/-- To carry changes the digits but not the number. -/
theorem unitsOf_carried {s : Sign} {q : Nat} {e : Int} (he : f.minExponent ≤ e) :
    unitsOf f (carried f s q e) = s.apply (scale f q e) := by
  unfold carried
  by_cases hq : q = 2 * 2 ^ tail f
  · have hscale : scale f (2 ^ tail f) (e + 1) = scale f (2 * 2 ^ tail f) e := by
      unfold scale
      rw [show (e + 1 - f.minExponent).toNat = (e - f.minExponent).toNat + 1 by omega,
        Nat.pow_succ 2 (e - f.minExponent).toNat, Nat.mul_comm 2, Nat.mul_assoc, Nat.mul_comm 2]
    rw [if_pos hq, unitsOf_ofParts, hscale, hq]
  · rw [if_neg hq, unitsOf_ofParts]

theorem isFinite_carried (s : Sign) (q : Nat) (e : Int) : (carried f s q e).isFinite = true := by
  unfold carried
  split <;> exact isFinite_ofParts _ _ _

theorem rounded_carried {s : Sign} {q : Nat} {e : Int} (hq : q ≤ 2 * 2 ^ tail f)
    (he : f.minExponent ≤ e) (hfull : 2 ^ tail f ≤ q ∨ e = f.minExponent) :
    Rounded f (carried f s q e) := by
  have hpos := Nat.two_pow_pos (tail f)
  unfold carried
  by_cases hlast : q = 2 * 2 ^ tail f
  · rw [if_pos hlast]
    exact rounded_ofParts (by omega) (by omega) (Or.inl (Nat.le_refl _))
  · rw [if_neg hlast]
    exact rounded_ofParts (by omega) he hfull

/-- After the first shift there is nothing left to round, and at most one digit
    too many. -/
theorem ofParts_shift {s : Sign} {q : Nat} {t : Int} (hq : q ≤ 2 * 2 ^ tail f)
    (ht : f.minExponent ≤ t) :
    ofParts s (shiftToTargetExponent f q t .exact).1.mantissa
      (shiftToTargetExponent f q t .exact).2 = carried f s q t := by
  have hpow : 2 ^ (tail f + 1) = 2 * 2 ^ tail f := by omega
  have hpos := Nat.two_pow_pos (tail f)
  rw [shiftToTargetExponent_eq, mantissa_shiftRight, mantissa_ofMantissaAndAccuracy, target_eq,
    carried]
  by_cases hlast : q = 2 * 2 ^ tail f
  · -- The digit that is shifted out is zero.
    have hmax : max ((2 * 2 ^ tail f).log2 + t - tail f) f.minExponent = t + 1 := by
      rw [← hpow, Nat.log2_two_pow]
      omega
    rw [if_pos hlast, hlast, hmax, show (t + 1 - t).toNat = 1 by omega, Nat.pow_one,
      Nat.mul_div_cancel_left _ (by decide), Int.max_eq_right (by omega)]
  · -- Otherwise the digits fit already, and the shift is none.
    have hmax : max (q.log2 + t - tail f) f.minExponent ≤ t := by
      by_cases hzero : q = 0
      · rw [hzero, Nat.log2_zero]
        omega
      · have hlog : q.log2 < tail f + 1 := (Nat.log2_lt hzero).mpr (by omega)
        omega
    rw [if_neg hlast, Int.toNat_eq_zero.mpr (by omega), Nat.pow_zero, Nat.div_one,
      Int.max_eq_left hmax]

/-- What a number is rounded to at its target has at most one digit too many. -/
theorem roundedMantissa_le {m : Nat} {e : Int} {k : Nat} (hk : target f m e = e + k)
    (acc : Accuracy) :
    (ExtendedMantissa.ofMantissaAndAccuracy m acc >>> k).roundedMantissa ≤ 2 * 2 ^ tail f := by
  have hdiv : m / 2 ^ k < 2 * 2 ^ tail f := by
    rw [show 2 * 2 ^ tail f = 2 ^ (tail f + 1) by omega,
      Nat.div_lt_iff_lt_mul (Nat.two_pow_pos _), ← Nat.pow_add]
    by_cases hm : m = 0
    · rw [hm]
      exact Nat.two_pow_pos _
    · rw [target_eq] at hk
      rw [← Nat.log2_lt hm]
      omega
  -- Rounding adds one at most to the digits that are kept.
  have hhi := (roundedMantissa_mem (ExtendedMantissa.ofMantissaAndAccuracy m acc >>> k)).2
  rw [mantissa_shiftRight, mantissa_ofMantissaAndAccuracy] at hhi
  omega

/-- A number that is no coarser than its target loses the digits below it. -/
theorem roundWithAccuracy_eq (s : Sign) {m : Nat} {e : Int} (acc : Accuracy) {k : Nat}
    (hk : target f m e = e + k) :
    roundWithAccuracy f s m e acc = carried f s
      (ExtendedMantissa.ofMantissaAndAccuracy m acc >>> k).roundedMantissa (e + k) := by
  have hshift : (target f m e - e).toNat = k := by omega
  have hmin := minExponent_le_target (f := f) m e
  have hdigits := roundedMantissa_le hk acc
  rw [← ofParts_shift hdigits (by omega)]
  have hfirst := shiftToTargetExponent_eq (f := f) m e acc
  rw [hshift, Int.max_eq_right (by omega), hk] at hfirst
  unfold roundWithAccuracy
  rw [hfirst]
  rfl

/-- All digits are there, unless the exponent is the least. -/
theorem two_pow_le_of_target {m : Nat} {e : Int} {k : Nat} (hk : target f m e = e + k) :
    2 ^ tail f * 2 ^ k ≤ m ∨ e + k = f.minExponent := by
  have htail := f.hm
  rw [target_eq] at hk
  by_cases hleast : e + k = f.minExponent
  · exact Or.inr hleast
  · refine Or.inl ?_
    have hm : m ≠ 0 := by
      rintro rfl
      rw [Nat.log2_zero] at hk
      unfold tail at hk
      omega
    rw [← Nat.pow_add, ← Nat.le_log2 hm]
    omega

/-- In units a number is rounded to one of its neighbours. -/
theorem roundWithAccuracy_spec (s : Sign) {m : Nat} {e : Int} (acc : Accuracy) {k : Nat}
    (hk : target f m e = e + k) :
    Rounded f (roundWithAccuracy f s m e acc) ∧
      (roundWithAccuracy f s m e acc).isFinite = true ∧
      ∃ q, unitsOf f (roundWithAccuracy f s m e acc) = s.apply (scale f q (e + k)) ∧
        m / 2 ^ k ≤ q ∧ q ≤ m / 2 ^ k + 1 ∧ (k = 0 → acc = .exact → q = m) := by
  have hmin : f.minExponent ≤ e + k := by
    rw [← hk]
    exact minExponent_le_target m e
  -- The mantissa is the quotient by the digits that go, or one more.
  rcases roundedMantissa_mem (ExtendedMantissa.ofMantissaAndAccuracy m acc >>> k) with ⟨hlo, hhi⟩
  rw [mantissa_shiftRight, mantissa_ofMantissaAndAccuracy] at hlo hhi
  rw [roundWithAccuracy_eq s acc hk]
  refine ⟨rounded_carried (roundedMantissa_le hk acc) hmin ?_, isFinite_carried _ _ _, _,
    unitsOf_carried hmin, hlo, hhi, ?_⟩
  · refine (two_pow_le_of_target hk).imp_left fun hfull => Nat.le_trans ?_ hlo
    rw [Nat.le_div_iff_mul_le (Nat.two_pow_pos _)]
    exact hfull
  · -- Where no digit goes and none was lost before, nothing is rounded.
    rintro rfl rfl
    rfl

theorem log2_mul_two_pow {m : Nat} (hm : m ≠ 0) (k : Nat) : (m * 2 ^ k).log2 = m.log2 + k := by
  have hpos := Nat.two_pow_pos k
  rw [Nat.log2_eq_iff (Nat.mul_ne_zero hm (Nat.ne_of_gt hpos)), Nat.pow_add, Nat.add_right_comm,
    Nat.pow_add]
  exact ⟨Nat.mul_le_mul_right _ (Nat.log2_self_le hm),
    Nat.mul_lt_mul_of_pos_right Nat.lt_log2_self hpos⟩

/-- Before it is rounded a number that is too coarse is made finer. -/
theorem exists_round_eq (s : Sign) {m : Nat} {e : Int} (hm : m ≠ 0) (he : f.minExponent ≤ e) :
    ∃ m' e', ∃ k : Nat, UnpackedFloat.round f s m e = roundWithAccuracy f s m' e' .exact ∧
      m' ≠ 0 ∧ target f m' e' = e' + k ∧ f.minExponent ≤ e' ∧ scale f m' e' = scale f m e := by
  have htarget := target_eq (f := f) m e
  have hmin := minExponent_le_target (f := f) m e
  have hround : UnpackedFloat.round f s m e =
      roundWithAccuracy f s (m * 2 ^ (e - target f m e).toNat)
        (e - ((e - target f m e).toNat : Int)) .exact := by
    rw [← Nat.shiftLeft_eq]
    rfl
  -- Digits are added as far as the target lies below the exponent, which does not move the target.
  generalize hd : (e - target f m e).toNat = d at hround
  have hsame : target f (m * 2 ^ d) (e - d) = target f m e := by
    rw [target_eq, log2_mul_two_pow hm]
    omega
  refine ⟨_, _, (target f m e - (e - d)).toNat, hround,
    Nat.mul_ne_zero hm (Nat.ne_of_gt (Nat.two_pow_pos d)), by omega, by omega, ?_⟩
  rw [scale, scale, Nat.mul_assoc, ← Nat.pow_add]
  congr 2
  omega

theorem natCast_scale (m : Nat) (e : Int) :
    (scale f m e : Int) = m * 2 ^ (e - f.minExponent).toNat := by
  rw [scale, Int.natCast_mul, Int.natCast_pow]
  rfl

/-- What holds of zero and of all rounded numbers holds of a number with its
    sign taken out. -/
theorem normalize_of_round {P : UnpackedFloat → Int → Prop} {e : Int}
    (hzero : P (.zero .positive) 0)
    (hround : ∀ s m, m ≠ 0 → P (UnpackedFloat.round f s m e) (s.apply (scale f m e))) (n : Int) :
    P (UnpackedFloat.normalize f n e .positive) (n * 2 ^ (e - f.minExponent).toNat) := by
  unfold UnpackedFloat.normalize
  rcases Int.lt_trichotomy n 0 with hlt | rfl | hgt
  · -- A negative number is the rounded opposite with its sign.
    have hn : Sign.negative.apply (scale f (-n).toNat e) = n * 2 ^ (e - f.minExponent).toNat := by
      rw [natCast_scale, Int.toNat_of_nonneg (by omega), Sign.apply, Int.neg_mul, Int.neg_neg]
    rw [Int.compare_eq_lt.mpr hlt, ← hn]
    exact hround .negative _ (by omega)
  · rw [Int.compare_eq_eq.mpr rfl, Int.zero_mul]
    exact hzero
  · have hn : Sign.positive.apply (scale f n.toNat e) = n * 2 ^ (e - f.minExponent).toNat := by
      rw [natCast_scale, Int.toNat_of_nonneg (by omega), Sign.apply]
    rw [Int.compare_eq_gt.mpr hgt, ← hn]
    exact hround .positive _ (by omega)

/-! ## Whole numbers of units -/

/-- A float that is a whole number of units, but for an error that is a fixed
    part of it. -/
structure Near (f : Format) (u : UnpackedFloat) (n : Int) : Prop where
  rounded : Rounded f u
  finite : u.isFinite = true
  close : 2 ^ tail f * (unitsOf f u - n).natAbs ≤ n.natAbs

theorem natAbs_apply_sub (s : Sign) (a b : Nat) :
    (s.apply a - s.apply b).natAbs = ((a : Int) - b).natAbs := by
  cases s with
  | positive => rfl
  | negative =>
      dsimp only [Sign.apply]
      omega

theorem near_roundWithAccuracy (s : Sign) {m : Nat} {e : Int} {k : Nat}
    (hk : target f m e = e + k) (he : f.minExponent ≤ e) :
    Near f (roundWithAccuracy f s m e .exact) (s.apply (scale f m e)) := by
  rcases roundWithAccuracy_spec s .exact hk with ⟨hrounded, hfinite, q, hunits, hlo, hhi, hexact⟩
  refine ⟨hrounded, hfinite, ?_⟩
  rw [hunits, natAbs_apply_sub, natAbs_apply]
  rcases Nat.eq_zero_or_pos k with rfl | hpos
  · -- Nothing is lost.
    rw [hexact rfl rfl, Int.natCast_zero, Int.add_zero, Int.sub_self]
    exact Nat.zero_le _
  · -- The kept digits are all there, so that one in the last of them is a fixed part.
    have hfull := (two_pow_le_of_target hk).resolve_right (by omega)
    have hscale : scale f q (e + k) = q * 2 ^ k * 2 ^ (e - f.minExponent).toNat := by
      rw [scale, Nat.mul_assoc, ← Nat.pow_add]
      congr 2
      omega
    -- Between the neighbours there is one in the last digit.
    have hdiff : ((q * 2 ^ k : Nat) - (m : Int)).natAbs ≤ 2 ^ k := by
      have hm := Nat.div_add_mod m (2 ^ k)
      have hlt := Nat.mod_lt m (Nat.two_pow_pos k)
      have hlo := Nat.mul_le_mul_right (2 ^ k) hlo
      have hhi := Nat.mul_le_mul_right (2 ^ k) hhi
      rw [Nat.mul_comm] at hm
      rw [Nat.add_mul, Nat.one_mul] at hhi
      omega
    rw [hscale, scale, Int.natCast_mul _ (2 ^ _), Int.natCast_mul m, ← Int.sub_mul,
      Int.natAbs_mul, Int.natAbs_natCast, ← Nat.mul_assoc]
    exact Nat.mul_le_mul_right _ (Nat.le_trans (Nat.mul_le_mul_left _ hdiff) hfull)

theorem near_round (s : Sign) {m : Nat} {e : Int} (hm : m ≠ 0) (he : f.minExponent ≤ e) :
    Near f (UnpackedFloat.round f s m e) (s.apply (scale f m e)) := by
  rcases exists_round_eq s hm he with ⟨m', e', k, hround, _, hk, hmin, hscale⟩
  rw [hround, ← hscale]
  exact near_roundWithAccuracy s hk hmin

theorem near_normalize {n e : Int} (he : f.minExponent ≤ e) :
    Near f (UnpackedFloat.normalize f n e .positive) (n * 2 ^ (e - f.minExponent).toNat) :=
  normalize_of_round ⟨trivial, rfl, Nat.le_refl _⟩ (fun s _ hm => near_round s hm he) n

/-- A float with a finer exponent is the same number. -/
theorem apply_decreaseExponent {s : Sign} {m : Nat} {e t : Int} (ht : f.minExponent ≤ t)
    (hte : t ≤ e) :
    s.apply ((decreaseExponent m e t).1 : Nat) * 2 ^ (t - f.minExponent).toNat =
      s.apply (scale f m e) := by
  -- What the exponent loses the mantissa gains.
  have hfine : ((decreaseExponent m e t).1 : Int) * 2 ^ (t - f.minExponent).toNat =
      scale f m e := by
    have hexp : (e - f.minExponent).toNat = (e - t).toNat + (t - f.minExponent).toNat := by omega
    rw [decreaseExponent, Nat.shiftLeft_eq, natCast_scale, hexp, Int.pow_add, Int.natCast_mul,
      Int.natCast_pow, Int.mul_assoc]
    rfl
  cases s with
  | positive => exact hfine
  | negative =>
      simp only [Sign.apply]
      rw [Int.neg_mul, hfine]

theorem Near.of_eq {u : UnpackedFloat} {n : Int} (hr : Rounded f u) (hf : u.isFinite = true)
    (h : unitsOf f u = n) : Near f u n := by
  refine ⟨hr, hf, ?_⟩
  rw [h, Int.sub_self]
  exact Nat.zero_le _

/-- What is taken from itself leaves zero. -/
theorem sub_self {u : UnpackedFloat} (hf : u.isFinite = true) :
    UnpackedFloat.sub f u u = .zero .positive := by
  cases u with
  | notANumber => exact absurd hf Bool.false_ne_true
  | infinity s => exact absurd hf Bool.false_ne_true
  | zero s => cases s <;> rfl
  | finite s m e hm =>
      unfold UnpackedFloat.sub UnpackedFloat.normalize
      dsimp only
      rw [Int.sub_self]
      rfl

/-- A difference of finite floats is the exact difference, but for an error that
    is a fixed part of it. -/
theorem near_sub {u v : UnpackedFloat} (hu : Canonical f u) (hv : Canonical f v)
    (huf : u.isFinite = true) (hvf : v.isFinite = true) :
    Near f (UnpackedFloat.sub f u v) (unitsOf f u - unitsOf f v) := by
  cases u with
  | notANumber => exact absurd huf Bool.false_ne_true
  | infinity s => exact absurd huf Bool.false_ne_true
  | zero s =>
      cases v with
      | notANumber => exact absurd hvf Bool.false_ne_true
      | infinity t => exact absurd hvf Bool.false_ne_true
      | zero t => cases s <;> cases t <;> exact .of_eq trivial rfl rfl
      | finite t n e hn =>
          -- Zero takes nothing from the other side, and so there is no error.
          refine .of_eq hv.rounded rfl ?_
          cases t <;> dsimp only [unitsOf, UnpackedFloat.sub, Sign.apply] <;> omega
  | finite s m e hm =>
      cases v with
      | notANumber => exact absurd hvf Bool.false_ne_true
      | infinity t => exact absurd hvf Bool.false_ne_true
      | zero t => exact .of_eq hu.rounded rfl (Int.sub_zero _).symm
      | finite t n e' hn =>
          -- The finer of the two exponents is that of the difference.
          have he := hu.rounded.2.1
          have he' := hv.rounded.2.1
          have hsub := near_normalize (f := f) (e := min e e')
            (n := s.apply ((decreaseExponent m e (min e e')).1 : Nat) -
              t.apply ((decreaseExponent n e' (min e e')).1 : Nat)) (by omega)
          rw [Int.sub_mul, apply_decreaseExponent (by omega) (by omega),
            apply_decreaseExponent (by omega) (by omega)] at hsub
          exact hsub

/-! ## Quotients -/

/-- The reading of one. -/
def one (f : Format) : Nat := 2 ^ (-f.minExponent).toNat

/-- A float that is the quotient of two readings, but for an error that is a
    fixed part of it, or the unit. -/
structure NearQuotient (f : Format) (u : UnpackedFloat) (a b : Int) : Prop where
  rounded : Rounded f u
  finite : u.isFinite = true
  close : 2 ^ tail f * (unitsOf f u * b - a * one f).natAbs ≤
    (a * one f).natAbs + 2 ^ tail f * b.natAbs

/-- A quotient has as many digits as the difference of digits, or one less. -/
theorem le_log2_div {m n : Nat} (hm : m ≠ 0) (hn : n ≠ 0) :
    (m.log2 - n.log2 - 1 : Int) ≤ (m / n).log2 := by
  by_cases hlow : m.log2 < n.log2 + 1
  · omega
  · -- The divisor is below the next power of two, which can be divided by exactly.
    have hquot : 2 ^ (m.log2 - (n.log2 + 1)) ≤ m / n := by
      rw [Nat.le_div_iff_mul_le (Nat.pos_of_ne_zero hn)]
      calc 2 ^ (m.log2 - (n.log2 + 1)) * n
          ≤ 2 ^ (m.log2 - (n.log2 + 1)) * 2 ^ (n.log2 + 1) :=
            Nat.mul_le_mul_left _ (Nat.le_of_lt Nat.lt_log2_self)
        _ = 2 ^ m.log2 := by
            rw [← Nat.pow_add]
            congr 1
            omega
        _ ≤ m := Nat.log2_self_le hm
    have hpos := Nat.two_pow_pos (m.log2 - (n.log2 + 1))
    have hlog := (Nat.le_log2 (by omega)).mpr hquot
    omega

/-- A neighbour of a quotient is off by less than one in its last digit. -/
theorem natAbs_neighbour_sub_le {m n q k : Nat} (hn : 0 < n) (hlo : m / n / 2 ^ k ≤ q)
    (hhi : q ≤ m / n / 2 ^ k + 1) : ((q * 2 ^ k * n : Nat) - (m : Int)).natAbs ≤ 2 ^ k * n := by
  have hdiv := Nat.div_add_mod (m / n) (2 ^ k)
  have hlt := Nat.mod_lt (m / n) (Nat.two_pow_pos k)
  have hlo := Nat.mul_le_mul_right (2 ^ k) hlo
  have hhi := Nat.mul_le_mul_right (2 ^ k) hhi
  rw [Nat.mul_comm] at hdiv
  rw [Nat.add_mul, Nat.one_mul] at hhi
  -- The two divisions lose a remainder each, and both are less than their divisor.
  have habove : q * 2 ^ k * n ≤ (m / n + 2 ^ k) * n := Nat.mul_le_mul_right n (by omega)
  have hbelow : (m / n + 1) * n ≤ (q * 2 ^ k + 2 ^ k) * n := Nat.mul_le_mul_right n (by omega)
  have hm := Nat.div_mul_le_self m n
  have hm' := Nat.lt_mul_div_succ m hn
  rw [Nat.mul_comm n] at hm'
  rw [Nat.add_mul] at habove hbelow
  rw [Nat.add_mul (m / n)] at hm'
  rw [Nat.add_mul] at hbelow
  omega

/-- The quotient that is rounded is not coarser than its target. -/
theorem divCore_le_target (m₁ m₂ : Nat) (e₁ e₂ : Int) (h₁ : m₁ ≠ 0) (h₂ : m₂ ≠ 0) :
    let t := min (e₁ - e₂) (f.targetExponent (totalExponent m₁ e₁ - totalExponent m₂ e₂))
    t ≤ target f (m₁ * 2 ^ (e₁ - e₂ - t).toNat / m₂) t := by
  intro t
  have ht : t = min (e₁ - e₂) (f.targetExponent (totalExponent m₁ e₁ - totalExponent m₂ e₂)) := rfl
  have hlog := le_log2_div (m := m₁ * 2 ^ (e₁ - e₂ - t).toNat)
    (Nat.mul_ne_zero h₁ (Nat.ne_of_gt (Nat.two_pow_pos _))) h₂
  rw [log2_mul_two_pow h₁] at hlog
  have hbits := mantissaBits_eq f
  unfold Format.targetExponent totalExponent at ht
  rw [target_eq]
  omega

theorem natAbs_div_apply_mul (s t : Sign) (x d a c : Nat) :
    ((s / t).apply x * t.apply d - s.apply a * c).natAbs =
      ((x * d : Nat) - (a * c : Nat) : Int).natAbs := by
  rw [Int.natCast_mul, Int.natCast_mul]
  cases s <;> cases t
  · change ((x : Int) * -d - -a * c).natAbs = _
    rw [Int.mul_neg, Int.neg_mul]
    omega
  · change (-(x : Int) * d - -a * c).natAbs = _
    rw [Int.neg_mul, Int.neg_mul]
    omega
  · change (-(x : Int) * -d - a * c).natAbs = _
    rw [Int.neg_mul_neg]
  · rfl

/-- Rounding a quotient whose digits reach `d` places further. -/
theorem nearQuotient_roundWithAccuracy (s t : Sign) {m n d k c : Nat} {e₁ e₂ r : Int}
    (acc : Accuracy) (hn : 0 < n) (he₁ : f.minExponent ≤ e₁) (he₂ : f.minExponent ≤ e₂)
    (hleast : f.minExponent ≤ 0) (hd : e₁ - e₂ = r + d) (hk : target f (m * 2 ^ d / n) r = r + k)
    (hc : r + e₂ - 2 * f.minExponent = c) :
    NearQuotient f (roundWithAccuracy f (s / t) (m * 2 ^ d / n) r acc)
      (s.apply (scale f m e₁)) (t.apply (scale f n e₂)) := by
  have hmin : f.minExponent ≤ r + k := by
    rw [← hk, target_eq]
    omega
  rcases roundWithAccuracy_spec (s / t) acc hk with ⟨hrounded, hfinite, q, hunits, hlo, hhi, _⟩
  refine ⟨hrounded, hfinite, ?_⟩
  -- Both products have `c` digits more than the quotient was made with.
  have hquot : scale f q (r + k) * scale f n e₂ = q * 2 ^ k * n * 2 ^ c := by
    have hexp : (r + k - f.minExponent).toNat + (e₂ - f.minExponent).toNat = k + c := by omega
    calc scale f q (r + k) * scale f n e₂
        = q * n * 2 ^ ((r + k - f.minExponent).toNat + (e₂ - f.minExponent).toNat) := by
          rw [scale, scale, Nat.mul_mul_mul_comm, ← Nat.pow_add]
      _ = q * 2 ^ k * n * 2 ^ c := by
          rw [hexp, Nat.pow_add, Nat.mul_mul_mul_comm, Nat.mul_assoc (q * 2 ^ k)]
  have hexact : scale f m e₁ * one f = m * 2 ^ d * 2 ^ c := by
    have hexp : (e₁ - f.minExponent).toNat + (-f.minExponent).toNat = d + c := by omega
    rw [scale, one, Nat.mul_assoc, ← Nat.pow_add, hexp, Nat.pow_add, Nat.mul_assoc]
  -- The error is one in the last digit of the quotient, in those digits.
  have herror : ((q * 2 ^ k * n * 2 ^ c : Nat) - (m * 2 ^ d * 2 ^ c : Nat) : Int).natAbs ≤
      2 ^ k * n * 2 ^ c := by
    rw [Int.natCast_mul _ (2 ^ c), Int.natCast_mul (m * 2 ^ d), ← Int.sub_mul, Int.natAbs_mul,
      Int.natAbs_natCast]
    exact Nat.mul_le_mul_right _ (natAbs_neighbour_sub_le hn hlo hhi)
  have happly : (s.apply (scale f m e₁) * (one f : Int)).natAbs = scale f m e₁ * one f := by
    rw [Int.natAbs_mul, natAbs_apply, Int.natAbs_natCast]
  rw [hunits, natAbs_div_apply_mul, happly, natAbs_apply, hquot, hexact]
  refine Nat.le_trans (Nat.mul_le_mul_left _ herror) ?_
  rcases two_pow_le_of_target hk with hfull | hunit
  · -- The last digit is a fixed part of the quotient.
    refine Nat.le_trans ?_ (Nat.le_add_right _ _)
    rw [Nat.le_div_iff_mul_le hn] at hfull
    rw [← Nat.mul_assoc, ← Nat.mul_assoc]
    exact Nat.mul_le_mul_right _ hfull
  · -- The last digit is the unit.
    refine Nat.le_trans (Nat.mul_le_mul_left _ (Nat.le_of_eq ?_)) (Nat.le_add_left _ _)
    rw [scale, Nat.mul_comm (2 ^ k), Nat.mul_assoc, ← Nat.pow_add]
    congr 2
    omega

/-- A quotient of finite floats is the exact quotient, but for an error that is
    a fixed part of it, or the unit. -/
theorem nearQuotient_div (hleast : f.minExponent ≤ 0) {u v : UnpackedFloat} (hu : Canonical f u)
    (hv : Canonical f v) (huf : u.isFinite = true) (hvf : v.isFinite = true)
    (hne : unitsOf f v ≠ 0) :
    NearQuotient f (UnpackedFloat.div f u v) (unitsOf f u) (unitsOf f v) := by
  cases v with
  | notANumber => exact absurd hvf Bool.false_ne_true
  | infinity t => exact absurd hvf Bool.false_ne_true
  | zero t => exact absurd rfl hne
  | finite t n e₂ hn =>
      cases u with
      | notANumber => exact absurd huf Bool.false_ne_true
      | infinity s => exact absurd huf Bool.false_ne_true
      | zero s =>
          -- Zero divided is zero.
          refine ⟨trivial, rfl, ?_⟩
          change 2 ^ tail f * (0 * _ - 0 * _ : Int).natAbs ≤ _
          rw [Int.zero_mul, Int.zero_mul]
          exact Nat.zero_le _
      | finite s m e₁ hm =>
          have he₁ := hu.rounded.2.1
          have he₂ := hv.rounded.2.1
          have htarget := divCore_le_target (f := f) m n e₁ e₂ (Nat.ne_of_gt hm) (Nat.ne_of_gt hn)
          -- A quotient is made with enough digits and then rounded once.
          have hcore : UnpackedFloat.div f (.finite s m e₁ hm) (.finite t n e₂ hn) =
              let r := min (e₁ - e₂) (f.targetExponent (totalExponent m e₁ - totalExponent n e₂))
              roundWithAccuracy f (s / t) (m <<< (e₁ - e₂ - r).toNat / n) r
                (accuracyOfFraction (m <<< (e₁ - e₂ - r).toNat % n) n) :=
            rfl
          rw [hcore]
          -- The exponent of the quotient is not greater than the exact one, and
          -- otherwise not less than the least.
          have hbounds : ∀ x, f.minExponent ≤ f.targetExponent x := fun x => Int.le_max_right _ _
          have hlow := hbounds (totalExponent m e₁ - totalExponent n e₂)
          dsimp only at htarget ⊢
          rw [Nat.shiftLeft_eq]
          generalize f.targetExponent (totalExponent m e₁ - totalExponent n e₂) = x at *
          generalize hr : min (e₁ - e₂) x = r at *
          exact nearQuotient_roundWithAccuracy s t
            (k := (target f (m * 2 ^ (e₁ - e₂ - r).toNat / n) r - r).toNat)
            (c := (r + e₂ - 2 * f.minExponent).toNat) _ hn he₁ he₂ hleast (by omega) (by omega)
            (by omega)

end Binary

end Flowchart
