import Flowchart.Proofs.Binary.Rounding
import Flowchart.Proofs.Single.Rounding
import Flowchart.Proofs.Single.Units

/-!
# Sums of Singles

The exact sum of two finite singles is a whole number of units, and their sum
as singles is that number rounded, and cut off at infinity if it is too large.
Both steps keep the order and leave alone what is a single already. So to add
something that is not negative never leads to something smaller, whatever is
lost by rounding: this is what a sweep over the boxes of a drawing relies on.

## Main definitions

* `Single.rounding`: A reading of either sign, rounded to 24 digits.

## Theorems

* `rounding_mono`: Rounding keeps the order, for either sign.
* `round_eq`: What the code rounds to is the nearest of 24 digits.
* `isRounding_add`: The sum of two finite floats is their exact sum rounded.
* `units_add`: The reading of a sum of finite singles.
* `le_add`: What is not negative makes no sum smaller.
-/

namespace Flowchart

namespace Single

open Float.Model (Format UnpackedFloat totalExponent)
open Float.Model.UnpackedFloat

/-! ## Rounded readings -/

/-- A reading of either sign, rounded to 24 digits. -/
def rounding (n : Int) : Int := if 0 ≤ n then nearest n.toNat else -nearest (-n).toNat

theorem rounding_mono {a b : Int} (h : a ≤ b) : rounding a ≤ rounding b := by
  unfold rounding
  by_cases ha : 0 ≤ a
  · have hnear : nearest a.toNat ≤ nearest b.toNat := nearest_mono (by omega)
    rw [if_pos ha, if_pos (by omega)]
    omega
  · rw [if_neg ha]
    by_cases hb : 0 ≤ b
    · rw [if_pos hb]
      omega
    · have hnear : nearest (-b).toNat ≤ nearest (-a).toNat := nearest_mono (by omega)
      rw [if_neg hb]
      omega

theorem rounding_natCast (n : Nat) : rounding n = nearest n := by
  unfold rounding
  rw [if_pos (Int.natCast_nonneg n), Int.toNat_natCast]

theorem rounding_neg_natCast (n : Nat) : rounding (-n) = -nearest n := by
  unfold rounding
  by_cases hn : n = 0
  · rw [hn]
    decide
  · rw [if_neg (by omega), Int.neg_neg, Int.toNat_natCast]

theorem rounding_neg (n : Int) : rounding (-n) = -rounding n := by
  rcases Int.natAbs_eq n with hn | hn
  · rw [hn, rounding_neg_natCast, rounding_natCast]
  · rw [hn, Int.neg_neg, rounding_neg_natCast, rounding_natCast, Int.neg_neg]

theorem rounding_apply (s : Sign) (n : Nat) : rounding (s.apply n) = s.apply (nearest n) := by
  cases s with
  | positive => exact rounding_natCast n
  | negative => exact rounding_neg_natCast n

theorem clamp_mono {a b : Int} (h : a ≤ b) : clamp a ≤ clamp b := by
  unfold clamp
  omega

/-- The reading of a finite single is what it is after rounding. -/
theorem rounding_unitsOf {u : UnpackedFloat} (hc : Canonical u) (hf : u.isFinite = true) :
    rounding (unitsOf u) = unitsOf u := by
  cases u with
  | notANumber => exact absurd hf Bool.false_ne_true
  | infinity s => exact absurd hf Bool.false_ne_true
  | zero s => exact rounding_natCast 0
  | finite s m e hm =>
      rw [unitsOf_finite, rounding_apply, scale, nearest_of_digits hc.rounded.1]

theorem clamp_unitsOf {u : UnpackedFloat} (hc : Canonical u) : clamp (unitsOf u) = unitsOf u := by
  rw [← unitsOf_bounded hc.rounded, hc.bounded]

/-! ## Sums -/

/-- What the rounded sum of two finite floats is. -/
structure IsRounding (u : UnpackedFloat) (n : Int) : Prop where
  rounded : Rounded u
  finite : u.isFinite = true
  units : unitsOf u = rounding n

/-- In multiples of the unit a number is rounded to its nearest of 24 digits. -/
theorem round_eq {s : Sign} {m : Nat} {e : Int} (hm : m ≠ 0) (he : -149 ≤ e) :
    UnpackedFloat.round .binary32 s m e = Binary.carried .binary32 s
      (halfEven (scale m e) (grain (scale m e))) (grain (scale m e) - 149) := by
  rcases Binary.exists_round_eq (f := .binary32) s hm he with
    ⟨m', e', k, hround, hm', hk, hmin, hscale⟩
  rw [hround, Binary.roundWithAccuracy_eq s .exact hk, (shifted_shiftRight m' k).roundedMantissa_eq]
  rw [Binary.target_eq] at hk
  change -149 ≤ e' at hmin
  change max (m'.log2 + e' - 23) (-149) = e' + k at hk
  change scale m' e' = scale m e at hscale
  rw [← hscale]
  -- Counted in units the mantissa has `j` more bits, all of them zero.
  generalize hj : (e' + 149).toNat = j
  have hunits : scale m' e' = m' * 2 ^ j := by rw [scale, hj]
  have hgrain : grain (m' * 2 ^ j) = k + j := by
    rw [grain, Binary.log2_mul_two_pow hm']
    omega
  rw [hunits, hgrain, halfEven_mul_two_pow]
  congr 1
  omega

theorem isRounding_round (s : Sign) {m : Nat} {e : Int} (hm : m ≠ 0) (he : -149 ≤ e) :
    IsRounding (UnpackedFloat.round .binary32 s m e) (s.apply (scale m e)) := by
  rw [round_eq hm he]
  generalize scale m e = n
  have hleast : Format.binary32.minExponent ≤ (grain n : Int) - 149 := by
    change (-149 : Int) ≤ _
    omega
  refine ⟨rounded_iff.mpr (Binary.rounded_carried (halfEven_grain_le n) hleast ?_),
    Binary.isFinite_carried _ _ _, ?_⟩
  · -- The last digit is the unit, or all digits are there.
    by_cases hg : grain n = 0
    · rw [hg]
      exact Or.inr rfl
    · exact Or.inl (le_halfEven_grain hg)
  · rw [unitsOf_eq, Binary.unitsOf_carried hleast, rounding_apply, nearest]
    change s.apply (scale _ _) = _
    rw [scale]
    congr 4
    omega

theorem isRounding_normalize {n e : Int} (he : -149 ≤ e) :
    IsRounding (UnpackedFloat.normalize .binary32 n e .positive) (n * 2 ^ (e + 149).toNat) :=
  Binary.normalize_of_round (P := IsRounding) ⟨trivial, rfl, rfl⟩
    (fun s _ hm => isRounding_round s hm he) n

/-- A float with a finer exponent is the same number. -/
theorem apply_decreaseExponent {s : Sign} {m : Nat} {e t : Int} (ht : -149 ≤ t) (hte : t ≤ e) :
    s.apply ((decreaseExponent m e t).1 : Nat) * 2 ^ (t + 149).toNat = s.apply (scale m e) :=
  Binary.apply_decreaseExponent (f := .binary32) ht hte

/-- The sum of two finite floats is the rounding of their exact sum. -/
theorem isRounding_add {u v : UnpackedFloat} (hu : Canonical u) (hv : Canonical v)
    (huf : u.isFinite = true) (hvf : v.isFinite = true) :
    IsRounding (UnpackedFloat.add .binary32 u v) (unitsOf u + unitsOf v) := by
  -- A zero adds nothing, and only two finite numbers are brought to one exponent.
  cases u with
  | notANumber => exact absurd huf Bool.false_ne_true
  | infinity s => exact absurd huf Bool.false_ne_true
  | zero s =>
      cases v with
      | notANumber => exact absurd hvf Bool.false_ne_true
      | infinity t => exact absurd hvf Bool.false_ne_true
      | zero t => cases s <;> cases t <;> exact ⟨trivial, rfl, rfl⟩
      | finite t n f hn =>
          refine ⟨hv.rounded, rfl, ?_⟩
          rw [show unitsOf (.zero s) = 0 from rfl, Int.zero_add, rounding_unitsOf hv hvf]
          rfl
  | finite s m e hm =>
      cases v with
      | notANumber => exact absurd hvf Bool.false_ne_true
      | infinity t => exact absurd hvf Bool.false_ne_true
      | zero t =>
          refine ⟨hu.rounded, rfl, ?_⟩
          rw [show unitsOf (.zero t) = 0 from rfl, Int.add_zero, rounding_unitsOf hu huf]
          rfl
      | finite t n f hn =>
          -- The finer of the two exponents is that of the sum.
          have he := hu.rounded.2.1
          have hf := hv.rounded.2.1
          have hsum := isRounding_normalize (e := min e f)
            (n := s.apply ((decreaseExponent m e (min e f)).1 : Nat) +
              t.apply ((decreaseExponent n f (min e f)).1 : Nat)) (by omega)
          rw [Int.add_mul, apply_decreaseExponent (by omega) (by omega),
            apply_decreaseExponent (by omega) (by omega)] at hsum
          exact hsum

/-- The reading of a sum of finite singles. What is finite may become an
    infinity, but is never missing. -/
theorem units_add {a b : Float32} (ha : a.isFinite = true) (hb : b.isFinite = true) :
    (a + b).isNaN = false ∧ units (a + b) = clamp (rounding (units a + units b)) := by
  have hsum := isRounding_add (canonical_unpack a.toModel) (canonical_unpack b.toModel) ha hb
  have hnan : (a + b).isNaN = _ :=
    Binary.isNaN_unpack_pack one_lt_half (rounded_iff.mp hsum.rounded)
  have hpack : (a + b).toModel.unpack = _ := unpack_pack hsum.rounded
  refine ⟨hnan.trans (Binary.isNaN_of_isFinite hsum.finite), ?_⟩
  rw [units, hpack, unitsOf_bounded hsum.rounded, hsum.units]
  rfl

theorem units_mem (a : Float32) : -(top : Int) ≤ units a ∧ units a ≤ top := by
  have hclamp : clamp (units a) = units a := clamp_unitsOf (canonical_unpack a.toModel)
  unfold clamp at hclamp
  omega

theorem add_infinity {u : UnpackedFloat} (hf : u.isFinite = true) (s : Sign) :
    UnpackedFloat.add .binary32 u (.infinity s) = .infinity s := by
  cases u with
  | notANumber => exact absurd hf Bool.false_ne_true
  | infinity t => exact absurd hf Bool.false_ne_true
  | zero t => rfl
  | finite t m e h => rfl

/-- Infinity stays what it is, whatever is added but its opposite. -/
theorem infinity_add {v : UnpackedFloat} (hnan : v.isNaN = false) (hpos : 0 ≤ unitsOf v) :
    UnpackedFloat.add .binary32 (.infinity .positive) v = .infinity .positive := by
  have htop := zero_lt_top
  cases v with
  | notANumber => exact absurd hnan.symm Bool.false_ne_true
  | infinity s =>
      cases s with
      | positive => rfl
      | negative =>
          rw [unitsOf_infinity] at hpos
          dsimp only [Sign.apply] at hpos
          omega
  | zero s => rfl
  | finite s m e h => rfl

theorem units_add_of_infinity {a b : Float32}
    (h : UnpackedFloat.add .binary32 a.toModel.unpack b.toModel.unpack = .infinity .positive) :
    (a + b).isNaN = false ∧ units (a + b) = top := by
  have hpack : (a + b).toModel.unpack =
      (Float32.Model.pack (UnpackedFloat.add .binary32 a.toModel.unpack b.toModel.unpack)).unpack :=
    rfl
  rw [isNaN_eq, units, hpack, h, unpack_pack (u := .infinity .positive) trivial]
  exact ⟨rfl, rfl⟩

/-- What is neither missing nor finite, and is not negative infinity either. -/
theorem unpack_eq_infinity {a : Float32} (hnan : a.isNaN = false) (hinf : ¬a.isFinite = true)
    (hlow : -(top : Int) < units a) : a.toModel.unpack = .infinity .positive := by
  rcases Binary.exists_eq_infinity hnan hinf with ⟨s, hs⟩
  rw [units, hs, unitsOf_infinity] at hlow
  cases s with
  | positive => exact hs
  | negative => exact absurd hlow (Int.lt_irrefl _)

/-- What is not negative makes no sum smaller. Only a sum with negative infinity
    need not be a number. -/
theorem le_add {a b : Float32} (ha : a.isNaN = false) (hlow : -(top : Int) < units a)
    (hb : b.isNaN = false) (hpos : 0 ≤ units b) :
    (a + b).isNaN = false ∧ units a ≤ units (a + b) := by
  -- An infinity is never exceeded, so it is enough that the sum is one.
  have hinf : UnpackedFloat.add .binary32 a.toModel.unpack b.toModel.unpack =
      .infinity .positive → (a + b).isNaN = false ∧ units a ≤ units (a + b) := by
    intro h
    rcases units_add_of_infinity h with ⟨hnan, hunits⟩
    exact ⟨hnan, by rw [hunits]; exact (units_mem a).2⟩
  by_cases haf : a.isFinite = true
  · by_cases hbf : b.isFinite = true
    · rcases units_add haf hbf with ⟨hnan, hsum⟩
      refine ⟨hnan, ?_⟩
      calc units a
          = clamp (rounding (units a)) := by
            rw [units, rounding_unitsOf (canonical_unpack _) haf,
              clamp_unitsOf (canonical_unpack _)]
        _ ≤ clamp (rounding (units a + units b)) := clamp_mono (rounding_mono (by omega))
        _ = units (a + b) := hsum.symm
    · have htop := zero_lt_top
      refine hinf ?_
      rw [unpack_eq_infinity hb hbf (by omega)]
      exact add_infinity haf _
  · refine hinf ?_
    rw [unpack_eq_infinity ha haf hlow]
    exact infinity_add hb hpos

/-- What is greater than something is not negative infinity. -/
theorem le_add_of_lt {a b c : Float32} (h : a < b) (hc : c.isNaN = false) (hpos : 0 ≤ units c) :
    (b + c).isNaN = false ∧ units b ≤ units (b + c) := by
  rw [lt_iff] at h
  have hlow := (units_mem a).1
  exact le_add h.2.1 (by omega) hc hpos

end Single

end Flowchart
