import Flowchart.Single
import Mathlib.Algebra.Order.Ring.Nat

/-!
# Rounding to a Single

An operation on singles is computed exactly and then rounded: of the digits of
the exact result 24 are kept, and a tie goes to the even neighbour. The code
that does this works on a mantissa and an exponent and shifts bits out one by
one, remembering of those it lost only what the tie needs. Whoever reasons
about a drawing wants to know one thing about it: rounding keeps the order.

Two descriptions stand in between. `halfEven n k` is the multiple of `2 ^ k`
nearest to `n`, counted in multiples, and says what the shifts compute.
`nearest n` is the rounded number itself, for whole `n`. The smallest positive
single is taken as the unit. Then every finite single is whole and so is every
sum of two, and whatever lies below the unit need not be spoken of.

## Main definitions

* `Single.halfEven`: A number with its last bits rounded away.
* `Single.nearest`: A number rounded to 24 digits.
* `Single.Shifted`: What is known of a number whose last bits were dropped.

## Theorems

* `halfEven_mono`, `nearest_mono`: Rounding keeps the order.
* `nearest_of_digits`: A number of 24 digits is its own nearest.
* `shifted_shiftRight`: What the shifts remember.
* `Shifted.roundedMantissa_eq`: What is made of a mantissa from that.
-/

namespace Flowchart

namespace Single

open Float.Model.UnpackedFloat

/-! ## The nearest multiple of a power of two -/

/-- How many times `2 ^ k` the number is, a tie going to the even count. -/
def halfEven (n k : Nat) : Nat :=
  if 2 * (n % 2 ^ k) < 2 ^ k then n / 2 ^ k
  else if 2 * (n % 2 ^ k) = 2 ^ k then n / 2 ^ k + n / 2 ^ k % 2
  else n / 2 ^ k + 1

theorem div_le_halfEven (n k : Nat) : n / 2 ^ k ≤ halfEven n k := by
  unfold halfEven
  split
  · exact Nat.le_refl _
  · split <;> omega

theorem halfEven_le_succ (n k : Nat) : halfEven n k ≤ n / 2 ^ k + 1 := by
  unfold halfEven
  split
  · omega
  · split <;> omega

theorem halfEven_mono {n m : Nat} (h : n ≤ m) (k : Nat) : halfEven n k ≤ halfEven m k := by
  have hdiv : n / 2 ^ k ≤ m / 2 ^ k := Nat.div_le_div_right h
  by_cases heq : n / 2 ^ k = m / 2 ^ k
  · -- Of two numbers with the same multiple below them the remainders decide.
    have hn := Nat.div_add_mod n (2 ^ k)
    have hm := Nat.div_add_mod m (2 ^ k)
    rw [heq] at hn
    have hmod : n % 2 ^ k ≤ m % 2 ^ k := by omega
    have hlt := Nat.mod_lt m (Nat.two_pow_pos k)
    by_cases hlow : 2 * (n % 2 ^ k) < 2 ^ k
    · calc halfEven n k
          = n / 2 ^ k := if_pos hlow
        _ = m / 2 ^ k := heq
        _ ≤ halfEven m k := div_le_halfEven m k
    · by_cases htie : 2 * (n % 2 ^ k) = 2 ^ k
      · -- The other one is tied with it, or rounded up for certain.
        unfold halfEven
        rw [if_neg hlow, if_pos htie, if_neg (by omega), heq]
        split <;> omega
      · unfold halfEven
        rw [if_neg hlow, if_neg htie, if_neg (by omega), if_neg (by omega), heq]
  · -- Between different multiples there is room to round up and down.
    have hsucc := halfEven_le_succ n k
    have hle := div_le_halfEven m k
    omega

/-- Bits that are zero make no difference. -/
theorem halfEven_mul_two_pow (n k j : Nat) : halfEven (n * 2 ^ j) (k + j) = halfEven n k := by
  have hpos : 0 < 2 ^ j := Nat.two_pow_pos j
  have hdiv : n * 2 ^ j / 2 ^ (k + j) = n / 2 ^ k := by
    rw [Nat.pow_add, Nat.mul_div_mul_right _ _ hpos]
  have hmod : n * 2 ^ j % 2 ^ (k + j) = n % 2 ^ k * 2 ^ j := by
    rw [Nat.pow_add, Nat.mul_mod_mul_right]
  have hlt : 2 * (n % 2 ^ k * 2 ^ j) < 2 ^ (k + j) ↔ 2 * (n % 2 ^ k) < 2 ^ k := by
    rw [Nat.pow_add, ← Nat.mul_assoc]
    exact Nat.mul_lt_mul_right hpos
  have heq : 2 * (n % 2 ^ k * 2 ^ j) = 2 ^ (k + j) ↔ 2 * (n % 2 ^ k) = 2 ^ k := by
    rw [Nat.pow_add, ← Nat.mul_assoc]
    exact Nat.mul_left_inj (Nat.ne_of_gt hpos)
  unfold halfEven
  rw [hdiv, hmod]
  simp only [hlt, heq]

/-- A multiple of the power is no matter of rounding. -/
theorem halfEven_of_mul (q k : Nat) : halfEven (q * 2 ^ k) k = q := by
  unfold halfEven
  rw [Nat.mul_mod_left, if_pos (by have := Nat.two_pow_pos k; omega),
    Nat.mul_div_cancel _ (Nat.two_pow_pos k)]

/-! ## The nearest number of 24 digits -/

/-- How many of its last bits a number loses to rounding. -/
def grain (n : Nat) : Nat := n.log2 - 23

/-- The nearest number of 24 digits. -/
def nearest (n : Nat) : Nat := halfEven n (grain n) * 2 ^ grain n

theorem lt_two_pow_grain (n : Nat) : n < 2 ^ 24 * 2 ^ grain n := by
  rw [← Nat.pow_add]
  by_cases hn : n = 0
  · rw [hn]
    exact Nat.two_pow_pos _
  · rw [← Nat.log2_lt hn, grain]
    omega

theorem two_pow_grain_le {n : Nat} (h : grain n ≠ 0) : 2 ^ 23 * 2 ^ grain n ≤ n := by
  unfold grain at h ⊢
  rw [← Nat.pow_add, ← Nat.le_log2]
  · omega
  · rintro rfl
    exact h (by decide)

theorem grain_mono {n m : Nat} (h : n ≤ m) : grain n ≤ grain m := by
  unfold grain
  by_cases hn : n = 0
  · rw [hn]
    exact Nat.zero_le _
  · have hlog : n.log2 ≤ m.log2 := by
      rw [Nat.le_log2 (by omega)]
      exact Nat.le_trans (Nat.log2_self_le hn) h
    omega

theorem halfEven_grain_le (n : Nat) : halfEven n (grain n) ≤ 2 ^ 24 := by
  have hdiv : n / 2 ^ grain n < 2 ^ 24 := by
    rw [Nat.div_lt_iff_lt_mul (Nat.two_pow_pos _)]
    exact lt_two_pow_grain n
  exact Nat.le_trans (halfEven_le_succ n _) hdiv

theorem le_halfEven_grain {n : Nat} (h : grain n ≠ 0) : 2 ^ 23 ≤ halfEven n (grain n) := by
  refine Nat.le_trans ?_ (div_le_halfEven n _)
  rw [Nat.le_div_iff_mul_le (Nat.two_pow_pos _)]
  exact two_pow_grain_le h

/-- Rounding keeps the order, also where the number of lost bits changes: on
    both sides of such a place stands the same power of two. -/
theorem nearest_mono {n m : Nat} (h : n ≤ m) : nearest n ≤ nearest m := by
  unfold nearest
  by_cases hg : grain n = grain m
  · rw [hg]
    exact Nat.mul_le_mul_right _ (halfEven_mono h _)
  · have hlt : grain n + 1 ≤ grain m := by
      have := grain_mono h
      omega
    calc halfEven n (grain n) * 2 ^ grain n
        ≤ 2 ^ 24 * 2 ^ grain n := Nat.mul_le_mul_right _ (halfEven_grain_le n)
      _ = 2 ^ 23 * 2 ^ (grain n + 1) := by rw [Nat.pow_succ 2 (grain n)]; omega
      _ ≤ 2 ^ 23 * 2 ^ grain m :=
          Nat.mul_le_mul_left _ (Nat.pow_le_pow_right (by decide) hlt)
      _ ≤ halfEven m (grain m) * 2 ^ grain m :=
          Nat.mul_le_mul_right _ (le_halfEven_grain (by omega))

theorem nearest_of_dvd {n : Nat} (h : 2 ^ grain n ∣ n) : nearest n = n := by
  rcases h with ⟨q, hq⟩
  have hround : halfEven n (grain n) = q := by
    have hn := halfEven_of_mul q (grain n)
    rw [Nat.mul_comm, ← hq] at hn
    exact hn
  rw [nearest, hround, Nat.mul_comm, ← hq]

theorem nearest_of_digits {m : Nat} (h : m < 2 ^ 24) (k : Nat) :
    nearest (m * 2 ^ k) = m * 2 ^ k := by
  -- The bits that would be lost are zero.
  refine nearest_of_dvd (Nat.dvd_mul_left_of_dvd (Nat.pow_dvd_pow 2 ?_) m)
  by_cases hm : m = 0
  · rw [hm, Nat.zero_mul]
    exact Nat.zero_le _
  · have hlog : (m * 2 ^ k).log2 < 24 + k := by
      rw [Nat.log2_lt (Nat.mul_ne_zero hm (Nat.ne_of_gt (Nat.two_pow_pos k))), Nat.pow_add]
      exact Nat.mul_lt_mul_of_pos_right h (Nat.two_pow_pos k)
    unfold grain
    omega

/-! ## What the shifts compute -/

/-- What a shifted mantissa tells about the number that it came from: the
    number without its last `k` bits, and whether these make up a half or more,
    and something besides a half. -/
structure Shifted (em : ExtendedMantissa) (n k : Nat) : Prop where
  mantissa : em.mantissa = n / 2 ^ k
  roundBit : em.roundBit = true ↔ 2 ^ k ≤ 2 * (n % 2 ^ k)
  stickyBit : em.stickyBit = true ↔ 2 * (n % 2 ^ k) ≠ 0 ∧ 2 * (n % 2 ^ k) ≠ 2 ^ k

theorem shifted_zero (n : Nat) : Shifted (.ofMantissaAndAccuracy n .exact) n 0 where
  mantissa := (Nat.div_one n).symm
  roundBit := by
    rw [Nat.pow_zero, Nat.mod_one]
    exact iff_of_false Bool.false_ne_true (by decide)
  stickyBit := by
    rw [Nat.pow_zero, Nat.mod_one]
    exact iff_of_false Bool.false_ne_true (by decide)

theorem Shifted.shiftRightOne {em : ExtendedMantissa} {n k : Nat} (h : Shifted em n k) :
    Shifted em.shiftRightOne n (k + 1) := by
  -- The bit that falls out is the lowest of the quotient.
  have hmod : n % 2 ^ (k + 1) = n % 2 ^ k + 2 ^ k * (n / 2 ^ k % 2) := Nat.mod_pow_succ
  have hpow : 2 ^ (k + 1) = 2 * 2 ^ k := by omega
  have hlt := Nat.mod_lt n (Nat.two_pow_pos k)
  have hbit : n / 2 ^ k % 2 = 0 ∨ n / 2 ^ k % 2 = 1 := by omega
  refine ⟨?_, ?_, ?_⟩
  · rw [Nat.pow_succ, ← Nat.div_div_eq_div_mul, ← h.mantissa]
    rfl
  · rw [hmod, hpow]
    simp only [ExtendedMantissa.shiftRightOne, h.mantissa, bne_iff_ne, ne_eq]
    rcases hbit with hbit | hbit <;> rw [hbit] <;> omega
  · rw [hmod, hpow]
    simp only [ExtendedMantissa.shiftRightOne, Bool.or_eq_true, h.roundBit, h.stickyBit]
    rcases hbit with hbit | hbit <;> rw [hbit] <;> omega

theorem Shifted.shiftRight {em : ExtendedMantissa} {n j : Nat} (h : Shifted em n j) (k : Nat) :
    Shifted (em >>> k) n (j + k) := by
  induction k with
  | zero => exact h
  | succ k ih => exact ih.shiftRightOne

theorem shifted_shiftRight (n k : Nat) :
    Shifted (ExtendedMantissa.ofMantissaAndAccuracy n .exact >>> k) n k := by
  have hshifted := (shifted_zero n).shiftRight k
  rw [Nat.zero_add] at hshifted
  exact hshifted

theorem Shifted.roundedMantissa_eq {em : ExtendedMantissa} {n k : Nat} (h : Shifted em n k) :
    em.roundedMantissa = halfEven n k := by
  rcases em with ⟨m, round, sticky⟩
  rcases h with ⟨hm, hround, hsticky⟩
  dsimp only at hm hround hsticky
  unfold ExtendedMantissa.roundedMantissa halfEven
  have hpos := Nat.two_pow_pos k
  -- The two bits tell the four cases of a remainder apart: nothing, less than a
  -- half, a half, and more.
  cases round <;> cases sticky <;>
    simp only [true_iff, Bool.false_eq_true, false_iff] at hround hsticky <;>
    simp only [ExtendedMantissa.accuracy, Accuracy.roundToNearestEven, hm]
  · rw [if_pos (by omega)]
  · rw [if_pos (by omega)]
  · rw [if_neg (by omega), if_pos (by omega)]
  · rw [if_neg (by omega), if_neg (by omega)]

end Single

end Flowchart
