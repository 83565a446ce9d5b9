import Flowchart.Proofs.Double
import Flowchart.Proofs.Single.Sum

/-!
# Operations That Lose Nothing

An operation on singles loses nothing if what it makes of numbers is the number
that it stands for: no digit is rounded away and the range is not left. A run
is a list of operations, and what loses nothing can be computed with as with
integers. Operands that are not numbers, or infinite, are none of this: they
lose nothing, but nothing finite ever comes of them either.

That a number is a single says something about its digits, and two singles
whose sum is a single are not of very different sizes: the last digit of the
sum must still reach the lesser one.

## Main definitions

* `Single.Operation`: An operation that makes a single.
* `Single.Operation.Exact`: It loses nothing.
* `Single.Fits`: A reading that a single can have.

## Theorems

* `Operation.sum_exact` and others: What a finite result says of the operands.
* `Fits.natAbs_le`: Singles with an exact sum are not of very different sizes.
-/

namespace Flowchart

namespace Single

open Float.Model (Format UnpackedFloat)
open Float.Model.UnpackedFloat

theorem le_iff (a b : Float32) :
    a ≤ b ↔ a.isNaN = false ∧ b.isNaN = false ∧ units a ≤ units b := by
  change decide (a.toModel ≤ b.toModel) = true ↔ _
  rw [decide_eq_true_iff, units, units, unitsOf_eq, unitsOf_eq]
  exact Binary.le_iff (canonical_iff.mp (canonical_unpack _))
    (canonical_iff.mp (canonical_unpack _))

theorem nonneg_iff (a : Float32) : 0 ≤ a ↔ a.isNaN = false ∧ 0 ≤ units a := by
  rw [le_iff]
  exact ⟨fun h => h.2, fun h => ⟨rfl, h⟩⟩

theorem le_refl {a : Float32} (h : a.isNaN = false) : a ≤ a := by
  rw [le_iff]
  exact ⟨h, h, Int.le_refl _⟩

theorem le_trans {a b c : Float32} (hab : a ≤ b) (hbc : b ≤ c) : a ≤ c := by
  rw [le_iff] at *
  exact ⟨hab.1, hbc.2.1, Int.le_trans hab.2.2 hbc.2.2⟩

theorem not_lt_of_le {a b : Float32} (h : a ≤ b) : ¬b < a := by
  rw [le_iff] at h
  rw [lt_iff]
  omega

/-- Of two numbers one is not greater than the other. -/
theorem le_of_not_lt {a b : Float32} (ha : a.isNaN = false) (hb : b.isNaN = false)
    (h : ¬a < b) : b ≤ a := by
  rw [lt_iff] at h
  rw [le_iff]
  exact ⟨hb, ha, Int.not_lt.mp fun hlt => h ⟨ha, hb, hlt⟩⟩

theorem isNaN_of_isFinite {a : Float32} (h : a.isFinite = true) : a.isNaN = false :=
  Binary.isNaN_of_isFinite h

/-! ## Finite results -/

section finite

variable {a b : Float32}

theorem isFinite_of_add (h : (a + b).isFinite = true) : a.isFinite = true ∧ b.isFinite = true :=
  Binary.strict_add _ _ (Binary.isFinite_of_unpack_pack one_lt_half h)

theorem isFinite_of_sub (h : (a - b).isFinite = true) : a.isFinite = true ∧ b.isFinite = true :=
  Binary.strict_sub _ _ (Binary.isFinite_of_unpack_pack one_lt_half h)

theorem isFinite_of_mul (h : (a * b).isFinite = true) : a.isFinite = true ∧ b.isFinite = true :=
  Binary.strict_mul _ _ (Binary.isFinite_of_unpack_pack one_lt_half h)

theorem isFinite_of_div (h : (a / b).isFinite = true) : a.isFinite = true :=
  Binary.isFinite_of_div (Binary.isFinite_of_unpack_pack one_lt_half h)

theorem isFinite_of_ofDouble {x : Float} (h : (ofDouble x).isFinite = true) :
    x.isFinite = true := by
  change x.toModel.unpack.isFinite = true
  unfold ofDouble at h
  cases hx : x.toModel.unpack with
  | finite s m e hm => rfl
  | zero s => rfl
  | infinity s =>
      rw [hx] at h
      exact Binary.isFinite_of_unpack_pack one_lt_half h
  | notANumber =>
      rw [hx] at h
      exact Binary.isFinite_of_unpack_pack one_lt_half h

end finite

theorem natAbs_units_lt {a : Float32} (h : a.isFinite = true) : (units a).natAbs < top := by
  rw [units, unitsOf_eq]
  exact Binary.natAbs_unitsOf_lt (canonical_iff.mp (canonical_unpack a.toModel)) h

/-- What is within the range is finite. -/
theorem isFinite_of_natAbs_lt {a : Float32} (hnan : a.isNaN = false)
    (h : (units a).natAbs < top) : a.isFinite = true := by
  refine Binary.isFinite_of_natAbs_lt (f := .binary32) hnan ?_
  rw [← unitsOf_eq]
  exact h

theorem neg_top_lt_units {a : Float32} (h : a.isFinite = true) : -(top : Int) < units a := by
  have hlt := natAbs_units_lt h
  omega

/-- A sum of finite singles that does not exceed a finite one is not rounded past
    it. -/
theorem units_add_le {a b c : Float32} (ha : a.isFinite = true) (hb : b.isFinite = true)
    (hc : c.isFinite = true) (h : units a + units b ≤ units c) : units (a + b) ≤ units c := by
  calc units (a + b)
      = clamp (rounding (units a + units b)) := (units_add ha hb).2
    _ ≤ clamp (rounding (units c)) := clamp_mono (rounding_mono h)
    _ = units c := by
        rw [units, rounding_unitsOf (canonical_unpack _) hc, clamp_unitsOf (canonical_unpack _)]

/-- What is less than something, and more than itself grown by a number, is
    finite. -/
theorem isFinite_of_lt {a b c d : Float32} (hb : b.isFinite = true) (hac : a < c)
    (hd : d < a + b) : a.isFinite = true := by
  rw [lt_iff] at hac hd
  have hc := (units_mem c).2
  have hlow := (units_mem d).1
  by_contra hinf
  rcases Binary.exists_eq_infinity hac.1 hinf with ⟨sign, ha⟩
  have hunits : units a = sign.apply top := by
    rw [units, ha, unitsOf_infinity]
  cases sign with
  | positive =>
      -- Nothing is beyond positive infinity.
      dsimp only [Sign.apply] at hunits
      omega
  | negative =>
      -- Negative infinity stays what it is.
      have hsum : UnpackedFloat.add .binary32 a.toModel.unpack b.toModel.unpack =
          .infinity .negative := by
        rw [ha]
        exact Binary.infinity_add hb .negative
      have hpack : (a + b).toModel.unpack =
          (Float32.Model.pack (UnpackedFloat.add .binary32 a.toModel.unpack
            b.toModel.unpack)).unpack :=
        rfl
      rw [hsum, unpack_pack (u := .infinity .negative) trivial] at hpack
      have htop : units (a + b) = -top := by
        rw [units, hpack]
        rfl
      omega

/-! ## Operations -/

/-- How many times the unit of doubles that of singles is. -/
@[irreducible] def doubles : Nat := 2 ^ 925

theorem one_eq_mul_doubles : Double.one = 2 ^ 149 * doubles := by decide +kernel

/-- An operation that makes a single. -/
inductive Operation where
  | sum (a b : Float32)
  | difference (a b : Float32)
  | product (a b : Float32)
  | half (a : Float32)
  /-- The single nearest to a double. -/
  | narrowing (x : Float)

namespace Operation

/-- Of numbers the operation makes the number that it stands for. A product of
    readings counts squares of the unit, of which `2 ^ 149` make a unit. -/
def Exact : Operation → Prop
  | sum a b => a.isFinite = true → b.isFinite = true →
      (a + b).isFinite = true ∧ units (a + b) = units a + units b
  | difference a b => a.isFinite = true → b.isFinite = true →
      (a - b).isFinite = true ∧ units (a - b) = units a - units b
  | product a b => a.isFinite = true → b.isFinite = true →
      (a * b).isFinite = true ∧ units (a * b) * 2 ^ 149 = units a * units b
  | half a => a.isFinite = true → (a / 2).isFinite = true ∧ 2 * units (a / 2) = units a
  | narrowing x => x.isFinite = true →
      (ofDouble x).isFinite = true ∧ units (ofDouble x) * doubles = Double.units x

instance : DecidablePred Exact
  | sum _ _ => inferInstanceAs (Decidable (_ → _ → _ ∧ _))
  | difference _ _ => inferInstanceAs (Decidable (_ → _ → _ ∧ _))
  | product _ _ => inferInstanceAs (Decidable (_ → _ → _ ∧ _))
  | half _ => inferInstanceAs (Decidable (_ → _ ∧ _))
  | narrowing _ => inferInstanceAs (Decidable (_ → _ ∧ _))

variable {a b : Float32}

theorem sum_exact (h : (sum a b).Exact) (hf : (a + b).isFinite = true) :
    a.isFinite = true ∧ b.isFinite = true ∧ units (a + b) = units a + units b := by
  rcases isFinite_of_add hf with ⟨ha, hb⟩
  exact ⟨ha, hb, (h ha hb).2⟩

theorem difference_exact (h : (difference a b).Exact) (hf : (a - b).isFinite = true) :
    a.isFinite = true ∧ b.isFinite = true ∧ units (a - b) = units a - units b := by
  rcases isFinite_of_sub hf with ⟨ha, hb⟩
  exact ⟨ha, hb, (h ha hb).2⟩

theorem product_exact (h : (product a b).Exact) (hf : (a * b).isFinite = true) :
    a.isFinite = true ∧ b.isFinite = true ∧ units (a * b) * 2 ^ 149 = units a * units b := by
  rcases isFinite_of_mul hf with ⟨ha, hb⟩
  exact ⟨ha, hb, (h ha hb).2⟩

theorem half_exact (h : (half a).Exact) (hf : (a / 2).isFinite = true) :
    a.isFinite = true ∧ 2 * units (a / 2) = units a := by
  have ha := isFinite_of_div hf
  exact ⟨ha, (h ha).2⟩

theorem narrowing_exact {x : Float} (h : (narrowing x).Exact) (hf : (ofDouble x).isFinite = true) :
    x.isFinite = true ∧ units (ofDouble x) * doubles = Double.units x := by
  have hx := isFinite_of_ofDouble hf
  exact ⟨hx, (h hx).2⟩

end Operation

/-! ## Digits -/

/-- The digits of a reading that rounding would take away are zeros. -/
def Fits (n : Int) : Prop := 2 ^ grain n.natAbs ∣ n.natAbs

theorem natAbs_rounding (n : Int) : (rounding n).natAbs = nearest n.natAbs := by
  unfold rounding
  by_cases hn : 0 ≤ n
  · rw [if_pos hn, Int.natAbs_natCast, show n.toNat = n.natAbs by omega]
  · rw [if_neg hn, Int.natAbs_neg, Int.natAbs_natCast, show (-n).toNat = n.natAbs by omega]

theorem fits_units {a : Float32} (h : a.isFinite = true) : Fits (units a) := by
  have hround : rounding (units a) = units a := rounding_unitsOf (canonical_unpack _) h
  have hnear := natAbs_rounding (units a)
  rw [hround] at hnear
  exact ⟨_, hnear.trans (Nat.mul_comm _ _)⟩

theorem Fits.eq_mul {n : Int} (h : Fits n) :
    ∃ a : Int, n = a * (2 ^ grain n.natAbs : Nat) ∧ a.natAbs < 2 ^ 24 := by
  rcases Int.natCast_dvd.mpr h with ⟨a, ha⟩
  rw [Int.mul_comm] at ha
  refine ⟨a, ha, ?_⟩
  have hlt := lt_two_pow_grain n.natAbs
  have habs := congrArg Int.natAbs ha
  rw [Int.natAbs_mul, Int.natAbs_natCast] at habs
  exact Nat.lt_of_mul_lt_mul_right (Nat.lt_of_le_of_lt (Nat.le_of_eq habs.symm) hlt)

/-- A multiple of a power is at most `2 ^ 24` times as large as another one. -/
theorem natAbs_mul_le {a c : Int} (h : a.natAbs ≤ 2 ^ 24 * c.natAbs) (p : Nat) :
    (a * p).natAbs ≤ 2 ^ 24 * (c * p).natAbs := by
  rw [Int.natAbs_mul, Int.natAbs_mul, ← Nat.mul_assoc]
  exact Nat.mul_le_mul_right _ h

/-- If the sum of two readings fits, the first is at most `2 ^ 24` times as
    large as the second: its last digit reaches that of the second. -/
theorem Fits.natAbs_le {u v : Int} (hu : Fits u) (huv : Fits (u + v)) (hv : v ≠ 0) :
    u.natAbs ≤ 2 ^ 24 * v.natAbs := by
  rcases hu.eq_mul with ⟨a, ha, hlta⟩
  rcases huv.eq_mul with ⟨b, hb, hltb⟩
  generalize grain u.natAbs = j at ha
  generalize grain (u + v).natAbs = k at hb
  -- Both are multiples of the finer of the two last digits.
  rcases Nat.le_total j k with hjk | hkj
  · have hpow : 2 ^ k = 2 ^ (k - j) * 2 ^ j := by rw [← Nat.pow_add, Nat.sub_add_cancel hjk]
    have hv' : v = (b * (2 ^ (k - j) : Nat) - a) * (2 ^ j : Nat) := by
      rw [Int.sub_mul, ← ha, Int.mul_assoc, ← Int.natCast_mul, ← hpow, ← hb]
      omega
    generalize b * (2 ^ (k - j) : Nat) - a = c at hv'
    -- The second one is a multiple of that digit, and not zero.
    have hc : c ≠ 0 := by
      rintro rfl
      rw [Int.zero_mul] at hv'
      exact hv hv'
    rw [ha, hv']
    exact natAbs_mul_le (by omega) _
  · have hpow : 2 ^ j = 2 ^ (j - k) * 2 ^ k := by rw [← Nat.pow_add, Nat.sub_add_cancel hkj]
    have hu' : u = a * (2 ^ (j - k) : Nat) * (2 ^ k : Nat) := by
      rw [Int.mul_assoc, ← Int.natCast_mul, ← hpow, ← ha]
    generalize a * (2 ^ (j - k) : Nat) = c at hu'
    have hv' : v = (b - c) * (2 ^ k : Nat) := by
      rw [Int.sub_mul, ← hb, ← hu']
      omega
    have hbc : b - c ≠ 0 := by
      intro h
      rw [h, Int.zero_mul] at hv'
      exact hv hv'
    rw [hu', hv']
    exact natAbs_mul_le (by omega) _

end Single

end Flowchart
