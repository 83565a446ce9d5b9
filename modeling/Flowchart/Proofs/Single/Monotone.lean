import Flowchart.Proofs.Single.Exact

/-!
# Operations Keep the Order

What is greater stays greater, or becomes equal, when the same is added to it or it
is multiplied by the same.

Every operation is exact before it is rounded, and rounding keeps the order, so for
finite operands there is little to show beyond what is rounded: for a sum, the sum of
the units of both operands; for a product, the product of their units, which counts
squares of the unit. `nearestFrom` rounds these. It has a least digit because a
product that is very small is rounded to whole units, as if it had fewer digits.

Infinities are the rest. An infinite operand decides a sum alone, unless the other is
the opposite infinity, and then the sum is no number; the order of the sums is that
of the infinities. A product with an infinity is no number if the other factor is
zero. Both statements therefore ask that results are numbers, and of nothing else.

## Main definitions

* `nearestFrom`: Rounding to 24 digits, of which the last counts something at least.
* `Reads`: A single is so many squares of the unit, rounded.

## Theorems

* `units_add_cases`: What a sum reads.
* `add_le_add`: To add the same keeps the order.
* `le_add_right`: To add what is not negative makes nothing smaller.
* `beq_iff`: Two singles are equal if they read the same.
* `nearestFrom_mono`: Rounding keeps the order.
* `reads_mul`: What a product of finite singles reads.
* `mul_le_mul`: To multiply by the same keeps the order.
* `reads_ofNat`: What a whole number is converted to, however large it is.
-/

namespace Flowchart

namespace Single

open Float.Model (Format UnpackedFloat)
open Float.Model.UnpackedFloat

variable {a b c : Float32}

/-! ## Sums -/

/-- A sum that is a number is one of finite numbers, or it is infinite because
    an operand is, and none is the opposite. -/
theorem add_eq_infinity {u v : UnpackedFloat} (h : (UnpackedFloat.add .binary32 u v).isNaN = false)
    (hinf : ¬(u.isFinite = true ∧ v.isFinite = true)) :
    ∃ s, UnpackedFloat.add .binary32 u v = .infinity s ∧
      (u = .infinity s ∨ u.isFinite = true) ∧ (v = .infinity s ∨ v.isFinite = true) := by
  -- The sum of opposite infinities is no number, and neither is one with what is none.
  cases u with
  | notANumber => exact absurd h.symm Bool.false_ne_true
  | infinity s =>
      cases v with
      | notANumber => exact absurd h.symm Bool.false_ne_true
      | infinity t =>
          cases s with
          | positive =>
              cases t with
              | positive => exact ⟨.positive, rfl, Or.inl rfl, Or.inl rfl⟩
              | negative => exact absurd h.symm Bool.false_ne_true
          | negative =>
              cases t with
              | positive => exact absurd h.symm Bool.false_ne_true
              | negative => exact ⟨.negative, rfl, Or.inl rfl, Or.inl rfl⟩
      | zero t => exact ⟨s, rfl, Or.inl rfl, Or.inr rfl⟩
      | finite t n f hn => exact ⟨s, rfl, Or.inl rfl, Or.inr rfl⟩
  | zero s =>
      cases v with
      | notANumber => exact absurd h.symm Bool.false_ne_true
      | infinity t => exact ⟨t, rfl, Or.inr rfl, Or.inl rfl⟩
      | zero t => exact absurd ⟨rfl, rfl⟩ hinf
      | finite t n f hn => exact absurd ⟨rfl, rfl⟩ hinf
  | finite s m e hm =>
      cases v with
      | notANumber => exact absurd h.symm Bool.false_ne_true
      | infinity t => exact ⟨t, rfl, Or.inr rfl, Or.inl rfl⟩
      | zero t => exact absurd ⟨rfl, rfl⟩ hinf
      | finite t n f hn => exact absurd ⟨rfl, rfl⟩ hinf

theorem isNaN_of_unpack_pack {u : UnpackedFloat}
    (h : (Float32.Model.pack u).unpack.isNaN = false) : u.isNaN = false := by
  cases u with
  | notANumber =>
      rw [unpack_pack (u := .notANumber) trivial] at h
      exact absurd h.symm Bool.false_ne_true
  | _ => rfl

theorem unpack_add_of_eq_infinity {s : Sign}
    (h : UnpackedFloat.add .binary32 a.toModel.unpack b.toModel.unpack = .infinity s) :
    (a + b).toModel.unpack = .infinity s := by
  have hpack : (a + b).toModel.unpack =
      (Float32.Model.pack (UnpackedFloat.add .binary32 a.toModel.unpack b.toModel.unpack)).unpack :=
    rfl
  rw [hpack, h, unpack_pack (u := .infinity s) trivial]
  rfl

theorem units_of_eq_infinity {s : Sign} (h : a.toModel.unpack = .infinity s) :
    units a = s.apply top := by
  rw [units, h, unitsOf_infinity]

/-- What a sum reads that is a number: the sum of what its operands read, rounded,
    or infinity, if one of them does and none reads the opposite. -/
theorem units_add_cases (h : (a + b).isNaN = false) :
    ((units a).natAbs < top ∧ (units b).natAbs < top ∧
      units (a + b) = clamp (rounding (units a + units b))) ∨
    ∃ s : Sign, units (a + b) = s.apply top ∧
      (units a = s.apply top ∨ (units a).natAbs < top) ∧
      (units b = s.apply top ∨ (units b).natAbs < top) ∧
      (units a = s.apply top ∨ units b = s.apply top) := by
  -- Two finite summands are rounded, and otherwise one of them is infinite.
  by_cases hinf : a.isFinite = true ∧ b.isFinite = true
  · exact Or.inl ⟨natAbs_units_lt hinf.1, natAbs_units_lt hinf.2, (units_add hinf.1 hinf.2).2⟩
  · rcases add_eq_infinity (isNaN_of_unpack_pack h) hinf with ⟨s, hs, ha, hb⟩
    refine Or.inr ⟨s, units_of_eq_infinity (unpack_add_of_eq_infinity hs),
      ha.imp units_of_eq_infinity natAbs_units_lt, hb.imp units_of_eq_infinity natAbs_units_lt, ?_⟩
    rcases ha with ha | ha
    · exact Or.inl (units_of_eq_infinity ha)
    · rcases hb with hb | hb
      · exact Or.inr (units_of_eq_infinity hb)
      · exact absurd ⟨ha, hb⟩ hinf

/-- To add the same keeps the order, also among infinities, as long as the sums are
    numbers. -/
theorem add_le_add (h : a ≤ b) (ha : (a + c).isNaN = false) (hb : (b + c).isNaN = false) :
    a + c ≤ b + c := by
  have hunits := ((le_iff a b).mp h).2.2
  have hleast := (units_mem (b + c)).1
  have hmost := (units_mem (a + c)).2
  have htop := zero_lt_top
  refine (le_iff _ _).mpr ⟨ha, hb, ?_⟩
  rcases units_add_cases ha with ⟨haf, hcf, hac⟩ | ⟨s, hac, has, hcs, hors⟩
  · rcases units_add_cases hb with ⟨_, _, hbc⟩ | ⟨t, hbc, hbt, _, hort⟩
    · rw [hac, hbc]
      exact clamp_mono (rounding_mono (by omega))
    · -- Only the greater summand can be infinite here, and then it is at the top.
      cases t <;> dsimp only [Sign.apply] at hbc hbt hort <;> omega
  · rcases units_add_cases hb with ⟨hbf, hcf, _⟩ | ⟨t, hbc, hbt, hct, hort⟩
    · -- Only the smaller summand can be infinite here, and then it is at the bottom.
      cases s <;> dsimp only [Sign.apply] at hac has hors <;> omega
    · cases s <;> cases t <;>
        dsimp only [Sign.apply] at hac has hcs hors hbc hbt hct hort <;> omega

/-- To add a finite number to a number leaves one. -/
theorem isNaN_add (ha : a.isNaN = false) (hc : c.isFinite = true) : (a + c).isNaN = false := by
  by_cases haf : a.isFinite = true
  · exact (units_add haf hc).1
  · rcases Binary.exists_eq_infinity ha haf with ⟨s, hs⟩
    have hsum : UnpackedFloat.add .binary32 a.toModel.unpack c.toModel.unpack = .infinity s := by
      rw [hs]
      exact Binary.infinity_add hc s
    rw [isNaN_eq, unpack_add_of_eq_infinity hsum]
    rfl

/-- Only numbers have a sum that is one. -/
theorem isNaN_of_add (h : (a + b).isNaN = false) : a.isNaN = false := by
  have hsum : (UnpackedFloat.add .binary32 a.toModel.unpack b.toModel.unpack).isNaN = false :=
    isNaN_of_unpack_pack h
  rw [isNaN_eq]
  cases hu : a.toModel.unpack with
  | notANumber =>
      rw [hu] at hsum
      exact absurd hsum.symm Bool.false_ne_true
  | _ => rfl

/-- What is finite and not negative makes no sum smaller, also with an infinity. -/
theorem le_add_right (ha : a.isNaN = false) (hc : c.isFinite = true) (hpos : 0 ≤ c) :
    a ≤ a + c := by
  have hsum := isNaN_add ha hc
  rcases (nonneg_iff c).mp hpos with ⟨hnan, hunits⟩
  refine (le_iff _ _).mpr ⟨ha, hsum, ?_⟩
  -- At the bottom there is nothing to show, for no sum is below it.
  by_cases hlow : -(top : Int) < units a
  · exact (le_add ha hlow hnan hunits).2
  · have hleast := (units_mem (a + c)).1
    omega

theorem beq_iff (a b : Float32) :
    (a == b) = true ↔ a.isNaN = false ∧ b.isNaN = false ∧ units a = units b := by
  rw [units, units, unitsOf_eq, unitsOf_eq]
  exact Binary.beq_iff (canonical_iff.mp (canonical_unpack _))
    (canonical_iff.mp (canonical_unpack _))

theorem beq_of_le (hab : a ≤ b) (hba : b ≤ a) : (a == b) = true := by
  rw [le_iff] at hab hba
  exact (beq_iff a b).mpr ⟨hab.1, hab.2.1, Int.le_antisymm hab.2.2 hba.2.2⟩

theorem le_of_beq (h : (a == b) = true) : a ≤ b ∧ b ≤ a := by
  rcases (beq_iff a b).mp h with ⟨ha, hb, heq⟩
  exact ⟨(le_iff a b).mpr ⟨ha, hb, Int.le_of_eq heq⟩,
    (le_iff b a).mpr ⟨hb, ha, Int.le_of_eq heq.symm⟩⟩

/-- To add the same finite number keeps the order. -/
theorem add_le_add_of_isFinite (h : a ≤ b) (hc : c.isFinite = true) : a + c ≤ b + c := by
  rcases (le_iff a b).mp h with ⟨ha, hb, _⟩
  exact add_le_add h (isNaN_add ha hc) (isNaN_add hb hc)

/-- Zero adds nothing. -/
theorem add_zero_beq (ha : a.isFinite = true) : (a + 0 == a) = true := by
  rcases units_add ha (b := 0) rfl with ⟨hnan, hsum⟩
  refine (beq_iff _ _).mpr ⟨hnan, isNaN_of_isFinite ha, ?_⟩
  rw [hsum, units_zero, Int.add_zero, units, rounding_unitsOf (canonical_unpack _) ha,
    clamp_unitsOf (canonical_unpack _)]

/-! ## Products -/

/-- The nearest number of 24 digits, the last of which counts `2 ^ least` at
    least. -/
def nearestFrom (least n : Nat) : Nat :=
  halfEven n (max (grain n) least) * 2 ^ max (grain n) least

theorem halfEven_le_of_grain_le {n k : Nat} (h : grain n ≤ k) : halfEven n k ≤ 2 ^ 24 := by
  have hlt : n / 2 ^ k < 2 ^ 24 := by
    rw [Nat.div_lt_iff_lt_mul (Nat.two_pow_pos _)]
    exact Nat.lt_of_lt_of_le (lt_two_pow_grain n)
      (Nat.mul_le_mul_left _ (Nat.pow_le_pow_right (by decide) h))
  exact Nat.le_trans (halfEven_le_succ n k) hlt

theorem nearestFrom_mono (least : Nat) {n m : Nat} (h : n ≤ m) :
    nearestFrom least n ≤ nearestFrom least m := by
  have hgrain := grain_mono h
  unfold nearestFrom
  by_cases heq : max (grain n) least = max (grain m) least
  · rw [heq]
    exact Nat.mul_le_mul_right _ (halfEven_mono h _)
  · -- The last digit counts more, and so the number of them is full.
    have hmax : max (grain m) least = grain m := by omega
    have hne : grain m ≠ 0 := by omega
    rw [hmax]
    calc halfEven n (max (grain n) least) * 2 ^ max (grain n) least
        ≤ 2 ^ 24 * 2 ^ max (grain n) least :=
          Nat.mul_le_mul_right _ (halfEven_le_of_grain_le (Nat.le_max_left _ _))
      _ = 2 ^ 23 * 2 ^ (max (grain n) least + 1) := by rw [Nat.pow_succ 2 (max _ _)]; omega
      _ ≤ 2 ^ 23 * 2 ^ grain m :=
          Nat.mul_le_mul_left _ (Nat.pow_le_pow_right (by decide) (by omega))
      _ ≤ halfEven m (grain m) * 2 ^ grain m := Nat.mul_le_mul_right _ (le_halfEven_grain hne)

/-- What a float is that is `n` squares of the unit, rounded. -/
structure IsProduct (u : UnpackedFloat) (n : Nat) : Prop where
  rounded : Rounded u
  finite : u.isFinite = true
  units : unitsOf u * 2 ^ 149 = nearestFrom 149 n

theorem isProduct_roundWithAccuracy {m k : Nat} {e : Int} (hm : m ≠ 0) (he : -298 ≤ e)
    (hk : Binary.target .binary32 m e = e + k) :
    IsProduct (roundWithAccuracy .binary32 .positive m e .exact) (m * 2 ^ (e + 298).toNat) := by
  rw [Binary.roundWithAccuracy_eq .positive .exact hk,
    (shifted_shiftRight m k).roundedMantissa_eq]
  rw [Binary.target_eq] at hk
  change max (m.log2 + e - 23) (-149) = e + k at hk
  -- Counted in squares of the unit the mantissa has `j` more bits, all of them zero.
  generalize hj : (e + 298).toNat = j
  have hgrain : max (grain (m * 2 ^ j)) 149 = k + j := by
    rw [grain, Binary.log2_mul_two_pow hm]
    omega
  have hdigits : halfEven m k = halfEven (m * 2 ^ j) (max (grain (m * 2 ^ j)) 149) := by
    rw [hgrain, halfEven_mul_two_pow]
  have hleast : Format.binary32.minExponent ≤ e + k := by
    change (-149 : Int) ≤ _
    omega
  refine ⟨rounded_iff.mpr (Binary.rounded_carried ?_ hleast ?_), Binary.isFinite_carried _ _ _, ?_⟩
  · rw [hdigits]
    exact halfEven_le_of_grain_le (Nat.le_max_left _ _)
  · by_cases hmin : e + k = -149
    · exact Or.inr hmin
    · have hmax : max (grain (m * 2 ^ j)) 149 = grain (m * 2 ^ j) := by omega
      rw [hdigits, hmax]
      exact Or.inl (le_halfEven_grain (by omega))
  · rw [unitsOf_eq, Binary.unitsOf_carried hleast, nearestFrom, ← hdigits, hgrain]
    change ((scale (halfEven m k) (e + k) : Nat) : Int) * 2 ^ 149 = _
    rw [scale, show k + j = (e + k + 149).toNat + 149 by omega, Nat.pow_add, ← Nat.mul_assoc]
    push_cast
    rfl

theorem nearestFrom_zero (least : Nat) : nearestFrom least 0 = 0 := by
  unfold nearestFrom halfEven
  rw [Nat.zero_mod, if_pos (by have := Nat.two_pow_pos (max (grain 0) least); omega), Nat.zero_div,
    Nat.zero_mul]

/-- A float that reads a positive number has no minus. -/
theorem positive_of_apply {s : Sign} {m n : Nat} {e : Int} (hm : 0 < m)
    (h : s.apply (scale m e) = (n : Int)) : s = .positive ∧ n = scale m e := by
  have hscale : 0 < scale m e := Nat.mul_pos hm (Nat.two_pow_pos _)
  cases s with
  | positive => exact ⟨rfl, (Int.ofNat_inj.mp h).symm⟩
  | negative =>
      dsimp only [Sign.apply] at h
      omega

/-- The product of two mantissas has digits enough, unless both exponents are least. -/
theorem exists_target_mul {m k : Nat} {e f : Int} (hm : 0 < m) (hk : 0 < k) (he : -149 ≤ e)
    (hf : -149 ≤ f) (hmlow : 2 ^ 23 ≤ m ∨ e = -149) (hklow : 2 ^ 23 ≤ k ∨ f = -149) :
    ∃ j : Nat, Binary.target .binary32 (m * k) (e + f) = e + f + j := by
  have hdigits : 2 ^ 23 ≤ m * k ∨ e + f = -298 := by
    rcases hmlow with hlow | rfl
    · exact Or.inl (Nat.le_trans hlow (Nat.le_mul_of_pos_right _ hk))
    · rcases hklow with hlow | rfl
      · exact Or.inl (Nat.le_trans hlow (Nat.le_mul_of_pos_left _ hm))
      · exact Or.inr rfl
  have hlog : 23 ≤ (m * k).log2 ∨ e + f = -298 :=
    hdigits.imp_left fun h => (Nat.le_log2 (Nat.mul_ne_zero (by omega) (by omega))).mpr h
  rw [Binary.target_eq]
  refine ⟨(max ((m * k).log2 + (e + f) - 23) (-149) - (e + f)).toNat, ?_⟩
  change max ((m * k).log2 + (e + f) - 23 : Int) (-149) = _
  omega

/-- A product of finite floats that are not negative. -/
theorem isProduct_mul {u v : UnpackedFloat} (hu : Canonical u) (hv : Canonical v)
    (huf : u.isFinite = true) (hvf : v.isFinite = true) {n k : Nat} (hn : unitsOf u = n)
    (hk : unitsOf v = k) : IsProduct (UnpackedFloat.mul .binary32 u v) (n * k) := by
  -- If a factor is zero so is the product, with either sign.
  have hzero : ∀ s : Sign, IsProduct (.zero s) 0 := fun s =>
    ⟨trivial, rfl, by rw [nearestFrom_zero]; rfl⟩
  cases u with
  | notANumber => exact absurd huf Bool.false_ne_true
  | infinity s => exact absurd huf Bool.false_ne_true
  | zero s =>
      have hn0 : n = 0 := Int.ofNat_eq_zero.mp hn.symm
      rw [hn0, Nat.zero_mul]
      cases v with
      | notANumber => exact absurd hvf Bool.false_ne_true
      | infinity t => exact absurd hvf Bool.false_ne_true
      | zero t => exact hzero _
      | finite t m' f hm' => exact hzero _
  | finite s m e hm =>
      cases v with
      | notANumber => exact absurd hvf Bool.false_ne_true
      | infinity t => exact absurd hvf Bool.false_ne_true
      | zero t =>
          have hk0 : k = 0 := Int.ofNat_eq_zero.mp hk.symm
          rw [hk0, Nat.mul_zero]
          exact hzero _
      | finite t m' f hm' =>
          rcases positive_of_apply hm hn with ⟨rfl, rfl⟩
          rcases positive_of_apply hm' hk with ⟨rfl, rfl⟩
          rcases hu.rounded with ⟨_, he, hmlow⟩
          rcases hv.rounded with ⟨_, hf, hmlow'⟩
          rcases exists_target_mul hm hm' he hf hmlow hmlow' with ⟨j, hj⟩
          have hne : m * m' ≠ 0 := Nat.mul_ne_zero (by omega) (by omega)
          have hproduct := isProduct_roundWithAccuracy hne (by omega) hj
          have hscale : scale m e * scale m' f = m * m' * 2 ^ (e + f + 298).toNat := by
            rw [scale, scale, show (e + f + 298).toNat = (e + 149).toNat + (f + 149).toNat by omega,
              Nat.pow_add, Nat.mul_mul_mul_comm]
          rw [hscale]
          exact hproduct

/-- A single that is `n` squares of the unit, rounded. -/
structure Reads (x : Float32) (n : Nat) : Prop where
  number : x.isNaN = false
  units : ∃ p : Nat, p * 2 ^ 149 = nearestFrom 149 n ∧ Single.units x = clamp p

theorem reads_pack {u : UnpackedFloat} {n : Nat} (h : IsProduct u n) {x : Float32}
    (hx : x.toModel = .pack u) : Reads x n := by
  have hnan : (Float32.Model.pack u).unpack.isNaN = _ :=
    Binary.isNaN_unpack_pack one_lt_half (rounded_iff.mp h.rounded)
  have hunits := h.units
  refine ⟨?_, (unitsOf u).toNat, by omega, ?_⟩
  · rw [isNaN_eq, hx]
    exact hnan.trans (Binary.isNaN_of_isFinite h.finite)
  · rw [Single.units, hx, unpack_pack h.rounded, unitsOf_bounded h.rounded,
      Int.toNat_of_nonneg (by omega)]

namespace Reads

variable {n m : Nat}

theorem le (ha : Reads a n) (hb : Reads b m) (h : n ≤ m) : a ≤ b := by
  rcases ha.units with ⟨p, hp, hpa⟩
  rcases hb.units with ⟨q, hq, hqb⟩
  have hle := nearestFrom_mono 149 h
  have hpq : p ≤ q := Nat.le_of_mul_le_mul_right (by omega) (Nat.two_pow_pos 149)
  refine (le_iff a b).mpr ⟨ha.number, hb.number, ?_⟩
  rw [hpa, hqb]
  exact clamp_mono (by omega)

theorem nonneg (ha : Reads a n) : 0 ≤ a := by
  rcases ha.units with ⟨p, _, hp⟩
  refine (nonneg_iff a).mpr ⟨ha.number, ?_⟩
  rw [hp]
  unfold clamp
  omega

end Reads

theorem reads_mul (ha : a.isFinite = true) (hb : b.isFinite = true) {n k : Nat}
    (hn : units a = n) (hk : units b = k) : Reads (a * b) (n * k) :=
  reads_pack (isProduct_mul (canonical_unpack _) (canonical_unpack _) ha hb hn hk) rfl

/-- A small whole number is converted as it is. -/
theorem units_toFloat32 {n : Nat} (hn : n < 2 ^ 23) :
    n.toUInt64.toFloat32.isFinite = true ∧ units n.toUInt64.toFloat32 = (n * 2 ^ 149 : Nat) := by
  have hround := isRounding_normalize (n := n) (e := 0) (by decide)
  have hpack : n.toUInt64.toFloat32.toModel =
      .pack (UnpackedFloat.normalize .binary32 n 0 .positive) := by
    have hword : n.toUInt64.toNat = n := Nat.mod_eq_of_lt (by omega)
    change Float32.Model.pack (UnpackedFloat.normalize .binary32 n.toUInt64.toNat 0 .positive) = _
    rw [hword]
  -- So few digits all fit.
  have hexact : rounding (n * 2 ^ (0 + 149 : Int).toNat) = (n * 2 ^ 149 : Nat) := by
    have hcast : (n * 2 ^ (0 + 149 : Int).toNat : Int) = (n * 2 ^ 149 : Nat) := by
      push_cast
      rfl
    rw [hcast, rounding_natCast, nearest_of_digits (by omega)]
  have hlt : n * 2 ^ 149 < top :=
    calc n * 2 ^ 149
        < 2 ^ 24 * 2 ^ 149 := Nat.mul_lt_mul_of_pos_right (by omega) (Nat.two_pow_pos 149)
      _ ≤ top := Nat.mul_le_mul_left _ (Nat.pow_le_pow_right (by decide) (by decide))
  have hunits : units n.toUInt64.toFloat32 = (n * 2 ^ 149 : Nat) := by
    rw [units, hpack, unpack_pack hround.rounded, unitsOf_bounded hround.rounded, hround.units,
      hexact, clamp]
    omega
  have hnan : n.toUInt64.toFloat32.isNaN = false := by
    rw [isNaN_eq, hpack]
    exact (Binary.isNaN_unpack_pack one_lt_half (rounded_iff.mp hround.rounded)).trans
      (Binary.isNaN_of_isFinite hround.finite)
  exact ⟨isFinite_of_natAbs_lt hnan (by omega), hunits⟩

theorem exists_units_eq (ha : 0 ≤ a) : ∃ n : Nat, units a = n :=
  ⟨(units a).toNat, (Int.toNat_of_nonneg ((nonneg_iff a).mp ha).2).symm⟩

/-- What is infinite stays so when it is multiplied, unless nothing remains that is
    a number. -/
theorem infinity_mul (ha : a.toModel.unpack = .infinity .positive) (hc : c.isFinite = true)
    (hpos : 0 ≤ c) (h : (a * c).isNaN = false) : units (a * c) = top := by
  have hpack : (a * c).toModel.unpack =
      (Float32.Model.pack (UnpackedFloat.mul .binary32 a.toModel.unpack c.toModel.unpack)).unpack :=
    rfl
  rw [isNaN_eq, hpack, ha] at h
  rw [units, hpack, ha]
  have hunits := ((nonneg_iff c).mp hpos).2
  change c.toModel.unpack.isFinite = true at hc
  change 0 ≤ unitsOf c.toModel.unpack at hunits
  -- Infinity times zero is no number, so that the other factor is positive.
  cases hu : c.toModel.unpack with
  | notANumber =>
      rw [hu] at hc
      exact absurd hc Bool.false_ne_true
  | infinity s =>
      rw [hu] at hc
      exact absurd hc Bool.false_ne_true
  | zero s =>
      rw [hu] at h
      exact absurd (isNaN_of_unpack_pack h).symm Bool.false_ne_true
  | finite s m e hm =>
      have hscale : 0 < scale m e := Nat.mul_pos hm (Nat.two_pow_pos _)
      rw [hu, unitsOf_finite] at hunits
      cases s with
      | positive =>
          change unitsOf (Float32.Model.pack (.infinity .positive)).unpack = top
          rw [unpack_pack (u := .infinity .positive) trivial]
          rfl
      | negative =>
          dsimp only [Sign.apply] at hunits
          omega

/-- To multiply by the same finite number keeps the order of what is not negative,
    as long as there is a greatest product. -/
theorem mul_le_mul (ha : 0 ≤ a) (h : a ≤ b) (hc : c.isFinite = true) (hpos : 0 ≤ c)
    (hb : (b * c).isNaN = false) : a * c ≤ b * c := by
  have hnonneg : 0 ≤ b := le_trans ha h
  rcases exists_units_eq ha with ⟨n, hn⟩
  rcases exists_units_eq hnonneg with ⟨m, hm⟩
  rcases exists_units_eq hpos with ⟨k, hk⟩
  have hle := ((le_iff a b).mp h).2.2
  have hanan := ((nonneg_iff a).mp ha).1
  have hbnan := ((nonneg_iff b).mp hnonneg).1
  have htop := zero_lt_top
  by_cases hbf : b.isFinite = true
  · have hlt := natAbs_units_lt hbf
    have haf := isFinite_of_natAbs_lt hanan (by omega)
    exact (reads_mul haf hc hn hk).le (reads_mul hbf hc hm hk) (Nat.mul_le_mul_right k (by omega))
  · -- The greater product is infinite, and there is nothing beyond that.
    have hinf := unpack_eq_infinity hbnan hbf (by omega)
    have hproduct := infinity_mul hinf hc hpos hb
    -- The smaller one is finite as well, or both are the same infinity.
    by_cases haf : a.isFinite = true
    · refine (le_iff _ _).mpr ⟨(reads_mul haf hc hn hk).number, hb, ?_⟩
      rw [hproduct]
      exact (units_mem _).2
    · have heq : a * c = b * c := by
        have hmodel : a.toModel.unpack = b.toModel.unpack := by
          rw [unpack_eq_infinity hanan haf (by omega), hinf]
        change Float32.ofModel (.pack (UnpackedFloat.mul .binary32 a.toModel.unpack _)) = _
        rw [hmodel]
        rfl
      rw [heq]
      exact le_refl hb

/-- A small number is converted in one step. -/
theorem ofNat_eq_toFloat32 {n : Nat} (hn : n < 2 ^ 23) :
    Float32.ofNat n = n.toUInt64.toFloat32 * 1 := by
  have hone : Float32.exactlyRepresentablePowersOfTen[0] = 1 := by decide +kernel
  change Float32.ofScientific n false 0 = _
  unfold Float32.ofScientific
  rw [dif_pos ⟨hn, by decide⟩]
  dsimp only
  rw [if_neg Bool.false_ne_true, hone]

/-- A large number is given more digits before it is rounded. -/
theorem toModel_ofNat {n : Nat} (hn : 2 ^ 23 ≤ n) :
    (Float32.ofNat n).toModel =
      .pack (roundWithAccuracy .binary32 .positive (n * 2 ^ 24) (-24) .exact) := by
  have hpos : 0 < n <<< 24 := by
    rw [Nat.shiftLeft_eq]
    omega
  -- The quick way is for small numbers, and this one is not.
  have hslow : (Float32.ofNat n).toModel = .pack (UnpackedFloat.mul .binary32
      (.finite .positive (n <<< 24) (-24) hpos) (.finite .positive 1 0 (by decide))) := by
    change (Float32.ofScientific n false 0).toModel = _
    unfold Float32.ofScientific
    rw [dif_neg fun h => absurd h.1 (Nat.not_lt_of_le hn)]
    dsimp only
    rw [if_neg Bool.false_ne_true]
    unfold Float32.Model.ofScientific UnpackedFloat.ofScientific
    rw [dif_neg (by omega), if_neg (by decide), if_neg (by simp), if_pos (by decide)]
    rfl
  rw [hslow]
  change Float32.Model.pack (roundWithAccuracy .binary32 .positive (n <<< 24 * 1) (-24 + 0) .exact)
    = _
  rw [Nat.shiftLeft_eq, Nat.mul_one]
  rfl

/-- A whole number as a single. -/
theorem reads_ofNat (n : Nat) : Reads (Float32.ofNat n) (n * 2 ^ 149 * 2 ^ 149) := by
  -- Either way of converting multiplies by one at the end, and so gives a product.
  by_cases hsmall : n < 2 ^ 23
  · rcases units_toFloat32 hsmall with ⟨hfinite, hunits⟩
    rw [ofNat_eq_toFloat32 hsmall]
    exact reads_mul hfinite (b := 1) rfl hunits (k := 2 ^ 149) rfl
  · have htarget : Binary.target .binary32 (n * 2 ^ 24) (-24) =
        -24 + (n.log2 + 1 : Nat) := by
      have hlog : 23 ≤ n.log2 := (Nat.le_log2 (by omega)).mpr (by omega)
      rw [Binary.target_eq, Binary.log2_mul_two_pow (by omega)]
      change max (((n.log2 + 24 : Nat) : Int) + -24 - 23) (-149) = _
      omega
    have hunits : n * 2 ^ 24 * 2 ^ (-24 + 298 : Int).toNat = n * 2 ^ 149 * 2 ^ 149 := by
      have hexponent : 24 + (-24 + 298 : Int).toNat = 149 + 149 := by decide
      rw [Nat.mul_assoc, Nat.mul_assoc, ← Nat.pow_add, ← Nat.pow_add, hexponent]
    rw [← hunits]
    exact reads_pack (isProduct_roundWithAccuracy (by omega) (by decide) htarget)
      (toModel_ofNat (by omega))

end Single

end Flowchart
