import Flowchart.Proofs.Binary.Rounding
import Flowchart.Single

/-!
# Doubles as Multiples of a Unit

A layering answers in doubles, and the engine takes differences and quotients
of them before it goes on in singles. These may be rounded. What is said here
of doubles is what that leaves: how they compare, and how far their differences
and quotients are from exact. Whatever comes out finite went in finite.

## Main definitions

* `Double.units`: How many times the unit a double is.

## Theorems

* `le_iff`, `lt_iff`, `beq_iff`: Comparing doubles is comparing readings.
* `pairwise_mergeSort`: A list of numbers is sorted by their readings.
* `units_sub`: A difference is off by a fixed part of itself.
* `units_div`: A quotient is off by a fixed part of itself, or by the unit.
* `units_abs`: The reading of an amount is the amount of the reading.
-/

namespace Flowchart

namespace Double

open Float.Model (Format UnpackedFloat)

/-- How many times the unit a double is. -/
def units (x : Float) : Int := Binary.unitsOf .binary64 x.toModel.unpack

/-- The reading of one. -/
def one : Nat := Binary.one .binary64

theorem one_lt_half : 1 < Binary.half .binary64 := by decide

theorem canonical_unpack (x : Float) : Binary.Canonical .binary64 x.toModel.unpack :=
  Binary.canonical_unpack one_lt_half _

section order

variable (a b : Float)

theorem le_iff : a ≤ b ↔ a.isNaN = false ∧ b.isNaN = false ∧ units a ≤ units b := by
  change decide (a.toModel ≤ b.toModel) = true ↔ _
  rw [decide_eq_true_iff]
  exact Binary.le_iff (canonical_unpack a) (canonical_unpack b)

theorem lt_iff : a < b ↔ a.isNaN = false ∧ b.isNaN = false ∧ units a < units b := by
  change decide (a.toModel < b.toModel) = true ↔ _
  rw [decide_eq_true_iff]
  exact Binary.lt_iff (canonical_unpack a) (canonical_unpack b)

theorem beq_iff :
    (a == b) = true ↔ a.isNaN = false ∧ b.isNaN = false ∧ units a = units b :=
  Binary.beq_iff (canonical_unpack a) (canonical_unpack b)

end order

theorem lt_irrefl (a : Float) : ¬a < a := by
  rw [lt_iff]
  exact fun h => Int.lt_irrefl _ h.2.2

theorem lt_trans {a b c : Float} (hab : a < b) (hbc : b < c) : a < c := by
  rw [lt_iff] at *
  exact ⟨hab.1, hbc.2.1, Int.lt_trans hab.2.2 hbc.2.2⟩

theorem isNaN_of_isFinite {x : Float} (h : x.isFinite = true) : x.isNaN = false :=
  Binary.isNaN_of_isFinite h

/-! ## Sorting -/

theorem totalLe_iff (a b : Float) :
    totalLe a b = true ↔ a.isNaN = true ∨ a.isNaN = false ∧ b.isNaN = false ∧
      (units a < units b ∨ units a = units b ∧ b.toBits.toNat ≤ a.toBits.toNat) := by
  rw [totalLe, Bool.or_eq_true, Bool.and_eq_true, Bool.or_eq_true, Bool.and_eq_true,
    Bool.not_eq_true', decide_eq_true_iff, decide_eq_true_iff, lt_iff, beq_iff,
    UInt64.le_iff_toNat_le]
  cases a.isNaN <;> cases b.isNaN <;> simp only [reduceCtorEq, true_or, false_or, false_and,
    true_and]

theorem totalLe_trans {a b c : Float} (hab : totalLe a b = true) (hbc : totalLe b c = true) :
    totalLe a c = true := by
  rw [totalLe_iff] at hab hbc ⊢
  rcases hab with ha | ⟨ha, hb, hab⟩
  · exact Or.inl ha
  · rcases hbc with hb' | ⟨_, hc, hbc⟩
    · rw [hb] at hb'
      cases hb'
    · exact Or.inr ⟨ha, hc, by omega⟩

theorem totalLe_total (a b : Float) : (totalLe a b || totalLe b a) = true := by
  rw [Bool.or_eq_true, totalLe_iff, totalLe_iff]
  cases a.isNaN with
  | true => exact Or.inl (Or.inl rfl)
  | false =>
      cases b.isNaN with
      | true => exact Or.inr (Or.inl rfl)
      | false =>
          have hline : (units a < units b ∨ units a = units b ∧ b.toBits.toNat ≤ a.toBits.toNat) ∨
              (units b < units a ∨ units b = units a ∧ a.toBits.toNat ≤ b.toBits.toNat) := by
            omega
          exact hline.imp (fun h => Or.inr ⟨rfl, rfl, h⟩) fun h => Or.inr ⟨rfl, rfl, h⟩

theorem eq_of_toBits_eq {a b : Float} (h : a.toBits = b.toBits) : a = b := by
  rcases a with ⟨⟨_, _⟩⟩
  rcases b with ⟨⟨_, _⟩⟩
  cases h
  rfl

/-- Numbers in the same place are the same. -/
theorem totalLe_antisymm {a b : Float} (ha : a.isNaN = false) (hab : totalLe a b = true)
    (hba : totalLe b a = true) : a = b := by
  rw [totalLe_iff] at hab hba
  rcases hab with hnan | ⟨_, hb, hab⟩
  · rw [ha] at hnan
    cases hnan
  · rcases hba with hnan | ⟨_, _, hba⟩
    · rw [hb] at hnan
      cases hnan
    · exact eq_of_toBits_eq (UInt64.toNat_inj.mp (by omega))

theorem pairwise_totalLe_mergeSort (xs : List Float) :
    (xs.mergeSort totalLe).Pairwise fun a b => totalLe a b = true :=
  @List.pairwise_mergeSort Float totalLe (fun _ _ _ => totalLe_trans) totalLe_total xs

/-- Numbers have one order that is sorted. -/
theorem mergeSort_eq_of_perm {xs ys : List Float} (h : ∀ x ∈ xs, x.isNaN = false)
    (hperm : xs.Perm ys) (hsorted : ys.Pairwise fun a b => totalLe a b = true) :
    xs.mergeSort totalLe = ys :=
  List.Perm.eq_of_pairwise
    (fun a _ ha _ hab hba => totalLe_antisymm (h a (List.mem_mergeSort.mp ha)) hab hba)
    (pairwise_totalLe_mergeSort xs) hsorted ((List.mergeSort_perm xs totalLe).trans hperm)

/-- Numbers are sorted by their readings. -/
theorem pairwise_mergeSort {xs : List Float} (h : ∀ x ∈ xs, x.isNaN = false) :
    ((xs.mergeSort totalLe).map units).Pairwise (· ≤ ·) := by
  refine List.pairwise_map.mpr ((pairwise_totalLe_mergeSort xs).imp_of_mem fun {a b} ha _ hle => ?_)
  have hnumber : a.isNaN = false := h a (List.mem_mergeSort.mp ha)
  rw [totalLe_iff, hnumber] at hle
  rcases hle with hnan | ⟨_, _, hle⟩
  · cases hnan
  · omega

/-- What reads less than infinity, and is a number, is finite. -/
theorem isFinite_of_natAbs_lt {x : Float} (hnan : x.isNaN = false)
    (h : (units x).natAbs < Binary.top .binary64) : x.isFinite = true :=
  Binary.isFinite_of_natAbs_lt hnan h

/-! ## Results -/

variable {a b : Float}

theorem isFinite_of_sub (h : (a - b).isFinite = true) : a.isFinite = true ∧ b.isFinite = true :=
  Binary.strict_sub _ _ (Binary.isFinite_of_unpack_pack one_lt_half h)

theorem isFinite_of_isNaN_sub_self (h : (a - a).isNaN = false) : a.isFinite = true := by
  refine Binary.isFinite_of_isNaN_sub_self (f := .binary64) ?_
  -- What is not a number stays so when it is packed.
  refine Bool.eq_false_of_not_eq_true fun hnan => ?_
  have hrounded : Binary.Rounded .binary64
      (UnpackedFloat.sub .binary64 a.toModel.unpack a.toModel.unpack) := by
    cases hu : UnpackedFloat.sub .binary64 a.toModel.unpack a.toModel.unpack with
    | finite s m e hm =>
        rw [hu] at hnan
        exact absurd hnan Bool.false_ne_true
    | _ => trivial
  have hsub := (Binary.isNaN_unpack_pack one_lt_half hrounded).trans hnan
  exact Bool.false_ne_true (h.symm.trans hsub)

theorem isFinite_of_div (h : (a / b).isFinite = true) : a.isFinite = true :=
  Binary.isFinite_of_div (Binary.isFinite_of_unpack_pack one_lt_half h)

/-- What is taken from itself leaves zero. -/
theorem sub_self (h : a.isFinite = true) : a - a = 0 := by
  have hsub : UnpackedFloat.sub .binary64 a.toModel.unpack a.toModel.unpack =
      .zero .positive :=
    Binary.sub_self h
  change Float.ofModel (.pack (UnpackedFloat.sub .binary64 _ _)) = 0
  rw [hsub]
  decide +kernel

/-- A finite difference is the exact one, but for an error that is a fixed part
    of it. -/
theorem units_sub (h : (a - b).isFinite = true) :
    2 ^ 52 * (units (a - b) - (units a - units b)).natAbs ≤ (units a - units b).natAbs := by
  rcases isFinite_of_sub h with ⟨ha, hb⟩
  have hnear := Binary.near_sub (canonical_unpack a) (canonical_unpack b) ha hb
  have hunits : units (a - b) = _ := Binary.unitsOf_unpack_pack one_lt_half hnear.rounded h
  rw [hunits]
  exact hnear.close

/-- No difference is larger than the exact one by more than a fixed part. -/
theorem natAbs_units_sub_le (ha : a.isFinite = true) (hb : b.isFinite = true) :
    2 ^ 52 * (units (a - b)).natAbs ≤ (2 ^ 52 + 1) * (units a - units b).natAbs := by
  have hnear := Binary.near_sub (canonical_unpack a) (canonical_unpack b) ha hb
  have hle : (units (a - b)).natAbs ≤ _ :=
    Binary.natAbs_unitsOf_unpack_pack_le one_lt_half hnear.rounded
  have hclose : 2 ^ 52 * _ ≤ _ := hnear.close
  unfold units at hle ⊢
  omega

theorem one_pos : 0 < one := Nat.two_pow_pos _

/-- A finite quotient by a whole number is the exact one, but for an error that
    is a fixed part of it, or the unit. -/
theorem units_div {k : Int} (hb : b.isFinite = true) (hk : units b = k * one) (hne : k ≠ 0)
    (h : (a / b).isFinite = true) :
    2 ^ 52 * (units (a / b) * k - units a).natAbs ≤ (units a).natAbs + 2 ^ 52 * k.natAbs := by
  have hone := one_pos
  have hdivisor : units b ≠ 0 := by
    rw [hk]
    exact Int.mul_ne_zero hne (by omega)
  have hnear := Binary.nearQuotient_div (f := .binary64) (by decide) (canonical_unpack a)
    (canonical_unpack b) (isFinite_of_div h) hb hdivisor
  have hunits : units (a / b) = _ := Binary.unitsOf_unpack_pack one_lt_half hnear.rounded h
  have hclose := hnear.close
  -- What is counted here in squares of the unit is a multiple of one.
  rw [← hunits] at hclose
  change 2 ^ 52 * (units (a / b) * units b - units a * one).natAbs ≤
    (units a * one).natAbs + 2 ^ 52 * (units b).natAbs at hclose
  rw [hk, ← Int.mul_assoc, ← Int.sub_mul, Int.natAbs_mul, Int.natAbs_mul, Int.natAbs_mul,
    Int.natAbs_natCast, ← Nat.mul_assoc, ← Nat.mul_assoc, ← Nat.add_mul] at hclose
  exact Nat.le_of_mul_le_mul_right hclose hone

theorem isNaN_sub (ha : a.isFinite = true) (hb : b.isFinite = true) : (a - b).isNaN = false := by
  have hnear := Binary.near_sub (canonical_unpack a) (canonical_unpack b) ha hb
  exact (Binary.isNaN_unpack_pack one_lt_half hnear.rounded).trans
    (Binary.isNaN_of_isFinite hnear.finite)

theorem unpack_abs (x : Float) : x.abs.toModel.unpack = x.toModel.unpack.abs := by
  have hc := Binary.canonical_abs (canonical_unpack x)
  exact (Binary.unpack_pack one_lt_half hc.rounded).trans hc.bounded

theorem units_abs (x : Float) : units x.abs = (units x).natAbs := by
  rw [units, unpack_abs, Binary.unitsOf_abs]
  rfl

theorem isNaN_abs (x : Float) : x.abs.isNaN = x.isNaN := by
  change x.abs.toModel.unpack.isNaN = x.toModel.unpack.isNaN
  rw [unpack_abs]
  cases x.toModel.unpack <;> rfl

end Double

end Flowchart
