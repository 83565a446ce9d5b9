import Flowchart.Proofs.Binary.Units
import Flowchart.Single

/-!
# Singles as Multiples of a Unit

A single is stored as a sign, an exponent and a mantissa, and compared part by
part. Here it is read as a whole number: how many times it is the smallest
positive single. An infinity is read as the power of two that follows the
largest finite single, which is where a sum that grows too large is cut off.
What is not a number is read as zero, and has to be asked for separately.

Comparing the parts is comparing the readings, provided that no single can be
written with a smaller exponent. The code never says so; it holds because every
single that there is was unpacked from its bits.

## Main definitions

* `Single.unitsOf`, `Single.units`: How many times the unit a single is.
* `Single.Rounded`: A mantissa has its 24 digits, or the exponent is least.
* `Single.bounded`: What is too large becomes an infinity.
* `Single.clamp`: The same for a reading.
* `Single.Canonical`: A float that a single can hold.

## Theorems

* `unpack_pack`: What is packed is what comes out, unless it is too large.
* `canonical_unpack`: Every single is rounded and not too large.
* `compare_eq`: Comparing singles is comparing readings.
* `lt_iff`: The order of singles is that of their readings.
* `foldl_max_spec`, `foldl_max_mem`: The maximum of a row is the greatest in it.
* `max_zero`: The maximum with zero is a number, and not negative.
-/

namespace Flowchart

namespace Single

open Float.Model (Format UnpackedFloat totalExponent)
open Float.Model.UnpackedFloat

/-! ## Readings -/

/-- How many times the unit a number is whose exponent is not below it. -/
def scale (m : Nat) (e : Int) : Nat := m * 2 ^ (e + 149).toNat

/-- The reading of infinity. -/
def top : Nat := 2 ^ 24 * 2 ^ 253

/-- How many times the unit a float is. -/
def unitsOf : UnpackedFloat → Int
  | .notANumber => 0
  | .zero _ => 0
  | .infinity s => s.apply top
  | .finite s m e _ => s.apply (scale m e)

theorem unitsOf_infinity (s : Sign) : unitsOf (.infinity s) = s.apply top := rfl

theorem unitsOf_finite (s : Sign) (m : Nat) (e : Int) (h : 0 < m) :
    unitsOf (.finite s m e h) = s.apply (scale m e) :=
  rfl

/-- How many times the unit a single is. -/
def units (x : Float32) : Int := unitsOf x.toModel.unpack

/-- The mantissa has its 24 digits, or fewer if the exponent is that of the
    unit. -/
def Rounded : UnpackedFloat → Prop
  | .finite _ m e _ => m < 2 ^ 24 ∧ -149 ≤ e ∧ (2 ^ 23 ≤ m ∨ e = -149)
  | _ => True

/-- What is too large becomes an infinity. -/
def bounded : UnpackedFloat → UnpackedFloat
  | .finite s m e h => if 105 ≤ e then .infinity s else .finite s m e h
  | u => u

/-- A reading that is too large becomes that of an infinity. -/
def clamp (n : Int) : Int := max (-top) (min top n)

/-- A float that a single can hold. -/
structure Canonical (u : UnpackedFloat) : Prop where
  rounded : Rounded u
  bounded : bounded u = u

/-! ## Singles among the binary floats -/

theorem one_lt_half : 1 < Binary.half .binary32 := by decide

theorem unitsOf_eq (u : UnpackedFloat) : unitsOf u = Binary.unitsOf .binary32 u := by
  cases u <;> rfl

theorem rounded_iff {u : UnpackedFloat} : Rounded u ↔ Binary.Rounded .binary32 u := by
  cases u <;> exact Iff.rfl

theorem bounded_eq (u : UnpackedFloat) : bounded u = Binary.bounded .binary32 u := by
  cases u <;> rfl

theorem canonical_iff {u : UnpackedFloat} : Canonical u ↔ Binary.Canonical .binary32 u :=
  ⟨fun h => ⟨rounded_iff.mp h.rounded, (bounded_eq u).symm.trans h.bounded⟩,
    fun h => ⟨rounded_iff.mpr h.rounded, (bounded_eq u).trans h.bounded⟩⟩

theorem zero_lt_top : 0 < top := Nat.mul_pos (Nat.two_pow_pos _) (Nat.two_pow_pos _)

theorem unitsOf_bounded {u : UnpackedFloat} (h : Rounded u) :
    unitsOf (bounded u) = clamp (unitsOf u) := by
  rw [unitsOf_eq, unitsOf_eq, bounded_eq, Binary.unitsOf_bounded one_lt_half (rounded_iff.mp h)]
  rfl

/-- What is packed is what comes out of it, unless it is too large. -/
theorem unpack_pack {u : UnpackedFloat} (h : Rounded u) :
    (Float32.Model.pack u).unpack = bounded u := by
  rw [bounded_eq]
  exact Binary.unpack_pack one_lt_half (rounded_iff.mp h)

theorem canonical_unpack (x : Float32.Model) : Canonical x.unpack :=
  canonical_iff.mpr (Binary.canonical_unpack one_lt_half _)

/-! ## The order -/

/-- Comparing floats that singles can hold is comparing their readings. -/
theorem compare_eq {u v : UnpackedFloat} (hu : Canonical u) (hv : Canonical v)
    (hunan : u.isNaN = false) (hvnan : v.isNaN = false) :
    u.compare v = some (compare (unitsOf u) (unitsOf v)) := by
  rw [unitsOf_eq, unitsOf_eq]
  exact Binary.compare_eq (canonical_iff.mp hu) (canonical_iff.mp hv) hunan hvnan

theorem isNaN_eq (x : Float32) : x.isNaN = x.toModel.unpack.isNaN := rfl

theorem lt_iff_compare (a b : Float32) :
    a < b ↔ a.toModel.unpack.compare b.toModel.unpack = some .lt := by
  change decide (a.toModel < b.toModel) = true ↔ _
  rw [decide_eq_true_iff]
  change a.toModel.unpack.lt b.toModel.unpack = true ↔ _
  exact beq_iff_eq

/-- The order of singles is that of their readings. -/
theorem lt_iff (a b : Float32) :
    a < b ↔ a.isNaN = false ∧ b.isNaN = false ∧ units a < units b := by
  rw [lt_iff_compare, isNaN_eq, isNaN_eq]
  by_cases hnan : a.toModel.unpack.isNaN = false ∧ b.toModel.unpack.isNaN = false
  · rw [compare_eq (canonical_unpack _) (canonical_unpack _) hnan.1 hnan.2, Option.some.injEq,
      Int.compare_eq_lt]
    exact ⟨fun h => ⟨hnan.1, hnan.2, h⟩, fun h => h.2.2⟩
  · rw [Binary.compare_eq_none hnan]
    exact iff_of_false (by simp only [reduceCtorEq, not_false_eq_true]) fun h => hnan ⟨h.1, h.2.1⟩

theorem lt_irrefl (a : Float32) : ¬a < a := by
  rw [lt_iff]
  exact fun h => Int.lt_irrefl _ h.2.2

theorem lt_trans {a b c : Float32} (hab : a < b) (hbc : b < c) : a < c := by
  rw [lt_iff] at *
  exact ⟨hab.1, hbc.2.1, Int.lt_trans hab.2.2 hbc.2.2⟩

theorem lt_of_lt_of_le {a b c : Float32} (hab : a < b) (hc : c.isNaN = false)
    (hbc : units b ≤ units c) : a < c := by
  rw [lt_iff] at *
  exact ⟨hab.1, hc, Int.lt_of_lt_of_le hab.2.2 hbc⟩

theorem units_zero : units 0 = 0 := rfl

/-- A maximum with a number is a number, and not less than either operand that
    is one. -/
theorem max_spec {a : Float32} (ha : a.isNaN = false) (b : Float32) :
    (Single.max a b).isNaN = false ∧ units a ≤ units (Single.max a b) ∧
      (b.isNaN = false → units b ≤ units (Single.max a b)) := by
  unfold Single.max
  rw [ha, if_neg Bool.false_ne_true]
  by_cases hb : b.isNaN = true
  · rw [if_pos hb]
    exact ⟨ha, Int.le_refl _, fun h => absurd (h.symm.trans hb) Bool.false_ne_true⟩
  · rw [if_neg hb]
    have hnan := Bool.eq_false_of_not_eq_true hb
    by_cases hlt : a < b
    · rw [if_pos hlt]
      exact ⟨hnan, Int.le_of_lt ((lt_iff a b).mp hlt).2.2, fun _ => Int.le_refl _⟩
    · rw [if_neg hlt]
      rw [lt_iff] at hlt
      exact ⟨ha, Int.le_refl _, fun _ => Int.not_lt.mp fun h => hlt ⟨ha, hnan, h⟩⟩

/-- The same for the second operand. -/
theorem max_spec_right (a : Float32) {b : Float32} (hb : b.isNaN = false) :
    (Single.max a b).isNaN = false ∧ units b ≤ units (Single.max a b) := by
  by_cases ha : a.isNaN = true
  · unfold Single.max
    rw [if_pos ha]
    exact ⟨hb, Int.le_refl _⟩
  · rcases max_spec (Bool.eq_false_of_not_eq_true ha) b with ⟨hnan, _, hle⟩
    exact ⟨hnan, hle hb⟩

theorem foldl_max_spec {a : Float32} (ha : a.isNaN = false) (xs : List Float32) :
    (xs.foldl Single.max a).isNaN = false ∧ units a ≤ units (xs.foldl Single.max a) ∧
      ∀ x ∈ xs, x.isNaN = false → units x ≤ units (xs.foldl Single.max a) := by
  induction xs generalizing a with
  | nil => exact ⟨ha, Int.le_refl _, fun x hx => absurd hx List.not_mem_nil⟩
  | cons x xs ih =>
      rcases max_spec ha x with ⟨hnan, hle, hx⟩
      rcases ih hnan with ⟨hnan', hle', hxs⟩
      rw [List.foldl_cons]
      exact ⟨hnan', Int.le_trans hle hle', List.forall_mem_cons.mpr
        ⟨fun h => Int.le_trans (hx h) hle', hxs⟩⟩

/-- A maximum is one of its operands. -/
theorem max_mem (a b : Float32) : Single.max a b = a ∨ Single.max a b = b := by
  unfold Single.max
  split
  · exact Or.inr rfl
  · split
    · exact Or.inl rfl
    · split
      · exact Or.inr rfl
      · exact Or.inl rfl

theorem foldl_max_mem (a : Float32) (xs : List Float32) : xs.foldl Single.max a ∈ a :: xs := by
  induction xs generalizing a with
  | nil => exact List.mem_cons_self
  | cons x xs ih =>
      rw [List.foldl_cons]
      rcases List.mem_cons.mp (ih (Single.max a x)) with heq | hin
      · rw [heq]
        rcases max_mem a x with hmax | hmax
        · rw [hmax]
          exact List.mem_cons_self
        · rw [hmax]
          exact List.mem_cons_of_mem _ List.mem_cons_self
      · exact List.mem_cons_of_mem _ (List.mem_cons_of_mem _ hin)

/-- A number that nothing exceeds is left as it is. -/
theorem foldl_max_eq_self {a : Float32} (ha : a.isNaN = false) {xs : List Float32}
    (h : ∀ x ∈ xs, ¬a < x) : xs.foldl Single.max a = a := by
  induction xs with
  | nil => rfl
  | cons x xs ih =>
      rcases List.forall_mem_cons.mp h with ⟨hx, hxs⟩
      have hmax : Single.max a x = a := by
        unfold Single.max
        rw [if_neg (by rw [ha]; exact Bool.false_ne_true), if_neg hx]
        exact ite_self a
      rw [List.foldl_cons, hmax]
      exact ih hxs

/-- The maximum with zero is a number, and not negative. -/
theorem max_zero (x : Float32) : (Single.max x 0).isNaN = false ∧ 0 ≤ units (Single.max x 0) :=
  max_spec_right x rfl

end Single

end Flowchart
