import Flowchart.Proofs.Single.Exact

/-!
# Columns Do Not Close Up

A layering sets the vertices of a layer ten apart, in doubles, and the engine
makes columns of this by taking differences and dividing by ten. Both may be
rounded, so two columns may come out a little less than one apart, while boxes
need all of it. What saves them is what follows. A column becomes a single, and
is multiplied by the width of a column and added to the left side of the part
and to half the width of a box, all without loss. But where the columns are so
fine that less than one between them fits into a single, the rest of this no
longer does: half a box has too few digits to reach so far, or the left side
has.

All numbers here are readings, in units of singles. A single is one where its
reading is `2 ^ 149`.

## Main definitions

* `Column.Frame`: Left side, box and column of a part.
* `Column.At`: A column, its distance from the left side, and its sums.

## Theorems

* `Column.quotient_gap`: What is left of a distance after two roundings.
* `Column.far_or_near`: Columns are one apart, or close to zero and one.
* `Column.apart`: Two columns are a box apart.
-/

namespace Flowchart

namespace Engine

namespace Column

open Single (Fits grain)

/-- Two quotients of distances from `m` are one apart, but for a part of them
    and of one. -/
theorem quotient_gap (one : Int) {x₁ x₂ m d₁ d₂ q₁ q₂ : Int} (hone : 2 ^ 60 ≤ one) (hm : m ≤ x₁)
    (hle : x₁ ≤ x₂) (hapart : 2 ^ 52 * (10 * one) ≤ (2 ^ 52 + 1) * (x₂ - x₁))
    (hd₁ : 2 ^ 52 * (d₁ - (x₁ - m)).natAbs ≤ (x₁ - m).natAbs)
    (hd₂ : 2 ^ 52 * (d₂ - (x₂ - m)).natAbs ≤ (x₂ - m).natAbs)
    (hq₁ : 2 ^ 52 * (q₁ * 10 - d₁).natAbs ≤ d₁.natAbs + 2 ^ 52 * 10)
    (hq₂ : 2 ^ 52 * (q₂ * 10 - d₂).natAbs ≤ d₂.natAbs + 2 ^ 52 * 10) :
    2 ^ 52 * (q₁ + one) ≤ 2 ^ 52 * q₂ + 5 * q₁ + 4 * one := by
  omega

/-- A column that was made of the distance of `x` from `m`, by a difference and a
    division by ten, both rounded. -/
def Made (m x n : Int) : Prop :=
  m ≤ x ∧ ∃ d, 2 ^ 52 * (d - (x - m)).natAbs ≤ (x - m).natAbs ∧
    2 ^ 52 * (n * Single.doubles * 10 - d).natAbs ≤ d.natAbs + 2 ^ 52 * 10

theorem doubles_pos : (2 : Int) ^ 60 ≤ Single.doubles := by decide +kernel

/-- Whole columns do not notice the unit of doubles. -/
theorem Made.nonneg {m x n : Int} (h : Made m x n) : 0 ≤ n := by
  rcases h with ⟨hle, d, hd, hq⟩
  have hdoubles := doubles_pos
  by_contra hneg
  have hmul := Int.mul_le_mul_of_nonneg_right (show n ≤ -1 by omega) (c := Single.doubles)
    (by omega)
  omega

/-- What is missing of one between two columns that were made of places ten
    apart. -/
theorem Made.gap {m x₁ x₂ n₁ n₂ : Int} (h₁ : Made m x₁ n₁) (h₂ : Made m x₂ n₂) (hle : x₁ ≤ x₂)
    (hapart : 2 ^ 52 * (10 * (Double.one : Int)) ≤ (2 ^ 52 + 1) * (x₂ - x₁)) :
    2 ^ 52 * (n₁ + 2 ^ 149) ≤ 2 ^ 52 * n₂ + 5 * n₁ + 4 * 2 ^ 149 := by
  rcases h₁ with ⟨hm, d₁, hd₁, hq₁⟩
  rcases h₂ with ⟨_, d₂, hd₂, hq₂⟩
  have hdoubles := doubles_pos
  rw [Single.one_eq_mul_doubles, Int.natCast_mul] at hapart
  have hgap := quotient_gap (2 ^ 149 * Single.doubles) (by omega) hm hle hapart hd₁ hd₂ hq₁ hq₂
  refine Int.le_of_mul_le_mul_right (a := Single.doubles) ?_ (by omega)
  rw [Int.mul_assoc, Int.add_mul, Int.add_mul, Int.add_mul, Int.mul_assoc, Int.mul_assoc,
    Int.mul_assoc]
  exact hgap

/-- The last digits of a number that fits are zeros. -/
theorem dvd_of_fits {n : Int} (h : Fits n) {g : Nat} (hg : g ≤ grain n.natAbs) :
    ((2 ^ g : Nat) : Int) ∣ n :=
  Int.natCast_dvd.mpr (Nat.dvd_trans (Nat.pow_dvd_pow 2 hg) h)

theorem le_grain {n g : Nat} (h : 2 ^ (g + 23) ≤ n) : g ≤ grain n := by
  have hpos := Nat.two_pow_pos (g + 23)
  have hlog := (Nat.le_log2 (by omega)).mpr h
  unfold grain
  omega

variable {n₁ n₂ : Int}

/-- What is missing between two columns is no finer than the digits of both. -/
theorem two_pow_le_missing (h₁ : Fits n₁) (h₂ : Fits n₂) (hmissing : n₂ < n₁ + 2 ^ 149) {g : Nat}
    (hg₁ : g ≤ grain n₁.natAbs) (hg₂ : g ≤ grain n₂.natAbs) (hg : g ≤ 149) :
    ((2 ^ g : Nat) : Int) ≤ n₁ + 2 ^ 149 - n₂ := by
  have hone : ((2 ^ g : Nat) : Int) ∣ 2 ^ 149 :=
    Int.natCast_dvd.mpr (Nat.pow_dvd_pow 2 hg)
  exact Int.le_of_dvd (by omega)
    (Int.dvd_sub (Int.dvd_add (dvd_of_fits h₁ hg₁) hone) (dvd_of_fits h₂ hg₂))

/-- Columns that are one apart, but for a little, are one apart, or the second
    is one and the first almost zero. -/
theorem far_or_near (h₁ : Fits n₁) (h₂ : Fits n₂) (hpos₁ : 0 ≤ n₁) (hpos₂ : 0 ≤ n₂)
    (hbound : n₁ ≤ 2 ^ 24 * 2 ^ 149)
    (hgap : 2 ^ 52 * (n₁ + 2 ^ 149) ≤ 2 ^ 52 * n₂ + 5 * n₁ + 4 * 2 ^ 149) :
    n₁ + 2 ^ 149 ≤ n₂ ∨ (n₂ = 2 ^ 149 ∧ 0 < n₁ ∧ n₁ ≤ 2 ^ 100) := by
  -- Where the columns are not one apart, so little is missing that the digits of one of them are
  -- finer.
  by_cases hfar : n₁ + 2 ^ 149 ≤ n₂
  · exact Or.inl hfar
  · refine Or.inr ?_
    have hmissing : n₁ + 2 ^ 149 - n₂ < 2 ^ 124 := by omega
    have hlast := fun g => two_pow_le_missing (g := g) h₁ h₂ (by omega)
    -- Not all digits of both columns are as coarse as what is missing.
    have hfine : ¬(124 ≤ grain n₁.natAbs ∧ 124 ≤ grain n₂.natAbs) := by
      rintro ⟨hg₁, hg₂⟩
      have h := hlast 124 hg₁ hg₂ (by decide)
      omega
    rcases Nat.lt_or_ge (grain n₂.natAbs) (grain n₁.natAbs) with hlt | hge
    · -- A coarser first column would be beyond the second by more than one.
      have hdigit := hlast _ (Nat.le_of_lt hlt) (Nat.le_refl _) (by omega)
      have hsmall := Single.lt_two_pow_grain n₂.natAbs
      have hlarge := Single.two_pow_grain_le (n := n₁.natAbs) (by omega)
      have hpow : 2 * 2 ^ grain n₂.natAbs ≤ 2 ^ grain n₁.natAbs := by
        rw [Nat.mul_comm, ← Nat.pow_succ]
        exact Nat.pow_le_pow_right (by decide) hlt
      omega
    · -- The first column is the finer one, and small.
      have hdigit := hlast _ (Nat.le_refl _) hge (by omega)
      have hsmall := Single.lt_two_pow_grain n₁.natAbs
      have hless : n₁ < 2 ^ 24 * (n₁ + 2 ^ 149 - n₂) := by omega
      have hnear : n₁ + 2 ^ 149 - n₂ ≤ 2 ^ 100 := by omega
      -- Only one itself is that close to one.
      have hcoarse : 125 ≤ grain n₂.natAbs := le_grain (by omega)
      rcases dvd_of_fits h₂ hcoarse with ⟨c, hc⟩
      have hone : c = 2 ^ 24 := by omega
      omega

/-! ## Columns of a part -/

/-- The left side of a part, the width of its widest box and half of it, and the
    width of a column. -/
structure Frame (left widest half column : Int) : Prop where
  widest_nonneg : 0 ≤ widest
  twice_half : 2 * half = widest
  widest_le : widest ≤ column
  left_fits : Fits left
  half_fits : Fits half
  column_fits : Fits column

/-- A column, how far it is from the left side, and that adding this to the left
    side and to half a box loses nothing. -/
structure At (left half column n p : Int) : Prop where
  nonneg : 0 ≤ n
  fits : Fits n
  product : p * 2 ^ 149 = n * column
  side_fits : Fits (left + p)
  center_fits : Fits (left + p + half)

variable {left widest half column p₁ p₂ : Int}

/-- The columns of a part that has a first one are no further than half a box
    has digits. -/
theorem At.le_of_first (a : At left half column n₁ p₁) (hf : Frame left widest half column)
    (first : At left half column 0 0) (hwide : 0 < widest) : n₁ ≤ 2 ^ 24 * 2 ^ 149 := by
  have htwice := hf.twice_half
  -- Half a box was added to the left end without rounding, and so the left end is at most as many
  -- halves as there are digits.
  have hleft : left.natAbs ≤ 2 ^ 24 * half.natAbs := by
    refine hf.left_fits.natAbs_le ?_ (by omega)
    have hsum := first.center_fits
    rw [Int.add_zero] at hsum
    exact hsum
  have hside : (left + p₁).natAbs ≤ 2 ^ 24 * half.natAbs :=
    a.side_fits.natAbs_le a.center_fits (by omega)
  -- What the column takes of the width is at most the way from the left end to its side.
  have hcolumns : n₁ * widest ≤ 2 ^ 24 * 2 ^ 149 * widest := by
    calc n₁ * widest
        ≤ n₁ * column := Int.mul_le_mul_of_nonneg_left hf.widest_le a.nonneg
      _ = p₁ * 2 ^ 149 := a.product.symm
      _ ≤ 2 ^ 24 * 2 ^ 149 * widest := by omega
  exact Int.le_of_mul_le_mul_right hcolumns hwide

/-- Two columns of a part are a box apart. -/
theorem apart (hf : Frame left widest half column) (first : At left half column 0 0)
    (a : At left half column n₁ p₁) (b : At left half column n₂ p₂)
    (hgap : 2 ^ 52 * (n₁ + 2 ^ 149) ≤ 2 ^ 52 * n₂ + 5 * n₁ + 4 * 2 ^ 149) :
    widest ≤ (p₂ - p₁).natAbs := by
  have hnonneg := hf.widest_nonneg
  rcases Int.le_iff_lt_or_eq.mp hnonneg with hwide | hnone
  · have htwice := hf.twice_half
    have hle := hf.widest_le
    have ha := a.product
    have hb := b.product
    -- Columns that are one apart are multiplied by a column width, which is no less than the widest
    -- box.
    rcases far_or_near a.fits b.fits a.nonneg b.nonneg (a.le_of_first hf first hwide) hgap with
      hfar | ⟨hone, hpos, hlow⟩
    · have hcolumns := Int.mul_le_mul_of_nonneg_right hfar (c := column) (by omega)
      rw [Int.add_mul, ← ha, ← hb] at hcolumns
      omega
    · -- The second column is the first one to the right, and the first column is next to zero but
      -- not zero.
      rw [hone] at hb
      have hp₂ : p₂ = column := by omega
      have hlower := Int.mul_le_mul_of_nonneg_right hlow (c := column) (by omega)
      have hsome := Int.mul_pos hpos (b := column) (by omega)
      rw [← ha] at hlower hsome
      by_cases hleft : left = 0
      · -- Half a box would not reach the first column.
        have hcenter := a.center_fits
        rw [hleft, Int.zero_add, Int.add_comm] at hcenter
        have hhalf := hf.half_fits.natAbs_le hcenter (by omega)
        omega
      · -- The left side would not reach the first column, or the second not it.
        have hside := b.side_fits
        rw [hp₂, Int.add_comm] at hside
        have hcolumn := hf.column_fits.natAbs_le hside hleft
        have hfirst := hf.left_fits.natAbs_le a.side_fits (by omega)
        omega
  · rw [← hnone]
    omega

end Column

end Engine

end Flowchart
