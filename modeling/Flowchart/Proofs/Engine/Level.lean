import Flowchart.Engine.Slot
import Flowchart.Proofs.Double
import Flowchart.Proofs.Engine.Slot

/-!
# A Layer Has One Height

A part finds its layers by comparing heights, and two heights that nearly agree
are one layer. To nearly agree is not transitive, so boxes of one layer need
not nearly agree with each other. They do if heights never nearly agree without
being equal, and then a layer has one height: each of its boxes agrees with the
level that it was found at.

## Main definitions

* `Heights`: No two heights nearly agree without being equal.

## Theorems

* `sameLayer_iff`: Heights of one layer are equal.
* `exists_levelOf`: Every height is found at a level that it agrees with.
* `units_y_eq_of_rankAt_eq`: Boxes of one layer have one height.
-/

namespace Flowchart

namespace Engine

/-- The distance of two heights, or of one from itself, is nothing or more than
    is overlooked. An infinite height has no distance from itself. -/
def Heights (ys : List Float) : Prop :=
  ∀ a ∈ ys, ∀ b ∈ ys, ((a - b).abs == 0) = true ∨ layerEpsilon ≤ (a - b).abs

namespace Heights

variable {ys : List Float} (h : Heights ys) {a b : Float}

include h

theorem isFinite (ha : a ∈ ys) : a.isFinite = true := by
  have hnan : (a - a).isNaN = false := by
    rw [← Double.isNaN_abs]
    rcases h a ha a ha with hzero | hfar
    · exact ((Double.beq_iff _ _).mp hzero).1
    · exact ((Double.le_iff _ _).mp hfar).2.1
  exact Double.isFinite_of_isNaN_sub_self hnan

/-- Heights of one layer are equal. -/
theorem sameLayer_iff (ha : a ∈ ys) (hb : b ∈ ys) :
    sameLayer a b = true ↔ Double.units a = Double.units b := by
  have hnan := Double.isNaN_sub (h.isFinite ha) (h.isFinite hb)
  rw [sameLayer, decide_eq_true_iff, Double.lt_iff, Double.isNaN_abs, Double.units_abs]
  constructor
  · rintro ⟨_, _, hlt⟩
    -- Heights that are not equal are too far apart for one layer, also after their difference was
    -- rounded.
    rcases h a ha b hb with hzero | hfar
    · have hunits := ((Double.beq_iff _ _).mp hzero).2.2
      rw [Double.units_abs] at hunits
      have hnone : Double.units (a - b) = 0 := Int.natAbs_eq_zero.mp (Int.ofNat_eq_zero.mp hunits)
      have hfinite := Double.isFinite_of_natAbs_lt hnan (by
        rw [hnone]
        exact Binary.zero_lt_top)
      have hclose := Double.units_sub hfinite
      rw [hnone] at hclose
      omega
    · have hle := ((Double.le_iff _ _).mp hfar).2.2
      rw [Double.units_abs] at hle
      omega
  · intro heq
    have hsub := Double.natAbs_units_sub_le (h.isFinite ha) (h.isFinite hb)
    have heps : 0 < Double.units layerEpsilon := by decide +kernel
    exact ⟨hnan, by decide +kernel, by omega⟩

end Heights

/-! ## Levels -/

variable {ys : List Float}

theorem mem_of_mem_distinctFrom {kept y : Float} {zs : List Float}
    (hy : y ∈ distinctFrom kept zs) : y ∈ zs := by
  induction zs generalizing kept with
  | nil => exact hy
  | cons z zs ih =>
      rw [distinctFrom] at hy
      split at hy
      · exact List.mem_cons_of_mem z (ih hy)
      · rcases List.mem_cons.mp hy with rfl | hy
        · exact List.mem_cons_self
        · exact List.mem_cons_of_mem z (ih hy)

/-- A height that is left out agrees with one that is kept. -/
theorem exists_mem_distinctFrom (h : Heights ys) {kept y : Float} {zs : List Float}
    (hkept : kept ∈ ys) (hzs : ∀ z ∈ zs, z ∈ ys) (hy : y ∈ zs) :
    ∃ l ∈ kept :: distinctFrom kept zs, Double.units l = Double.units y := by
  induction zs generalizing kept with
  | nil => exact absurd hy List.not_mem_nil
  | cons z zs ih =>
      rcases List.forall_mem_cons.mp hzs with ⟨hz, hzs⟩
      rw [distinctFrom]
      -- A height that is left out agrees with the one kept before it, and one that is kept is
      -- compared with what follows.
      by_cases hsame : sameLayer z kept = true
      · rw [if_pos hsame]
        rcases List.mem_cons.mp hy with rfl | hy
        · exact ⟨kept, List.mem_cons_self, ((h.sameLayer_iff hz hkept).mp hsame).symm⟩
        · exact ih hkept hzs hy
      · rw [if_neg hsame]
        rcases List.mem_cons.mp hy with rfl | hy
        · exact ⟨y, List.mem_cons_of_mem _ List.mem_cons_self, rfl⟩
        · rcases ih hz hzs hy with ⟨l, hl, hunits⟩
          exact ⟨l, List.mem_cons_of_mem _ hl, hunits⟩

theorem mem_of_mem_levels {l : Float} (hl : l ∈ levels ys) : l ∈ ys := by
  unfold levels at hl
  split at hl
  · exact absurd hl List.not_mem_nil
  · rename_i z zs hzs
    rw [← List.mem_mergeSort, hzs]
    rcases List.mem_cons.mp hl with rfl | hl
    · exact List.mem_cons_self
    · exact List.mem_cons_of_mem z (mem_of_mem_distinctFrom hl)

theorem exists_mem_levels (h : Heights ys) {y : Float} (hy : y ∈ ys) :
    ∃ l ∈ levels ys, Double.units l = Double.units y := by
  -- Sorting loses no height.
  replace hy : y ∈ ys.mergeSort Double.totalLe := List.mem_mergeSort.mpr hy
  unfold levels
  split
  · rename_i hnil
    rw [hnil] at hy
    exact absurd hy List.not_mem_nil
  · rename_i z zs hzs
    have hall : ∀ x ∈ z :: zs, x ∈ ys := by
      rw [← hzs]
      exact fun x hx => List.mem_mergeSort.mp hx
    rw [hzs] at hy
    rcases List.mem_cons.mp hy with rfl | hy
    · exact ⟨y, List.mem_cons_self, rfl⟩
    · exact exists_mem_distinctFrom h (hall z List.mem_cons_self)
        (fun x hx => hall x (List.mem_cons_of_mem z hx)) hy

/-- Every height is found at a level that it agrees with. -/
theorem exists_levelOf (h : Heights ys) {y : Float} (hy : y ∈ ys) :
    ∃ l, (levels ys)[levelOf (levels ys) y]? = some l ∧ Double.units l = Double.units y := by
  unfold levelOf
  cases hfind : (levels ys).findIdx? fun level => sameLayer level y with
  | none =>
      rcases exists_mem_levels h hy with ⟨l, hl, hunits⟩
      -- The level that every height has would have been found.
      have hnot := List.findIdx?_eq_none_iff.mp hfind l hl
      exact absurd ((h.sameLayer_iff (mem_of_mem_levels hl) hy).mpr hunits)
        (Bool.eq_false_iff.mp hnot)
  | some k =>
      rcases List.findIdx?_eq_some_iff_getElem.mp hfind with ⟨hk, hsame, _⟩
      exact ⟨_, List.getElem?_eq_getElem hk,
        (h.sameLayer_iff (mem_of_mem_levels (List.getElem_mem hk)) hy).mp hsame⟩

/-- Boxes of one layer of a part have one height. -/
theorem units_y_eq_of_rankAt_eq {seats : List Seat} {links : List Ends}
    (h : Heights (seats.map Seat.y)) {s t : Seat} (hs : s ∈ seats) (ht : t ∈ seats)
    (heq : rankAt seats links s = rankAt seats links t) :
    Double.units s.y = Double.units t.y := by
  rcases exists_levelOf h (List.mem_map_of_mem hs) with ⟨l, hl, hunits⟩
  rcases exists_levelOf h (List.mem_map_of_mem ht) with ⟨l', hl', hunits'⟩
  have hlt := (List.getElem?_eq_some_iff.mp hl).1
  have hlt' := (List.getElem?_eq_some_iff.mp hl').1
  -- Counting the layers from the other side keeps them apart.
  have hsame : levelOf (levels (seats.map Seat.y)) s.y =
      levelOf (levels (seats.map Seat.y)) t.y := by
    unfold rankAt at heq
    dsimp only at heq
    split at heq <;> omega
  rw [hsame, hl'] at hl
  rw [← hunits, ← hunits', Option.some.inj hl]

end Engine

end Flowchart
