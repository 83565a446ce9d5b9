import Flowchart.Engine.Layered
import Flowchart.Proofs.Engine.Part
import Flowchart.Proofs.Engine.Sweep

/-!
# Layers Are Stacked

Layers are stacked from the top, each as high as its highest box, and a box is
centered in its layer. If no operation loses anything, a box does not reach
beyond its layer, and a layer ends before the next one starts.

## Main definitions

* `Layered.rows`: Where layers start, and how high they are.
* `Layered.rowOperations`: What is computed for the middles of the layers.

## Theorems

* `rows_stacked`: A layer ends before any later one starts.
* `exists_row`: The layer of a box is at least as high as the box.
-/

namespace Flowchart

namespace Engine

namespace Layered

open Single (units Operation)

/-! ## Tops -/

/-- What is computed for the tops of layers. -/
def topsOperations (spacing : Float32) : Float32 → List Float32 → List Operation
  | _, [] => []
  | top, height :: heights =>
      .sum height spacing :: .sum top (height + spacing) ::
        topsOperations spacing (top + (height + spacing)) heights

section tops

variable {spacing : Float32} (hspacing : 0 ≤ units spacing)

include hspacing

/-- Where a layer starts that follows one. -/
theorem top_spec {top height : Float32} (hgap : (Operation.sum height spacing).Exact)
    (hnext : (Operation.sum top (height + spacing)).Exact)
    (hf : (top + (height + spacing)).isFinite = true) :
    top.isFinite = true ∧ units top + units height ≤ units (top + (height + spacing)) := by
  rcases Operation.sum_exact hnext hf with ⟨htf, hgf, hn⟩
  rcases Operation.sum_exact hgap hgf with ⟨_, _, hg⟩
  exact ⟨htf, by omega⟩

/-- No layer starts above the first. -/
theorem le_of_mem_tops {top t : Float32} {heights : List Float32}
    (hheights : ∀ height ∈ heights, 0 ≤ units height)
    (hexact : ∀ op ∈ topsOperations spacing top heights, op.Exact)
    (ht : t ∈ tops spacing top heights) (hf : t.isFinite = true) :
    top.isFinite = true ∧ units top ≤ units t := by
  -- The first of the later layers is where the rest of the stack starts.
  induction heights generalizing top with
  | nil => exact absurd ht List.not_mem_nil
  | cons height heights ih =>
      rcases List.mem_cons.mp ht with rfl | ht
      · exact ⟨hf, Int.le_refl _⟩
      · rcases List.forall_mem_cons.mp hheights with ⟨hheight, hheights⟩
        rw [topsOperations, List.forall_mem_cons, List.forall_mem_cons] at hexact
        rcases hexact with ⟨hgap, hnext, hexact⟩
        rcases ih hheights hexact ht with ⟨hnf, hle⟩
        rcases top_spec hspacing hgap hnext hnf with ⟨htf, hstep⟩
        exact ⟨htf, by omega⟩

/-- A layer ends before any later one starts. -/
theorem tops_pairwise {top : Float32} {heights : List Float32}
    (hheights : ∀ height ∈ heights, 0 ≤ units height)
    (hexact : ∀ op ∈ topsOperations spacing top heights, op.Exact) :
    ((tops spacing top heights).zip heights).Pairwise fun row row' =>
      row'.1.isFinite = true → units row.1 + units row.2 ≤ units row'.1 := by
  induction heights generalizing top with
  | nil => exact List.Pairwise.nil
  | cons height heights ih =>
      rcases List.forall_mem_cons.mp hheights with ⟨_, hheights⟩
      rw [topsOperations, List.forall_mem_cons, List.forall_mem_cons] at hexact
      rcases hexact with ⟨hgap, hnext, hexact⟩
      rw [tops, List.zip_cons_cons]
      refine List.Pairwise.cons (fun row hrow hf => ?_) (ih hheights hexact)
      -- Every later layer starts at the next top or below it, which leaves room for this one.
      rcases le_of_mem_tops hspacing hheights hexact (List.of_mem_zip hrow).1 hf with ⟨hnf, hle⟩
      have hstep := (top_spec hspacing hgap hnext hnf).2
      dsimp only
      omega

end tops

@[simp] theorem length_tops (spacing top : Float32) (heights : List Float32) :
    (tops spacing top heights).length = heights.length := by
  induction heights generalizing top with
  | nil => rfl
  | cons height heights ih => rw [tops, List.length_cons, List.length_cons, ih]

/-! ## Heights -/

/-- How high a box of a layer is. -/
def heightAt? (slots : Slots) (rank : Nat) (item : Item) (i : Nat) : Option Float32 :=
  match slots.slotOf i with
  | some slot => if slot.rank = rank then some item.size.height else none
  | none => none

/-- A layer is as high as the highest of its boxes. -/
theorem layerHeight_eq (r : Request) (slots : Slots) (rank : Nat) :
    layerHeight r slots rank =
      (r.items.zipIdx.filterMap fun p => heightAt? slots rank p.1 p.2).foldl Single.max 0 := by
  rw [List.foldl_filterMap, layerHeight]
  congr 1
  funext height p
  unfold heightAt?
  -- A box counts if its slot is in the layer; any other leaves the maximum alone.
  cases hslot : slots.slotOf p.2 with
  | none => simp only [hslot]
  | some slot =>
      simp only [hslot]
      by_cases hrank : slot.rank = rank
      · rw [if_pos hrank, if_pos hrank]
      · rw [if_neg hrank, if_neg hrank]

/-- A layer is as high as each of its boxes, or higher. -/
theorem layerHeight_spec (r : Request) (slots : Slots) (rank : Nat) :
    0 ≤ units (layerHeight r slots rank) ∧
      ∀ {i item slot}, r.items[i]? = some item → slots.slotOf i = some slot → slot.rank = rank →
        item.size.height.isNaN = false →
        units item.size.height ≤ units (layerHeight r slots rank) := by
  rcases Single.foldl_max_spec (a := 0) rfl
    (r.items.zipIdx.filterMap fun p => heightAt? slots rank p.1 p.2) with ⟨_, hzero, hall⟩
  rw [layerHeight_eq]
  refine ⟨hzero, fun {i item slot} hitem hslot hrank hnan => hall _ ?_ hnan⟩
  refine List.mem_filterMap.mpr ⟨(item, i), List.mem_zipIdx_iff_getElem?.mpr hitem, ?_⟩
  simp only [heightAt?, hslot, if_pos hrank]

/-! ## Rows -/

/-- The heights of all layers. -/
def heights (r : Request) (slots : Slots) : List Float32 :=
  (List.range (Sweep.height slots)).map (layerHeight r slots)

/-- Where each layer starts, and how high it is. -/
def rows (r : Request) (slots : Slots) (options : Options) : List (Float32 × Float32) :=
  (tops options.layerSpacing options.padding (heights r slots)).zip (heights r slots)

/-- What is computed for the middles of all layers. -/
def rowOperations (r : Request) (slots : Slots) (options : Options) : List Operation :=
  topsOperations options.layerSpacing options.padding (heights r slots) ++
    (rows r slots options).flatMap fun (top, height) => [.half height, .sum top (height / 2)]

theorem middles_eq (r : Request) (slots : Slots) (options : Options) :
    middles r slots options = (rows r slots options).map fun row => row.1 + row.2 / 2 :=
  rfl

variable {r : Request} {slots : Slots} {options : Options}

/-- The layer of a box is one of the rows, and as high as the box or higher. -/
theorem exists_row (options : Options) {i : Nat} {item : Item} {slot : Slot}
    (hitem : r.items[i]? = some item) (hslot : slots.slotOf i = some slot)
    (hnan : item.size.height.isNaN = false) :
    ∃ row, (rows r slots options)[slot.rank]? = some row ∧
      (middles r slots options).getD slot.rank 0 = row.1 + row.2 / 2 ∧
      units item.size.height ≤ units row.2 := by
  have hheight : (heights r slots)[slot.rank]? = some (layerHeight r slots slot.rank) := by
    rw [heights, List.getElem?_map, List.getElem?_range (Sweep.rank_lt_height hslot)]
    rfl
  -- There are as many tops as heights, one for each layer that has a slot.
  have hlt := (List.getElem?_eq_some_iff.mp hheight).1
  have htop := List.getElem?_eq_getElem
    (l := tops options.layerSpacing options.padding (heights r slots)) (i := slot.rank)
    (by rw [length_tops]; exact hlt)
  have hrow : (rows r slots options)[slot.rank]? = some (_, _) :=
    List.getElem?_zip_eq_some.mpr ⟨htop, hheight⟩
  refine ⟨_, hrow, ?_, (layerHeight_spec r slots slot.rank).2 hitem hslot rfl hnan⟩
  rw [middles_eq, List.getD_eq_getElem?_getD, List.getElem?_map, hrow]
  rfl

/-- A box in the middle of an upper layer ends before one in the middle of a
    lower layer begins. -/
theorem rows_stacked (hspacing : 0 ≤ options.layerSpacing)
    (hexact : ∀ op ∈ rowOperations r slots options, op.Exact) {a b : Nat} (hab : a < b)
    {row row' : Float32 × Float32} (hrow : (rows r slots options)[a]? = some row)
    (hrow' : (rows r slots options)[b]? = some row')
    (hf : (row.1 + row.2 / 2).isFinite = true) (hf' : (row'.1 + row'.2 / 2).isFinite = true) :
    2 * units (row.1 + row.2 / 2) + units row.2 + units row'.2 ≤
      2 * units (row'.1 + row'.2 / 2) := by
  rcases List.forall_mem_append.mp hexact with ⟨htops, hmiddles⟩
  -- Twice the middle of a layer is where it starts and where it ends together.
  have hmiddle : ∀ {k : Nat} {row : Float32 × Float32}, (rows r slots options)[k]? = some row →
      (row.1 + row.2 / 2).isFinite = true →
      row.1.isFinite = true ∧ 2 * units (row.1 + row.2 / 2) = 2 * units row.1 + units row.2 := by
    intro k row hk hf
    have hops := fun op hop =>
      hmiddles op (List.mem_flatMap.mpr ⟨row, List.mem_of_getElem? hk, hop⟩)
    rcases List.forall_mem_cons.mp hops with ⟨hhalf, hops⟩
    rcases List.forall_mem_cons.mp hops with ⟨hsum, _⟩
    rcases Operation.sum_exact hsum hf with ⟨htf, hhf, hs⟩
    have hh := (Operation.half_exact hhalf hhf).2
    exact ⟨htf, by omega⟩
  have hheights : ∀ height ∈ heights r slots, 0 ≤ units height := by
    intro height hmem
    rcases List.mem_map.mp hmem with ⟨rank, _, rfl⟩
    exact (layerHeight_spec r slots rank).1
  -- The rows are stacked, and the middles are compared through their ends.
  have hpairwise := tops_pairwise ((Single.nonneg_iff _).mp hspacing).2 hheights htops
  rcases hmiddle hrow hf with ⟨_, hm⟩
  rcases hmiddle hrow' hf' with ⟨htf, hm'⟩
  rcases List.getElem?_eq_some_iff.mp hrow with ⟨ha, rfl⟩
  rcases List.getElem?_eq_some_iff.mp hrow' with ⟨hb, rfl⟩
  have hstacked := List.pairwise_iff_getElem.mp hpairwise a b ha hb hab htf
  change units (rows r slots options)[a].1 + units (rows r slots options)[a].2 ≤
    units (rows r slots options)[b].1 at hstacked
  omega

end Layered

end Engine

end Flowchart
