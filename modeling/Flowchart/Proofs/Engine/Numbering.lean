import Flowchart.Engine.Numbering
import Flowchart.Layering.Basic

/-!
# Numbers Leave None Out

A layering is asked about arcs between numbers, and answers for every number
up to the greatest of an arc. The engine numbers boxes in the order in which
links mention them, and the answer has to come back to each of them. So the
number of every box that takes part has to be an end of some arc. It is,
because a box takes part only through a link, and every such link becomes an
arc between the numbers of its ends.

## Main definitions

* `Numbering.Ties`: A link leads from a free box to another.

## Theorems

* `Layering.lt_orderOf`: The ends of an arc are less than the order.
* `mem_layered_iff`: The links that take part are those between two free boxes.
* `mem_members_iff`: The boxes that take part are the ends of links that do.
* `idxOf_lt_orderOf`: The number of every box that takes part is less than the
  order of the arcs.
* `arcs_ne_nil_of_mem`: Without arcs no box takes part.
-/

namespace Flowchart

namespace Layering

/-- The order that is counted up covers what it started from and every arc. -/
theorem foldl_orderOf (arcs : List (Nat × Nat)) (n : Nat) :
    let order := arcs.foldl (fun n (v, w) => max n (max v w + 1)) n
    n ≤ order ∧ ∀ arc ∈ arcs, arc.1 < order ∧ arc.2 < order := by
  induction arcs generalizing n with
  | nil => exact ⟨Nat.le_refl n, fun arc h => absurd h List.not_mem_nil⟩
  | cons a arcs ih =>
      rcases a with ⟨v, w⟩
      -- The order only grows, so that what covers the first arc covers it to the end.
      rcases ih (max n (max v w + 1)) with ⟨hstart, hrest⟩
      rw [List.foldl_cons]
      refine ⟨Nat.le_trans (Nat.le_max_left _ _) hstart, fun arc h => ?_⟩
      rcases List.mem_cons.mp h with rfl | h
      · have hv : v < max n (max v w + 1) := by omega
        have hw : w < max n (max v w + 1) := by omega
        exact ⟨Nat.lt_of_lt_of_le hv hstart, Nat.lt_of_lt_of_le hw hstart⟩
      · exact hrest arc h

theorem lt_orderOf {arcs : List (Nat × Nat)} {arc : Nat × Nat} (h : arc ∈ arcs) :
    arc.1 < orderOf arcs ∧ arc.2 < orderOf arcs :=
  (foldl_orderOf arcs 0).2 arc h

end Layering

namespace Engine

namespace Numbering

/-- A link leads from a free box to another. -/
def Ties (isFixed : Nat → Bool) (link : Ends) : Prop :=
  link.1 ≠ link.2 ∧ isFixed link.1 = false ∧ isFixed link.2 = false

variable {isFixed : Nat → Bool} {links : List Ends}

theorem counts_iff {link : Ends} : counts isFixed link = true ↔ Ties isFixed link := by
  simp [counts, Ties, and_assoc]

theorem mem_layered_iff {link : Ends} :
    link ∈ layered isFixed links ↔ link ∈ links ∧ Ties isFixed link := by
  rw [layered, List.mem_eraseDups, List.mem_filter, counts_iff]

/-- The boxes that take part are the ends of links that do. -/
theorem mem_members_iff {i : Nat} :
    i ∈ (ofLinks isFixed links).members ↔
      ∃ link ∈ layered isFixed links, i = link.1 ∨ i = link.2 := by
  unfold ofLinks
  rw [List.mem_eraseDups, List.mem_flatMap]
  simp only [List.mem_cons, List.not_mem_nil, or_false]

/-- A box with a number is an end of an arc, so its number is one that a
    layering answers for. -/
theorem idxOf_lt_orderOf {i : Nat} (h : i ∈ (ofLinks isFixed links).members) :
    (ofLinks isFixed links).members.idxOf i < Layering.orderOf (ofLinks isFixed links).arcs := by
  rcases mem_members_iff.mp h with ⟨link, hlink, hend⟩
  have harc : ((ofLinks isFixed links).members.idxOf link.1,
      (ofLinks isFixed links).members.idxOf link.2) ∈ (ofLinks isFixed links).arcs :=
    List.mem_map_of_mem (f := fun x : Ends => ((ofLinks isFixed links).members.idxOf x.1,
      (ofLinks isFixed links).members.idxOf x.2)) hlink
  rcases Layering.lt_orderOf harc with ⟨hsource, htarget⟩
  rcases hend with rfl | rfl
  · exact hsource
  · exact htarget

/-- Where no arc is, no box takes part. -/
theorem arcs_ne_nil_of_mem {i : Nat} (h : i ∈ (ofLinks isFixed links).members) :
    (ofLinks isFixed links).arcs ≠ [] := by
  rcases mem_members_iff.mp h with ⟨link, hlink, _⟩
  exact List.ne_nil_of_mem (List.mem_map_of_mem hlink)

end Numbering

end Engine

end Flowchart
