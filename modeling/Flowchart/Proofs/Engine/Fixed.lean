import Flowchart.Proofs.Engine.Bystander
import Flowchart.Proofs.Engine.Sweep

/-!
# Fixed Boxes Stay

A fixed box stands at a corner that the request gives, and the engine has to
answer with that corner. Nothing says so where positions are written: the sweep
moves every box that has a slot, and writes by places, whatever stands there. It
leaves fixed boxes alone only because they have no slots, and that is decided
much earlier and in two ways. Parts have no seats for fixed boxes, since links
to these get no number; and of what is left over a fixed box is passed by.

`Free` is what these have in common, and every step that writes slots preserves
it.

## Main definitions

* `Slots.Free`: No fixed box has a slot.

## Theorems

* `Free.write`, `Free.foldl_addPart`, `Free.addAlone`: Steps preserve it.
* `free_ofRequest`: No fixed box is given a slot.
* `Sweep.getElem?_clear_of_slotOf`: A sweep leaves a box without a slot alone.
* `Layered.positions_of_fixed`: A fixed box goes where it is fixed.
-/

namespace Flowchart

namespace Engine

variable {r : Request}

namespace Slots

/-- No fixed box has a slot. -/
def Free (r : Request) (slots : Slots) : Prop :=
  ∀ {i s}, slotOf slots i = some s → r.isFixed i = false

theorem free_empty (r : Request) (n : Nat) : Free r (Array.replicate n none) := by
  intro i s h
  rw [slotOf_eq_some_iff, Array.getElem?_replicate] at h
  split at h <;> simp only [reduceCtorEq, Option.some.injEq] at h

variable {slots : Slots}

theorem Free.write (h : Free r slots) {ws : List (Nat × Slot)}
    (hws : ∀ w ∈ ws, r.isFixed w.1 = false) : Free r (slots.write ws) := by
  intro i s hs
  rcases slotOf_write_eq_some hs with hs | hs
  · exact h hs
  · exact hws _ hs

/-- Parts without seats for fixed boxes give them no slots. -/
theorem Free.foldl_addPart {m : Measure} {links : List Ends} {parts : List (List Seat)}
    (hparts : ∀ seats ∈ parts, ∀ seat ∈ seats, r.isFixed seat.place = false)
    {state : Slots × Float32} (h : Free r state.1) :
    Free r (parts.foldl (addPart m links) state).1 := by
  induction parts generalizing state with
  | nil => exact h
  | cons seats parts ih =>
      rcases List.forall_mem_cons.mp hparts with ⟨hseats, hparts⟩
      rw [List.foldl_cons]
      refine ih hparts ?_
      rw [addPart_eq]
      exact h.write (List.forall_mem_map.mpr hseats)

/-- Nor does what is done for the boxes that are left over. -/
theorem Free.addAlone {members : List Nat} {spacing : Float32} {items : List (Item × Nat)}
    {left : Float32} {slots' : Slots} (h : Free r slots)
    (halone : addAlone r members spacing items (slots, left) = .ok slots') : Free r slots' := by
  induction items generalizing slots left with
  | nil =>
      rw [← Except.ok.inj halone]
      exact h
  | cons p items ih =>
      rcases p with ⟨item, i⟩
      rw [Slots.addAlone] at halone
      -- Of the boxes, those with a slot and fixed ones are passed over. Only a free box gets a slot
      -- here, so that the fixed ones still have none.
      by_cases hdone : ((slotOf slots i).isSome || r.isFixed i) = true
      · rw [if_pos hdone] at halone
        exact ih h halone
      · rw [if_neg hdone] at halone
        by_cases hmember : i ∈ members
        · rw [if_pos hmember] at halone
          cases halone
        · rw [if_neg hmember] at halone
          rw [Bool.or_eq_true, not_or] at hdone
          have hfree : ∀ w ∈ [(i, (⟨0, left + item.size.width / 2⟩ : Slot))],
              r.isFixed w.1 = false :=
            List.forall_mem_singleton.mpr (Bool.eq_false_of_not_eq_true hdone.2)
          exact ih (h.write hfree) halone

/-- No fixed box is given a slot. -/
theorem free_ofRequest {layering : Layering} {links : List Ends} {options : Options}
    (h : ofRequest layering r links options = .ok slots) : Free r slots := by
  rcases Row.bind_eq_ok_iff.mp h with ⟨parts, hparts, halone⟩
  refine Free.addAlone (Free.foldl_addPart (fun seats hseats seat hseat => ?_)
    (free_empty r r.items.length)) halone
  exact isFixed_of_partsOf hparts hseats hseat

end Slots

/-- A sweep leaves a box without a slot where it was. -/
theorem Sweep.getElem?_clear_of_slotOf {slots : Slots} {i : Nat}
    (hslot : slots.slotOf i = none) (spacing : Float32) (ps : List Point) :
    (clear r slots spacing ps)[i]? = ps[i]? := by
  unfold clear
  by_cases hempty : (fixedBoxes r).isEmpty = true
  · rw [if_pos hempty]
  · rw [if_neg hempty]
    refine getElem?_foldl_set_of_not_mem (fun m hm hplace => ?_) ps
    -- Whatever is moved was a member of a layer, and so it has a slot.
    rcases List.mem_flatMap.mp hm with ⟨rank, _, hm⟩
    rcases Row.exists_left_of_mem (layer_pushed _ _ _ _) hm with ⟨m₀, hm₀, hpushed⟩
    rcases mem_members_iff.mp (mem_sorted_iff.mp hm₀) with ⟨_, _, _, _, _, hsome, _⟩
    rw [← hpushed.place_eq, hplace, hslot] at hsome
    cases hsome

/-- A fixed box goes where it is fixed. -/
theorem Layered.positions_of_fixed {slots : Slots} (hfree : Slots.Free r slots)
    {options : Options} {ps : List Point} (h : positions r slots options = .ok ps) {i : Nat}
    {item : Item} (hitem : r.items[i]? = some item) {corner : Point}
    (hcorner : item.fixed = some corner) : ps[i]? = some corner := by
  rcases Row.bind_eq_ok_iff.mp h with ⟨raw, hraw, hps⟩
  have hzip : r.items.zipIdx[i]? = some (item, i) := by
    rw [List.getElem?_zipIdx, hitem, Option.map_some, Nat.zero_add]
  rcases Row.exists_right_of_getElem? ((Row.mapM_eq_ok_iff _ _ _).mp hraw) hzip with
    ⟨p, hp, hposition⟩
  have hfixed : r.isFixed i = true := by
    rw [Request.isFixed, hitem]
    dsimp only
    rw [hcorner]
    rfl
  -- A fixed box has no slot, and what has no slot is not swept.
  have hslot : slots.slotOf i = none := by
    refine Option.eq_none_iff_forall_not_mem.mpr fun s hs => ?_
    exact Bool.false_ne_true ((hfree hs).symm.trans hfixed)
  simp only [rawPosition, hcorner, Except.ok.injEq] at hposition
  rw [← Except.ok.inj hps, Sweep.getElem?_clear_of_slotOf hslot, hp, hposition]

end Engine

end Flowchart
