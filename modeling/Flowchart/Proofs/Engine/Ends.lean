import Flowchart.Engine.Numbering
import Flowchart.Layout.Exchange
import Flowchart.Proofs.Row

/-!
# Links Find Their Boxes

A link names the boxes at its ends, and the engine goes on with their places in
the list of boxes. Where an id is given to several boxes, it means the last. A
placement that is looked up by an id is looked up in the same manner, and so a
link and its boxes meet again in the plan.

## Main definitions

* `Request.Closed`: Both ends of every link are boxes of the request.

## Theorems

* `Row.find?_reverse_zipIdx`: The last of a kind, found with its place.
* `Row.find?_reverse_zipIdx_map`: That place is known from what is looked at.
* `Request.getElem?_of_place?`: The place of an id holds a box of that id.
* `Request.place?_inj`: Ids have the same place only if they are the same.
* `Request.ends?_eq_ok_iff`: The ends of links are the places of their boxes.
* `Request.Closed.exists_ends?_eq_ok`: Every link of a closed request finds its
  boxes.
* `Plan.placement?_of_place?`: The placement of an id stands at the place of its
  box.
-/

namespace Flowchart

namespace Row

variable {α β : Type}

/-- To look for the last of a kind, it does not matter whether places are looked
    for with it. -/
theorem find?_reverse_zipIdx (xs : List α) (p : α → Bool) :
    xs.reverse.find? p = (xs.zipIdx.reverse.find? fun x => p x.1).map Prod.fst := by
  have hfst : xs.reverse = xs.zipIdx.reverse.map Prod.fst := by
    rw [List.map_reverse, List.zipIdx_map_fst]
  rw [hfst, List.find?_map]
  rfl

/-- The place of the last of a kind is known from what is looked at. -/
theorem find?_reverse_zipIdx_map (xs : List α) (f : α → β) (p : β → Bool) :
    ((xs.map f).zipIdx.reverse.find? fun x => p x.1).map Prod.snd =
      (xs.zipIdx.reverse.find? fun x => p (f x.1)).map Prod.snd := by
  rw [List.zipIdx_map, ← List.map_reverse, List.find?_map, Option.map_map]
  rfl

end Row

namespace Engine

namespace Request

/-- Both ends of every link are boxes of the request. -/
def Closed (r : Request) : Prop :=
  ∀ link ∈ r.links, link.source ∈ r.items.map Item.id ∧ link.target ∈ r.items.map Item.id

variable {r : Request}

theorem exists_place?_eq_some {id : String} (h : id ∈ r.items.map Item.id) :
    ∃ i, r.place? id = some i := by
  rcases List.mem_map.mp h with ⟨item, hitem, hid⟩
  rcases List.mem_iff_getElem?.mp hitem with ⟨i, hi⟩
  have hfound : (r.items.zipIdx.reverse.find? fun p => p.1.id == id).isSome = true := by
    rw [List.find?_isSome]
    refine ⟨(item, i), List.mem_reverse.mpr (List.mem_zipIdx_iff_getElem?.mpr hi), ?_⟩
    exact beq_iff_eq.mpr hid
  rcases Option.isSome_iff_exists.mp hfound with ⟨p, hp⟩
  exact ⟨p.2, congrArg (Option.map Prod.snd) hp⟩

/-- The place of an id holds a box of that id. -/
theorem getElem?_of_place? {id : String} {i : Nat} (h : r.place? id = some i) :
    ∃ item, r.items[i]? = some item ∧ item.id = id := by
  rcases Option.map_eq_some_iff.mp h with ⟨⟨item, j⟩, hfind, rfl⟩
  have hmem := List.mem_reverse.mp (List.mem_of_find?_eq_some hfind)
  have hid := List.find?_some hfind
  exact ⟨item, List.mem_zipIdx_iff_getElem?.mp hmem, beq_iff_eq.mp hid⟩

/-- Ids have the same place only if they are the same. -/
theorem place?_inj {id id' : String} {i j : Nat} (h : r.place? id = some i)
    (h' : r.place? id' = some j) : i = j ↔ id = id' := by
  constructor
  · rintro rfl
    rcases getElem?_of_place? h with ⟨item, hitem, hid⟩
    rcases getElem?_of_place? h' with ⟨item', hitem', hid'⟩
    rw [← hid, ← hid', Option.some.inj (hitem.symm.trans hitem')]
  · rintro rfl
    exact Option.some.inj (h.symm.trans h')

theorem end?_eq_ok_iff {link : Link} {id : String} {i : Nat} :
    r.end? link id = .ok i ↔ r.place? id = some i := by
  unfold end?
  cases r.place? id with
  | none => simp only [reduceCtorEq]
  | some j => simp only [Except.ok.injEq, Option.some.injEq]

/-- The ends of links are the places of their boxes. -/
theorem ends?_eq_ok_iff {links : List Ends} :
    r.ends? = .ok links ↔ List.Forall₂ (fun link ends =>
      r.place? link.source = some ends.1 ∧ r.place? link.target = some ends.2) r.links links := by
  unfold ends?
  rw [Row.mapM_eq_ok_iff]
  refine iff_of_eq (congrArg (fun R => List.Forall₂ R r.links links) ?_)
  funext link ends
  rw [Row.bind_eq_ok_iff]
  simp only [Row.bind_eq_ok_iff, end?_eq_ok_iff]
  refine propext ⟨?_, fun h => ⟨ends.1, h.1, ends.2, h.2, rfl⟩⟩
  rintro ⟨i, hi, j, hj, hends⟩
  rw [← Except.ok.inj hends]
  exact ⟨hi, hj⟩

/-- Every link of a closed request finds its boxes. -/
theorem Closed.exists_ends?_eq_ok (h : r.Closed) : ∃ links, r.ends? = .ok links := by
  rw [ends?, Row.exists_mapM_eq_ok_iff]
  intro link hlink
  rcases exists_place?_eq_some (h link hlink).1 with ⟨i, hi⟩
  rcases exists_place?_eq_some (h link hlink).2 with ⟨j, hj⟩
  exact ⟨(i, j), Row.bind_eq_ok_iff.mpr ⟨i, end?_eq_ok_iff.mpr hi,
    Row.bind_eq_ok_iff.mpr ⟨j, end?_eq_ok_iff.mpr hj, rfl⟩⟩⟩

end Request

/-- If the placements repeat the ids of the boxes, the placement of an id stands
    at the place of its box. -/
theorem Plan.placement?_of_place? {plan : Plan} {r : Request}
    (hids : plan.placements.map Placement.id = r.items.map Item.id) {id : String} {i : Nat}
    (h : r.place? id = some i) :
    ∃ placement, plan.placement? id = some placement ∧
      plan.placements[i]? = some placement := by
  -- Both searches are for the last entry of the id, in rows with the same ids.
  have hplace : (plan.placements.zipIdx.reverse.find? fun x => x.1.id == id).map Prod.snd =
      some i := by
    rw [← Row.find?_reverse_zipIdx_map plan.placements Placement.id (· == id), hids,
      Row.find?_reverse_zipIdx_map r.items Item.id (· == id)]
    exact h
  rcases Option.map_eq_some_iff.mp hplace with ⟨⟨placement, j⟩, hfind, rfl⟩
  have hmem := List.mem_reverse.mp (List.mem_of_find?_eq_some hfind)
  refine ⟨placement, ?_, List.mem_zipIdx_iff_getElem?.mp hmem⟩
  rw [placement?, Row.find?_reverse_zipIdx, hfind]
  rfl

end Engine

end Flowchart
