import Flowchart.Engine.Layered
import Flowchart.Proofs.Engine.Ends
import Flowchart.Proofs.Engine.Slot
import Mathlib.Data.List.Basic

/-!
# Links Without a Say

A link from a box to itself asks for no layer below another, and a link to a
fixed box asks for nothing, since that box has its place. Such links are
bystanders. They are drawn, so the engine has to look up their ends, and then it
hands all links to everything that comes after: to the numbering, which picks
those that take part, and to each part, where the links vote on which way is
down. A bystander must not count there either, and it does not, because its ends
are one box, which is on one layer, or one of them is fixed and in no part.

So slots can be given with the bystanders taken out first. What is left of the
links is a matter of the ids at their ends, and places follow from slots alone.

## Main definitions

* `Request.isBystander`: A link has no say in where boxes go.
* `Request.layeredEnds`: The ids at the ends of all others.

## Theorems

* `Numbering.ofLinks_filter`, `directions_filter`: Bystanders get no number and
  no vote.
* `Slots.ofRequest_filter`: The slots are those without bystanders.
* `Request.filter_counts_eq`: The links that take part are no bystanders.
* `bystanders_move_nothing`: Bystanders, and what links are called, move no box.
-/

namespace Flowchart

namespace Engine

namespace Request

/-- Whether an id means a fixed box. -/
def fixes (r : Request) (id : String) : Bool := (r.place? id).any r.isFixed

/-- Whether a link leads from a box to itself, or has an end at a fixed box. -/
def isBystander (r : Request) (link : Link) : Bool :=
  link.source == link.target || r.fixes link.source || r.fixes link.target

/-- The ids at the ends of the links that are no bystanders. -/
def layeredEnds (r : Request) : List (String × String) :=
  (r.links.filter fun link => !r.isBystander link).map fun link => (link.source, link.target)

end Request

variable {isFixed : Nat → Bool}

/-! ## Numbers -/

namespace Numbering

/-- Links that do not count are left out of the numbering, so they may as well be
    left out before. -/
theorem ofLinks_filter (isFixed : Nat → Bool) (links : List Ends) :
    ofLinks isFixed (links.filter (counts isFixed)) = ofLinks isFixed links := by
  have hlayered : layered isFixed (links.filter (counts isFixed)) = layered isFixed links := by
    rw [layered, layered, List.filter_filter]
    simp only [Bool.and_self]
  rw [ofLinks, ofLinks, hlayered]

/-- No box that takes part is fixed. -/
theorem isFixed_of_mem_members {links : List Ends} {i : Nat}
    (h : i ∈ (ofLinks isFixed links).members) : isFixed i = false := by
  rcases mem_members_iff.mp h with ⟨link, hlink, hend⟩
  rcases mem_layered_iff.mp hlink with ⟨_, _, hsource, htarget⟩
  rcases hend with rfl | rfl
  · exact hsource
  · exact htarget

end Numbering

/-! ## Votes -/

theorem rankOf?_eq_none {ranked : List (Nat × Nat)} {place : Nat}
    (hfree : ∀ p ∈ ranked, isFixed p.1 = false) (hfixed : isFixed place = true) :
    rankOf? ranked place = none := by
  rw [rankOf?, Option.map_eq_none_iff, List.find?_eq_none]
  intro p hp heq
  have hp := hfree p (List.mem_reverse.mp hp)
  rw [beq_iff_eq.mp heq, hfixed] at hp
  exact absurd hp (by decide)

/-- Links that do not count do not vote in a part of free boxes. -/
theorem directions_filter {ranked : List (Nat × Nat)} (links : List Ends)
    (hfree : ∀ p ∈ ranked, isFixed p.1 = false) :
    directions ranked (links.filter (Numbering.counts isFixed)) = directions ranked links := by
  rw [directions, directions, List.foldl_filter]
  -- Both counts go through the same links, and a link that does not count leaves the votes alone.
  refine List.foldl_ext _ _ _ fun votes link _ => ?_
  rcases votes with ⟨down, up⟩
  rcases link with ⟨source, target⟩
  by_cases hcounts : Numbering.counts isFixed (source, target) = true
  · rw [if_pos hcounts]
  · rw [if_neg hcounts]
    dsimp only
    by_cases hloop : source = target
    · -- Both ends are on the same layer, if they are in the part at all.
      rw [hloop]
      cases rankOf? ranked target with
      | none => rfl
      | some rank =>
          dsimp only
          rw [if_neg (Nat.lt_irrefl rank), if_neg (Nat.lt_irrefl rank)]
    · -- One end is fixed, and so it is not in the part.
      simp only [Numbering.counts, Bool.and_eq_true, bne_iff_ne, ne_eq, hloop, not_false_eq_true,
        true_and, Bool.not_eq_true', not_and_or, Bool.not_eq_false] at hcounts
      rcases hcounts with hfixed | hfixed
      · rw [rankOf?_eq_none hfree hfixed]
      · rw [rankOf?_eq_none hfree hfixed]
        cases rankOf? ranked source <;> rfl

namespace Slots

/-- So a part of free boxes is given the same slots without them. -/
theorem addPart_filter (m : Measure) (links : List Ends) (state : Slots × Float32)
    {seats : List Seat} (hfree : ∀ seat ∈ seats, isFixed seat.place = false) :
    addPart m (links.filter (Numbering.counts isFixed)) state seats =
      addPart m links state seats := by
  -- Of the links a part only reads the direction that they lead in.
  have hranks : ranks seats (links.filter (Numbering.counts isFixed)) = ranks seats links := by
    unfold ranks
    dsimp only
    rw [directions_filter]
    intro p hp
    rcases List.mem_map.mp (List.of_mem_zip hp).1 with ⟨seat, hseat, hplace⟩
    rw [← hplace]
    exact hfree seat hseat
  unfold addPart
  dsimp only
  rw [hranks]

/-- No part of a request has a seat for a fixed box. -/
theorem isFixed_of_partsOf {layering : Layering} {links : List Ends} {options : Options}
    {parts : List (List Seat)}
    (hparts : partsOf layering (Numbering.ofLinks isFixed links) options = .ok parts)
    {seats : List Seat} (hseats : seats ∈ parts) {seat : Seat} (hseat : seat ∈ seats) :
    isFixed seat.place = false := by
  rcases partsOf_eq_ok hparts with rfl | ⟨layers, _, rfl⟩
  · exact absurd hseats List.not_mem_nil
  · rcases mem_parts_iff.mp hseats with ⟨spots, _, rfl, _⟩
    rcases mem_seats_iff.mp hseat with ⟨spot, _, hplace, _⟩
    exact Numbering.isFixed_of_mem_members (List.mem_of_getElem? hplace)

/-- Slots are given as if there were no links that do not count. -/
theorem ofRequest_filter (layering : Layering) (r : Request) (links : List Ends)
    (options : Options) :
    ofRequest layering r (links.filter (Numbering.counts r.isFixed)) options =
      ofRequest layering r links options := by
  unfold ofRequest
  dsimp only
  rw [Numbering.ofLinks_filter]
  cases hparts : partsOf layering (Numbering.ofLinks r.isFixed links) options with
  | error failure => rfl
  | ok parts =>
      refine congrArg (addAlone r _ _ _) (List.foldl_ext _ _ _ fun state seats hseats => ?_)
      exact addPart_filter _ links state fun seat hseat =>
        isFixed_of_partsOf hparts hseats hseat

end Slots

/-! ## Requests -/

namespace Request

/-- The links that count are those that are no bystanders. -/
theorem counts_eq {r : Request} {link : Link} {ends : Ends}
    (h : r.place? link.source = some ends.1 ∧ r.place? link.target = some ends.2) :
    Numbering.counts r.isFixed ends = !r.isBystander link := by
  -- Ids are told apart as places are: an id has one place, and at a place there is one item.
  have hloop : (link.source == link.target) = (ends.1 == ends.2) := by
    rw [Bool.eq_iff_iff, beq_iff_eq, beq_iff_eq]
    constructor
    · intro hid
      rw [hid, h.2] at h
      exact (Option.some.inj h.1).symm
    · intro hplace
      rcases getElem?_of_place? h.1 with ⟨item, hitem, hsource⟩
      rcases getElem?_of_place? h.2 with ⟨item', hitem', htarget⟩
      rw [hplace, hitem'] at hitem
      rw [← hsource, ← htarget, Option.some.inj hitem]
  rw [Numbering.counts, isBystander, fixes, fixes, h.1, h.2, hloop, Option.any_some,
    Option.any_some, Bool.not_or, Bool.not_or]
  rfl

/-- What counts of a row of links is told by the ids at the ends of those that are
    no bystanders. -/
theorem filter_counts_eq {r : Request} {ls : List Link} {links : List Ends}
    (h : List.Forall₂ (fun link ends =>
      r.place? link.source = some ends.1 ∧ r.place? link.target = some ends.2) ls links) :
    links.filter (Numbering.counts r.isFixed) =
      ((ls.filter fun link => !r.isBystander link).map fun link => (link.source, link.target)).map
        fun ids => ((r.place? ids.1).getD 0, (r.place? ids.2).getD 0) := by
  induction h with
  | nil => rfl
  | @cons link ends ls links hlink _ ih =>
      rw [List.filter_cons, List.filter_cons, counts_eq hlink]
      -- A link that is no bystander is kept on both sides, a bystander on neither.
      by_cases hstands : (!r.isBystander link) = true
      · rw [if_pos hstands, if_pos hstands, List.map_cons, List.map_cons, ih, hlink.1, hlink.2]
        rfl
      · rw [if_neg hstands, if_neg hstands, ih]

end Request

/-- The plan of the layered engine is what `Layered.plan` makes. -/
theorem plan?_layered (layering : Layering) (options : Options) (r : Request) :
    (layered layering options r).plan? = Layered.plan layering options r := by
  unfold layered
  cases Layered.plan layering options r <;> rfl

namespace Layered

/-- The placements of a plan, once the ends of links are found. -/
def placements (layering : Layering) (options : Options) (r : Request) (links : List Ends) :
    Except Failure (List Placement) := do
  let slots ← Slots.ofRequest layering r links options
  let positions ← positions r slots options
  return (r.items.zip positions).map fun (item, position) => ⟨item.id, position, item.size⟩

/-- Routes come last, and no placement depends on them. -/
theorem map_placements_plan (layering : Layering) (options : Options) (r : Request) :
    (plan layering options r).map Plan.placements =
      r.ends? >>= placements layering options r := by
  unfold plan placements
  cases r.ends? with
  | error failure => rfl
  | ok links =>
      dsimp only [bind, Except.bind]
      cases Slots.ofRequest layering r links options with
      | error failure => rfl
      | ok slots =>
          dsimp only [bind, Except.bind]
          cases positions r slots options <;> rfl

end Layered

/-! ## Links of the same items -/

section items

variable (layering : Layering) (options : Options) {items : List Item} {ls ls' : List Link}

theorem Slots.addAlone_congr (members : List Nat) (spacing : Float32) (rest : List (Item × Nat))
    (state : Slots × Float32) :
    addAlone ⟨items, ls'⟩ members spacing rest state =
      addAlone ⟨items, ls⟩ members spacing rest state := by
  induction rest generalizing state with
  | nil => rfl
  | cons p rest ih =>
      rw [addAlone, addAlone, ih, ih]
      rfl

/-- Slots and positions are computed from the items alone, once the ends of links
    are found. -/
theorem Layered.placements_congr (links : List Ends) :
    placements layering options ⟨items, ls'⟩ links =
      placements layering options ⟨items, ls⟩ links := by
  have hslots : Slots.ofRequest layering ⟨items, ls'⟩ links options =
      Slots.ofRequest layering ⟨items, ls⟩ links options :=
    congrArg (Slots.partsOf layering _ options >>= ·)
      (funext fun parts => Slots.addAlone_congr _ _ _ _)
  unfold placements
  rw [hslots]
  rfl

end items

/-- Bystanders move no box. Two requests for the same boxes, without unknown
    ends, whose links lead the same ways once those are left out that lead from a
    box to itself or have an end at a fixed box, are answered with the same
    placements, or fail for the same reason. What was left out may stand anywhere
    among the links and be any number of them, and links may be called and
    labelled in any way. -/
theorem bystanders_move_nothing (layering : Layering) (options : Options) {r r' : Request}
    (hclosed : r.Closed) (hclosed' : r'.Closed) (hitems : r'.items = r.items)
    (hlinks : r'.layeredEnds = r.layeredEnds) :
    (layered layering options r').plan?.map Plan.placements =
      (layered layering options r).plan?.map Plan.placements := by
  rcases r with ⟨items, ls⟩
  rcases r' with ⟨items', ls'⟩
  dsimp only at hitems
  subst hitems
  -- Both requests are closed, so that neither fails before the boxes are placed.
  rcases hclosed.exists_ends?_eq_ok with ⟨links, hends⟩
  rcases hclosed'.exists_ends?_eq_ok with ⟨links', hends'⟩
  -- What counts is the same in both, and the rest does not matter.
  have hfilter : links'.filter (Numbering.counts (Request.isFixed ⟨items', ls⟩)) =
      links.filter (Numbering.counts (Request.isFixed ⟨items', ls⟩)) :=
    calc links'.filter (Numbering.counts (Request.isFixed ⟨items', ls⟩))
        = (Request.layeredEnds ⟨items', ls'⟩).map _ :=
          Request.filter_counts_eq (Request.ends?_eq_ok_iff.mp hends')
      _ = (Request.layeredEnds ⟨items', ls⟩).map _ := by rw [hlinks]
      _ = links.filter (Numbering.counts (Request.isFixed ⟨items', ls⟩)) :=
          (Request.filter_counts_eq (Request.ends?_eq_ok_iff.mp hends)).symm
  -- The slots only read the links that count, and the sweep only the slots.
  have hplacements : Layered.placements layering options ⟨items', ls⟩ links' =
      Layered.placements layering options ⟨items', ls⟩ links := by
    unfold Layered.placements
    rw [← Slots.ofRequest_filter, hfilter, Slots.ofRequest_filter]
  rw [plan?_layered, plan?_layered, Layered.map_placements_plan, Layered.map_placements_plan, hends,
    hends']
  exact (Layered.placements_congr layering options links').trans hplacements

/-- Around a link that counts, others were put in: loops, also at the fixed box,
    and links to and from the fixed box, one of them at a box that has no other
    link. Where no link counts, a free box goes where it goes without any. -/
theorem bystanders_move_nothing_around :
    let free (id : String) : Item := ⟨id, id, ⟨120, 60⟩, none⟩
    let fixed : Item := ⟨"P", "P", ⟨120, 60⟩, some ⟨60, 60⟩⟩
    let before : List Link := [⟨"e0", "P", "P", none⟩, ⟨"e1", "B", "P", none⟩]
    let after : List Link := [⟨"e3", "B", "B", none⟩, ⟨"e4", "P", "B", some "no"⟩]
    let r : Request := ⟨[free "A", fixed, free "B", free "C"], [⟨"e0", "A", "C", none⟩]⟩
    let r' : Request := { r with links := before ++ ⟨"e2", "A", "C", some "yes"⟩ :: after }
    let s : Request := ⟨[free "B", fixed], []⟩
    let s' : Request := { s with links := before ++ after }
    r.Closed ∧ r'.Closed ∧ r'.layeredEnds = r.layeredEnds ∧
      (layered .standard {} r').plan?.map Plan.placements =
        (layered .standard {} r).plan?.map Plan.placements ∧
      s.Closed ∧ s'.Closed ∧ s'.layeredEnds = s.layeredEnds ∧
      ((layered .standard {} s).plan?.map Plan.placements).toOption =
        some [⟨"B", ⟨260, 50⟩, ⟨120, 60⟩⟩, ⟨"P", ⟨60, 60⟩, ⟨120, 60⟩⟩] ∧
      (layered .standard {} s').plan?.map Plan.placements =
        (layered .standard {} s).plan?.map Plan.placements := by
  intro free fixed before after r r' s s'
  have hr : r.Closed := by unfold Request.Closed; decide
  have hr' : r'.Closed := by unfold Request.Closed; decide
  have hs : s.Closed := by unfold Request.Closed; decide
  have hs' : s'.Closed := by unfold Request.Closed; decide
  have hlinks : r'.layeredEnds = r.layeredEnds := by decide
  have hnone : s'.layeredEnds = s.layeredEnds := by decide
  exact ⟨hr, hr', hlinks, bystanders_move_nothing .standard {} hr hr' rfl hlinks, hs, hs', hnone,
    by decide +kernel, bystanders_move_nothing .standard {} hs hs' rfl hnone⟩

end Engine

end Flowchart
