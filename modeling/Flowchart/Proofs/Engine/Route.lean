import Flowchart.Layering.Basic
import Flowchart.Proofs.Engine.Ends
import Flowchart.Proofs.Engine.Side
import Flowchart.Proofs.Layout.Clearance

/-!
# Routes Are Attached to Boxes

A route between two boxes tries four ways in order, and only the first three ask
whether there is room for them. The fourth is what is left. That there is room
for it too follows if the boxes do not meet: of the four things that keep two
boxes apart it is then the only one that was not ruled out. So the sides where a
route starts and ends face each other across a strip. The bends are halfway
across, and stay in the strip as long as the coordinate that is halved is not
cut off at infinity.

Nothing is assumed of where the boxes stand. Fixed ones may be anywhere, and free
ones were moved about by the sweep. The boxes that a route is attached to are
those that the plan itself places: an end of a link is found by its place in the
request, and the placement of its id stands at the same place.

## Main definitions

* `Path.Orthogonal`: Four points, each straight below or beside the one before.
* `Path.Joins`: A path leads from one box to another by sides that face each
  other.
* `Path.Loops`: A path leads from the right side of a box back to it.

## Theorems

* `Path.exit_faces`: Between boxes that do not meet there is room for the path.
* `Path.joins_between`, `Path.loops_loop`: What the two kinds of paths do.
* `Layered.routes_spec`: Routes are the paths between the boxes of a plan.
* `routes_attached`: The routes of the engine join the boxes that it places.
-/

namespace Flowchart

namespace Engine

/-- The box of a placement. -/
def Placement.box (p : Placement) : Box := .ofTopLeft p.position p.size

/-- The way that a route takes, without its name. -/
def Route.path (r : Route) : Path := ⟨r.start, r.bends, r.finish⟩

namespace Path

/-- Every point of a path, in order. -/
def points (p : Path) : List Point := p.start :: (p.bends ++ [p.finish])

theorem mem_points_iff {path : Path} {p : Point} :
    p ∈ path.points ↔ p = path.start ∨ p ∈ path.bends ∨ p = path.finish := by
  rw [points, List.mem_cons, List.mem_append, List.mem_singleton]

/-- A path passes what is on the way from one of its points to the next. -/
def Passes (path : Path) (p : Point) : Prop :=
  ∃ leg ∈ path.points.zip path.points.tail, leg.1.Between leg.2 p

/-- A path has four points, and from each to the next it goes straight up or
    down, or straight to a side. -/
structure Orthogonal (path : Path) : Prop where
  length : path.points.length = 4
  straight : path.points.IsChain fun a b => a.x = b.x ∨ a.y = b.y

/-- A path leads from the middle of a side of one box to the middle of the
    opposite side of another. If the boxes are apart, as boxes of finite sizes are
    that do not meet, these sides face each other. Then the path stays in the
    strip between them, and so enters neither box, unless the sum that is halved
    for the bends is cut off at infinity. -/
structure Joins (path : Path) (source target : Box) (side : Side) : Prop where
  start : path.start = source.middle side
  finish : path.finish = target.middle side.opposite
  faces : source.Apart target → side.Before (source.place side) (target.place side.opposite)
  within : source.Apart target →
    (source.place side + target.place side.opposite).isFinite = true →
      ∀ p ∈ path.points, side.Strip source target p
  outside : source.Apart target →
    (source.place side + target.place side.opposite).isFinite = true →
      ∀ p, path.Passes p → ¬source.Holds p ∧ ¬target.Holds p

/-- A path leads from the right side of a box back to it, and turns to the right
    of it. -/
structure Loops (path : Path) (box : Box) : Prop where
  start : path.start.x = box.maxX
  finish : path.finish.x = box.maxX
  bends : ∀ p ∈ path.bends, p.x = box.maxX + loopOffset

/-! ## Between two boxes -/

/-- The side by which a path leaves its source. -/
def exit (source target : Box) : Side :=
  if target.minY ≥ source.maxY then .bottom
  else if target.maxY ≤ source.minY then .top
  else if target.minX ≥ source.maxX then .right
  else .left

/-- The path that leaves in the direction of a side. -/
def through (side : Side) (start finish : Point) : Path :=
  match side with
  | .top => upright start finish
  | .bottom => upright start finish
  | .left => sideways start finish
  | .right => sideways start finish

theorem between_eq (source target : Box) :
    between source target = through (exit source target) (source.middle (exit source target))
      (target.middle (exit source target).opposite) := by
  unfold between exit
  -- The guards of the route are asked in the order in which the side is chosen.
  by_cases hbottom : target.minY ≥ source.maxY
  · simp only [if_pos hbottom]
    rfl
  · by_cases htop : target.maxY ≤ source.minY
    · simp only [if_neg hbottom, if_pos htop]
      rfl
    · by_cases hright : target.minX ≥ source.maxX
      · simp only [if_neg hbottom, if_neg htop, if_pos hright]
        rfl
      · simp only [if_neg hbottom, if_neg htop, if_neg hright]
        rfl

/-- Between boxes that are apart there is room for the path: the side by which it
    leaves does not come after the side where it ends. -/
theorem exit_faces {source target : Box} (h : source.Apart target) :
    (exit source target).Before (source.place (exit source target))
      (target.place (exit source target).opposite) := by
  unfold exit
  by_cases hbottom : target.minY ≥ source.maxY
  · rw [if_pos hbottom]
    exact hbottom
  · rw [if_neg hbottom]
    by_cases htop : target.maxY ≤ source.minY
    · rw [if_pos htop]
      exact htop
    · rw [if_neg htop]
      by_cases hright : target.minX ≥ source.maxX
      · rw [if_pos hright]
        exact hright
      · -- Of the sides with which boxes face each other one is left.
        rw [if_neg hright]
        rcases h.exists_faces with ⟨side, hfaces⟩
        cases side with
        | top => exact absurd hfaces htop
        | bottom => exact absurd hfaces hbottom
        | left => exact hfaces
        | right => exact absurd hfaces hright

section through

variable {side : Side} {start finish p : Point}

theorem start_through : (through side start finish).start = start := by
  cases side <;> rfl

theorem finish_through : (through side start finish).finish = finish := by
  cases side <;> rfl

theorem orthogonal_through : (through side start finish).Orthogonal := by
  have hupright : (upright start finish).Orthogonal :=
    ⟨rfl, .cons_cons (Or.inl rfl)
      (.cons_cons (Or.inr rfl) (.cons_cons (Or.inl rfl) (.singleton _)))⟩
  have hsideways : (sideways start finish).Orthogonal :=
    ⟨rfl, .cons_cons (Or.inr rfl)
      (.cons_cons (Or.inl rfl) (.cons_cons (Or.inr rfl) (.singleton _)))⟩
  cases side with
  | top => exact hupright
  | bottom => exact hupright
  | left => exact hsideways
  | right => exact hsideways

/-- In the direction of its side a path bends halfway. -/
theorem along_of_mem_bends (h : p ∈ (through side start finish).bends) :
    p.along side = (start.along side + finish.along side) / 2 := by
  cases side <;> rcases List.mem_pair.mp h with rfl | rfl <;> rfl

/-- If there is room for a path between two sides it stays in the strip between
    them. -/
theorem strip_of_mem_through {source target : Box}
    (hfaces : side.Before (source.place side) (target.place side.opposite))
    (hsum : (source.place side + target.place side.opposite).isFinite = true)
    (h : p ∈ (through side (source.middle side) (target.middle side.opposite)).points) :
    side.Strip source target p := by
  rcases mem_points_iff.mp h with hp | hp | hp
  · rw [hp, start_through]
    exact ⟨by rw [Box.along_middle]; exact hfaces.refl.1, by rw [Box.along_middle]; exact hfaces⟩
  · -- Bends lie halfway between the two sides.
    have hmiddle := along_of_mem_bends hp
    rw [Box.along_middle, Box.along_middle_opposite] at hmiddle
    rcases hfaces.middle hsum with ⟨hpast, hshort⟩
    exact ⟨by rw [hmiddle]; exact hpast, by rw [hmiddle]; exact hshort⟩
  · rw [hp, finish_through]
    exact ⟨by rw [Box.along_middle_opposite]; exact hfaces,
      by rw [Box.along_middle_opposite]; exact hfaces.refl.2⟩

end through

/-- What a path whose points are in a strip passes is in the strip. -/
theorem Passes.strip {side : Side} {source target : Box} {path : Path}
    (hpoints : ∀ p ∈ path.points, side.Strip source target p) {p : Point} (h : path.Passes p) :
    side.Strip source target p := by
  rcases h with ⟨⟨a, b⟩, hleg, hbetween⟩
  rcases List.of_mem_zip hleg with ⟨ha, hb⟩
  exact (hpoints a ha).of_between (hpoints b (List.mem_of_mem_tail hb)) hbetween

/-- The path from one box to another joins them. -/
theorem joins_between (source target : Box) :
    (between source target).Joins source target (exit source target) := by
  have hstrip : source.Apart target → (source.place (exit source target) +
      target.place (exit source target).opposite).isFinite = true →
        ∀ p ∈ (between source target).points, (exit source target).Strip source target p := by
    intro hapart hsum p hp
    rw [between_eq] at hp
    exact strip_of_mem_through (exit_faces hapart) hsum hp
  refine ⟨?_, ?_, exit_faces, hstrip, ?_⟩
  · rw [between_eq, start_through]
  · rw [between_eq, finish_through]
  · exact fun hapart hsum p hp => (Passes.strip (hstrip hapart hsum) hp).not_holds

/-! ## From a box to itself -/

theorem orthogonal_loop (box : Box) : (loop box).Orthogonal :=
  ⟨rfl, .cons_cons (Or.inr rfl) (.cons_cons (Or.inl rfl) (.cons_cons (Or.inr rfl) (.singleton _)))⟩

/-- The path from a box to itself loops. -/
theorem loops_loop (box : Box) : (loop box).Loops box := by
  refine ⟨rfl, rfl, fun p hp => ?_⟩
  rcases List.mem_pair.mp hp with rfl | rfl
  · rfl
  · rfl

end Path

/-! ## The routes of a plan -/

namespace Layered

variable {layering : Layering} {options : Options} {r : Request} {plan : Plan}

/-- Routes are the paths between the boxes that a plan places for the ends of its
    links. -/
theorem routes_spec (h : Layered.plan layering options r = .ok plan) :
    List.Forall₂ (fun link route => ∃ s t, plan.placement? link.source = some s ∧
      plan.placement? link.target = some t ∧ route.id = link.id ∧
      route.path = Path.ofBoxes options.simplifyBends (decide (link.source = link.target))
        s.box t.box) r.links plan.routes := by
  rcases plan_eq_ok h with ⟨links, slots, ps, hlinks, hps, hplacements, hroutes⟩
  have hids : plan.placements.map Placement.id = r.items.map Item.id := by
    rw [hplacements, List.map_map]
    exact Row.map_zip_of_fst (length_positions hps) _ _ fun _ => rfl
  have hboxes : boxes r ps = plan.placements.map Placement.box := by
    rw [hplacements, List.map_map]
    rfl
  rw [hroutes]
  refine Row.forall₂_map_zip (Request.ends?_eq_ok_iff.mp hlinks) ?_
  rintro link ⟨i, j⟩ ⟨hi, hj⟩
  rcases Plan.placement?_of_place? hids hi with ⟨s, hs, hsource⟩
  rcases Plan.placement?_of_place? hids hj with ⟨t, ht, htarget⟩
  -- The boxes that are routed between are those of the placements, place by place.
  have hboxAt : ∀ {k : Nat} {placement : Placement}, plan.placements[k]? = some placement →
      (boxes r ps).getD k ⟨0, 0, 0, 0⟩ = placement.box := by
    intro k placement hk
    rw [hboxes, List.getD_eq_getElem?_getD, List.getElem?_map, hk]
    rfl
  -- Two ends have one place exactly if they have one id.
  have hloop : (i == j) = decide (link.source = link.target) :=
    decide_eq_decide.mpr (Request.place?_inj hi hj)
  refine ⟨s, t, hs, ht, rfl, ?_⟩
  change Path.ofBoxes options.simplifyBends (i == j) ((boxes r ps).getD i ⟨0, 0, 0, 0⟩)
    ((boxes r ps).getD j ⟨0, 0, 0, 0⟩) = _
  rw [hboxAt hsource, hboxAt htarget, hloop]

end Layered

/-- The routes of the layered engine, if bends are not simplified, correspond to
    the links in their order and are called the same. A route has four points,
    one straight from the next. It is attached to the placed boxes of the ends of
    its link: between two boxes it joins them, and from a box to itself it
    loops. -/
theorem routes_attached (layering : Layering) (options : Options) (r : Request) (plan : Plan)
    (hplain : options.simplifyBends = false) (hplan : layered layering options r = .planned plan) :
    List.Forall₂ (fun link route => route.id = link.id ∧ route.path.Orthogonal ∧
      ∃ s t, plan.placement? link.source = some s ∧ plan.placement? link.target = some t ∧
        (link.source ≠ link.target → ∃ side, route.path.Joins s.box t.box side) ∧
        (link.source = link.target → route.path.Loops s.box)) r.links plan.routes := by
  rw [layered_eq_planned_iff] at hplan
  refine (Layered.routes_spec hplan).imp ?_
  rintro link route ⟨s, t, hs, ht, hid, hpath⟩
  -- Without simplification the route is the bare loop or the bare path between the boxes.
  rw [hplain, Path.ofBoxes, if_neg Bool.false_ne_true, if_congr decide_eq_true_iff rfl rfl] at hpath
  refine ⟨hid, ?_, s, t, hs, ht, fun hne => ?_, fun heq => ?_⟩
  · rw [hpath]
    split
    · exact Path.orthogonal_loop s.box
    · rw [Path.between_eq]
      exact Path.orthogonal_through
  · rw [hpath, if_neg hne]
    exact ⟨_, Path.joins_between s.box t.box⟩
  · rw [hpath, if_pos heq]
    exact Path.loops_loop s.box

/-- Two fixed boxes stand side by side, and the route from the right one to the
    left one goes the way that no guard asks for. Another box has the id of one of
    them, but not its place. -/
theorem routes_attached_leftwards :
    let box (id : String) (fixed : Option Point) : Item := ⟨id, id, ⟨120, 60⟩, fixed⟩
    let r : Request := ⟨[box "P" (some ⟨0, 500⟩), box "P" (some ⟨0, 0⟩), box "Q" (some ⟨300, 20⟩),
      box "F" none], [⟨"e0", "Q", "P", none⟩, ⟨"e1", "F", "Q", none⟩, ⟨"e2", "P", "P", none⟩]⟩
    let p : Box := .ofTopLeft ⟨0, 0⟩ ⟨120, 60⟩
    let q : Box := .ofTopLeft ⟨300, 20⟩ ⟨120, 60⟩
    ({} : Options).simplifyBends = false ∧ q.Apart p ∧
      ∃ plan, layered .standard {} r = .planned plan ∧
      ∃ e₀ e₁ e₂, plan.routes = [e₀, e₁, e₂] ∧ e₀.id = "e0" ∧ e₀.path.Orthogonal ∧
        (∃ side, (∀ c ∈ e₀.path.points, Side.Strip side q p c) ∧
          ∀ c, e₀.path.Passes c → ¬q.Holds c ∧ ¬p.Holds c) ∧ e₂.path.Loops p := by
  intro box r p q
  let plan : Plan :=
    ⟨[⟨"P", ⟨0, 500⟩, ⟨120, 60⟩⟩, ⟨"P", ⟨0, 0⟩, ⟨120, 60⟩⟩, ⟨"Q", ⟨300, 20⟩, ⟨120, 60⟩⟩,
      ⟨"F", ⟨500, 50⟩, ⟨120, 60⟩⟩],
      [⟨"e0", ⟨300, 50⟩, [⟨210, 50⟩, ⟨210, 30⟩], ⟨120, 30⟩⟩,
        ⟨"e1", ⟨500, 80⟩, [⟨460, 80⟩, ⟨460, 50⟩], ⟨420, 50⟩⟩,
        ⟨"e2", ⟨120, 15⟩, [⟨150, 15⟩, ⟨150, 45⟩], ⟨120, 45⟩⟩], ⟨670, 610⟩⟩
  have hplan : layered .standard {} r = .planned plan := by decide +kernel
  have hp : plan.placement? "P" = some ⟨"P", ⟨0, 0⟩, ⟨120, 60⟩⟩ := by decide +kernel
  have hq : plan.placement? "Q" = some ⟨"Q", ⟨300, 20⟩, ⟨120, 60⟩⟩ := by decide +kernel
  -- The sizes make both boxes definite, and they do not overlap.
  have hapart : q.Apart p :=
    ⟨Box.definite_of_size (by decide +kernel) (by decide +kernel),
      Box.definite_of_size (by decide +kernel) (by decide +kernel), by decide +kernel⟩
  have hsum : ∀ side : Side, (q.place side + p.place side.opposite).isFinite = true := by
    intro side
    cases side <;> decide +kernel
  rcases routes_attached .standard {} r plan rfl hplan with _ | ⟨h₀, _ | ⟨_, _ | ⟨h₂, _⟩⟩⟩
  rcases h₀ with ⟨hid, horthogonal, s, t, hs, ht, hjoins, _⟩
  rcases h₂ with ⟨_, _, s', _, hs', _, _, hloops⟩
  rcases hjoins (by decide) with ⟨side, hside⟩
  rw [← Option.some.inj (hq.symm.trans hs), ← Option.some.inj (hp.symm.trans ht)] at hside
  rw [← Option.some.inj (hp.symm.trans hs')] at hloops
  exact ⟨rfl, hapart, plan, hplan, _, _, _, rfl, hid, horthogonal,
    ⟨side, hside.within hapart (hsum side), hside.outside hapart (hsum side)⟩, hloops rfl⟩

end Engine

end Flowchart
