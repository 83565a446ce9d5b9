import Flowchart.Proofs.Engine.Fixed
import Flowchart.Proofs.Engine.Route
import Flowchart.Proofs.Graph.Json
import Flowchart.Proofs.Layout.Matching
import Flowchart.Proofs.Layout.Planned
import Flowchart.Proofs.Single.Monotone

/-!
# A Drawing Is As Large As What It Shows

The size of a drawing is measured twice. The engine folds all its boxes into one,
with a box of no size for every point of a route, and takes the far corner. When
the plan is applied, the drawing is made larger for every pinned node, since a
pinned node does not take its place from the plan. By then the engine has
already measured that node: it answers with the corner at which the box was
fixed and with the size that was asked for, and that is how the node is drawn.
So the second measurement never finds anything.

What is added to a point to make a box of it is zero, and zero adds nothing but
the sign of a zero. So numbers are compared here as floats compare, and not bit
by bit. Of addition nothing is used but that it keeps the order.

## Main definitions

* `Axis`: Across or down.
* `Graph.reach`: How far boxes and points of a graph reach along an axis.
* `Tight`: A bound leaves as much room as is needed, and no more.
* `Plan.ShownBy`: A drawing shows what is in a plan.

## Theorems

* `Layered.extent_spec`: The size that the engine measures.
* `Layered.exists_node_of_mem`: A plan repeats the sizes of nodes and the corners
  of pinned ones.
* `Layered.mem_boxes_iff`: The boxes of nodes are those of the plan.
* `Layered.shownBy`: A plan of the layered engine is shown as it is.
* `Layered.tight_of_shownBy`: No room is needed for pinned nodes.
* `layered_bounds_tight`: A drawing is as large as what it shows.
-/

namespace Flowchart

/-! ## Axes -/

/-- An axis of the plane, in the direction of which a drawing extends. -/
inductive Axis where
  | across
  | down
deriving DecidableEq, Repr

/-- The side of a box that is farthest along an axis. -/
def Axis.side : Axis → Side
  | across => .right
  | down => .bottom

/-- How far a box reaches along an axis. -/
def Box.far (axis : Axis) (b : Box) : Float32 := b.place axis.side

/-- How long a size is along an axis. -/
def Size.along (s : Size) : Axis → Float32
  | .across => s.width
  | .down => s.height

theorem Box.far_ofTopLeft (corner : Point) (size : Size) (axis : Axis) :
    (Box.ofTopLeft corner size).far axis = corner.along axis.side + size.along axis := by
  cases axis <;> rfl

/-- A box around boxes reaches as far as the one that reaches farthest. -/
theorem Box.far_foldl_join (b : Box) (bs : List Box) (axis : Axis) :
    (bs.foldl Box.join b).far axis = (bs.map (Box.far axis)).foldl Single.max (b.far axis) := by
  induction bs generalizing b with
  | nil => rfl
  | cons c bs ih =>
      rw [List.foldl_cons, List.map_cons, List.foldl_cons, ih]
      cases axis <;> rfl

/-- A sheet that was made large enough for some boxes, along an axis. -/
theorem Size.along_foldl_growTo (size : Size) (bs : List Box) (padding : Float32) (axis : Axis) :
    (bs.foldl (fun size box => size.growTo box padding) size).along axis =
      (bs.map fun b => b.far axis + padding).foldl Single.max (size.along axis) := by
  induction bs generalizing size with
  | nil => rfl
  | cons b bs ih =>
      rw [List.foldl_cons, List.map_cons, List.foldl_cons, ih]
      cases axis <;> rfl

theorem Size.eq_of_along {s t : Size} (h : ∀ axis, s.along axis = t.along axis) : s = t := by
  rcases s with ⟨width, height⟩
  rcases t with ⟨width', height'⟩
  have hwidth : width = width' := h .across
  have hheight : height = height' := h .down
  rw [hwidth, hheight]

namespace Graph

/-- The boxes of the nodes that were placed. -/
def boxes (g : Graph) : List Box := g.nodes.filterMap Node.box?

/-- The points of the edges that were routed. -/
def points (g : Graph) : List Point := g.edges.flatMap fun e => e.points.getD []

/-- How far a graph reaches along an axis, with its boxes and with its points. -/
def reach (g : Graph) (axis : Axis) : List Float32 :=
  g.boxes.map (Box.far axis) ++ g.points.map (·.along axis.side)

variable {g : Graph} (hfinite : ∀ c ∈ g.coordinates, c.isFinite = true)

include hfinite

theorem isNaN_far_of_mem {b : Box} (hb : b ∈ g.boxes) (axis : Axis) :
    (b.far axis).isNaN = false := by
  rcases List.mem_filterMap.mp hb with ⟨n, hn, hbox⟩
  have hin : ∀ c ∈ n.coordinates, c.isFinite = true := fun c hc =>
    hfinite c (List.mem_append_left _ (List.mem_flatMap.mpr ⟨n, hn, hc⟩))
  unfold Node.box? at hbox
  -- Only a node with a place and a size has a box, and both are among the coordinates.
  cases hposition : n.position with
  | none => simp only [hposition, reduceCtorEq] at hbox
  | some position =>
      cases hsize : n.size with
      | none => simp only [hposition, hsize, reduceCtorEq] at hbox
      | some size =>
          simp only [hposition, hsize, Option.some.injEq] at hbox
          rw [← hbox, Box.far_ofTopLeft]
          simp only [Node.coordinates, hposition, hsize, Option.toList_some, Point.singles,
            Size.singles, List.flatMap_cons, List.flatMap_nil, List.append_nil, List.cons_append,
            List.nil_append, List.forall_mem_cons, List.not_mem_nil, false_implies,
            implies_true, and_true] at hin
          rcases hin with ⟨hx, hy, hwidth, hheight⟩
          cases axis with
          | across => exact (Single.units_add hx hwidth).1
          | down => exact (Single.units_add hy hheight).1

theorem isFinite_along_of_mem {p : Point} (hp : p ∈ g.points) (axis : Axis) :
    (p.along axis.side).isFinite = true := by
  rcases List.mem_flatMap.mp hp with ⟨e, he, hp⟩
  refine hfinite _ (List.mem_append_right _ (List.mem_flatMap.mpr ⟨e, he, ?_⟩))
  -- Points are those of a routed edge, and they are among the coordinates.
  cases hpoints : e.points with
  | none =>
      rw [hpoints] at hp
      exact absurd hp List.not_mem_nil
  | some ps =>
      rw [hpoints] at hp
      rw [Edge.singles, hpoints, Option.toList_some, List.flatMap_singleton]
      refine List.mem_flatMap.mpr ⟨p, hp, ?_⟩
      cases axis with
      | across => exact List.mem_cons_self
      | down => exact List.mem_cons_of_mem _ List.mem_cons_self

end Graph

/-- A bound leaves room for numbers and padding, and no more than one of them
    needs. -/
structure Tight (bound padding : Float32) (xs : List Float32) : Prop where
  room : ∀ x ∈ xs, x + padding ≤ bound
  needed : ∃ x ∈ xs, (bound == x + padding) = true

/-- To be tight is a matter of what numbers are, and not of how zeros are signed. -/
theorem Tight.of_beq {padding : Float32} (hpadding : padding.isFinite = true)
    {xs ys : List Float32} (hxs : ∀ x ∈ xs, ∃ y ∈ ys, (x == y) = true)
    (hys : ∀ y ∈ ys, ∃ x ∈ xs, (x == y) = true) {y : Float32} (hy : y ∈ ys)
    (hmost : ∀ z ∈ ys, z ≤ y) : Tight (y + padding) padding xs := by
  refine ⟨fun x hx => ?_, ?_⟩
  · rcases hxs x hx with ⟨z, hz, heq⟩
    exact Single.add_le_add_of_isFinite
      (Single.le_trans (Single.le_of_beq heq).1 (hmost z hz)) hpadding
  · rcases hys y hy with ⟨x, hx, heq⟩
    rcases Single.le_of_beq heq with ⟨hxy, hyx⟩
    exact ⟨x, hx, Single.beq_of_le (Single.add_le_add_of_isFinite hyx hpadding)
      (Single.add_le_add_of_isFinite hxy hpadding)⟩

namespace Engine

namespace Plan

/-- A drawing shows the boxes and the routes of a plan, and nothing else. Its
    sheet is that of the plan, but may have been made large enough for some of the
    boxes. -/
structure ShownBy (p : Plan) (d : Drawing) (padding : Float32) : Prop where
  placed : ∀ n ∈ d.graph.nodes, n.box?.isSome = true
  boxes : ∀ b, b ∈ d.graph.boxes ↔ b ∈ p.placements.map Placement.box
  routed : ∀ e ∈ d.graph.edges, e.points.isSome = true
  points : ∀ c, c ∈ d.graph.points ↔ c ∈ p.routes.flatMap Route.points
  bounds : ∃ bs : List Box, (∀ b ∈ bs, b ∈ p.placements.map Placement.box) ∧
    d.bounds = bs.foldl (fun size box => size.growTo box padding) p.size

end Plan

/-! ## What an engine measures -/

namespace Layered

/-- What the size of a drawing is measured from. -/
def measured (boxes : List Box) (routes : List Route) : List Box :=
  boxes ++ (routes.flatMap Route.points).map pointBox

theorem extent_along {boxes : List Box} {routes : List Route} (padding : Float32) (axis : Axis)
    {b : Box} {bs : List Box} (hall : measured boxes routes = b :: bs) :
    (extent boxes routes padding).along axis =
      (bs.map (Box.far axis)).foldl Single.max (b.far axis) + padding := by
  rw [measured] at hall
  rw [extent, hall, ← Box.far_foldl_join]
  cases axis <;> rfl

/-- The size is that of the farthest of what is measured, with padding. -/
theorem extent_spec {boxes : List Box} {routes : List Route} (padding : Float32) (axis : Axis)
    (hne : boxes ≠ []) (hnan : ∀ b ∈ measured boxes routes, (b.far axis).isNaN = false) :
    ∃ b ∈ measured boxes routes,
      (extent boxes routes padding).along axis = b.far axis + padding ∧
        ∀ c ∈ measured boxes routes, c.far axis ≤ b.far axis := by
  cases hall : measured boxes routes with
  | nil => exact absurd (List.append_eq_nil_iff.mp hall).1 hne
  | cons b bs =>
      rw [hall] at hnan
      rcases List.forall_mem_cons.mp hnan with ⟨hb, hbs⟩
      -- The maximum belongs to one of the boxes.
      have hmem := Single.foldl_max_mem (b.far axis) (bs.map (Box.far axis))
      rw [← List.map_cons] at hmem
      rcases List.mem_map.mp hmem with ⟨c, hc, hfar⟩
      rcases Single.foldl_max_spec hb (bs.map (Box.far axis)) with ⟨hmax, hfirst, hrest⟩
      refine ⟨c, hc, ?_, ?_⟩
      · rw [hfar, extent_along padding axis hall]
      · rw [hfar]
        refine List.forall_mem_cons.mpr ⟨(Single.le_iff _ _).mpr ⟨hb, hmax, hfirst⟩, fun x hx => ?_⟩
        exact (Single.le_iff _ _).mpr
          ⟨hbs x hx, hmax, hrest _ (List.mem_map_of_mem hx) (hbs x hx)⟩

variable {layering : Layering} {options : Options} {g : Graph} {plan : Plan} {d : Drawing}

/-! ## What is drawn is what was measured -/

/-- A plan names every node and every edge of its graph, in their order. -/
theorem map_id_plan (hplan : Layered.plan layering options (.ofGraph g) = .ok plan) :
    plan.placements.map Placement.id = g.nodes.map Node.id ∧
      plan.routes.map Route.id = (List.range g.edges.length).map edgeName := by
  rcases plan_eq_ok hplan with ⟨links, slots, ps, hends, hps, hplacements, hroutes⟩
  have hlength : links.length = (Request.ofGraph g).links.length :=
    (Request.ends?_eq_ok_iff.mp hends).length_eq.symm
  refine ⟨?_, ?_⟩
  · rw [hplacements, List.map_map, ← Request.map_id_items]
    exact Row.map_zip_of_fst (length_positions hps) _ _ fun _ => rfl
  · have hlinks : (Request.ofGraph g).links.map Link.id =
        (g.edges.zipIdx.map Prod.snd).map edgeName := by
      rw [Request.ofGraph, List.map_map, List.map_map]
      rfl
    rw [hroutes, map_id_routes _ hlength, hlinks, List.zipIdx_map_snd, ← List.range_eq_range']

/-- So it answers for a graph with distinct ids. -/
theorem answers_of_plan (hnodup : (g.nodes.map Node.id).Nodup)
    (hplan : Layered.plan layering options (.ofGraph g) = .ok plan) : plan.Answers g := by
  rcases map_id_plan hplan with ⟨hids, hnames⟩
  refine ⟨fun n hn => ?_, fun place _ => ?_⟩
  · rw [hids]
    exact List.count_eq_one_of_mem hnodup (List.mem_map_of_mem hn)
  · rw [hnames]
    exact List.nodup_iff_count_le_one.mp (List.nodup_range.map edgeName_injective) _

/-- A placement repeats the size of a node, and its corner if the node is pinned. -/
theorem exists_node_of_mem (hplan : Layered.plan layering options (.ofGraph g) = .ok plan)
    {q : Placement} (hq : q ∈ plan.placements) :
    ∃ n ∈ g.nodes, q.id = n.id ∧ q.size = n.effectiveSize ∧
      ∀ corner, n.pinnedPosition = some corner → q.position = corner := by
  rcases plan_eq_ok_iff.mp hplan with ⟨links, slots, ps, _, hslots, hps, rfl⟩
  rcases List.mem_map.mp hq with ⟨⟨item, position⟩, hzip, rfl⟩
  rcases List.mem_iff_getElem?.mp hzip with ⟨i, hi⟩
  rcases List.getElem?_zip_eq_some.mp hi with ⟨hitem, hposition⟩
  rcases List.mem_map.mp (List.mem_of_getElem? hitem) with ⟨n, hn, rfl⟩
  -- What was placed there is what the sweep left there, and it has no slot to be moved by.
  refine ⟨n, hn, rfl, rfl, fun corner hcorner => ?_⟩
  have hfixed := positions_of_fixed (Slots.free_ofRequest hslots) hps hitem hcorner
  exact Option.some.inj (hposition.symm.trans hfixed)

/-- The placement of a node is the box that it is drawn as, also if the node is
    pinned and the drawing has to make room for it. -/
theorem box_node (hnodup : (g.nodes.map Node.id).Nodup)
    (hplan : Layered.plan layering options (.ofGraph g) = .ok plan) {n : Node} (hn : n ∈ g.nodes)
    {q : Placement} (hq : q ∈ plan.placements) (hid : q.id = n.id) :
    (Plan.node n q).1.box? = some q.box ∧ ∀ b, (Plan.node n q).2 = some b → b = q.box := by
  rcases exists_node_of_mem hplan hq with ⟨m, hm, hmid, hsize, hcorner⟩
  rw [hid] at hmid
  -- Ids are distinct, so the node that the placement repeats is this one.
  rw [List.inj_on_of_nodup_map hnodup hm hn hmid.symm] at hsize hcorner
  cases hpin : n.pinnedPosition with
  | none =>
      rw [Plan.node, hpin]
      exact ⟨rfl, fun b hb => by cases hb⟩
  | some corner =>
      rw [Plan.node, hpin]
      dsimp only
      rw [hsize, n.getD_effectiveSize, Node.box?_placed, Placement.box, hsize, hcorner corner hpin]
      exact ⟨rfl, fun b hb => (Option.some.inj hb).symm⟩

/-- Every node is drawn in the box of its placement. -/
theorem forall₂_drawn (hnodup : (g.nodes.map Node.id).Nodup)
    (hplan : Layered.plan layering options (.ofGraph g) = .ok plan)
    {placed : List (Node × Option Box)} (hplaced : plan.nodes g.nodes = .ok placed) :
    List.Forall₂ (fun n p => ∃ q ∈ plan.placements, plan.placement? n.id = some q ∧
      p.1.box? = some q.box ∧ ∀ b, p.2 = some b → b = q.box) g.nodes placed := by
  refine ((List.forall₂_and_left _ _).mpr
    ⟨fun n hn => hn, (plan.nodes_eq_ok_iff _ _).mp hplaced⟩).imp ?_
  rintro n _ ⟨hn, q, hq, rfl⟩
  have hmem := List.mem_reverse.mp (List.mem_of_find?_eq_some hq)
  have hid := List.find?_some hq
  rw [beq_iff_eq] at hid
  exact ⟨q, hmem, hq, box_node hnodup hplan hn hmem hid⟩

/-- No other box is drawn, and none is missing. -/
theorem mem_boxes_iff (hnodup : (g.nodes.map Node.id).Nodup)
    (hplan : Layered.plan layering options (.ofGraph g) = .ok plan)
    {placed : List (Node × Option Box)} (hplaced : plan.nodes g.nodes = .ok placed) (b : Box) :
    b ∈ (placed.map Prod.fst).filterMap Node.box? ↔ b ∈ plan.placements.map Placement.box := by
  have hrow := forall₂_drawn hnodup hplan hplaced
  rw [List.mem_filterMap, List.mem_map]
  constructor
  · rintro ⟨n, hn, hb⟩
    rcases List.mem_map.mp hn with ⟨p, hp, rfl⟩
    rcases Row.exists_left_of_mem hrow hp with ⟨_, _, q, hq, _, hbox, _⟩
    exact ⟨q, hq, Option.some.inj (hbox.symm.trans hb)⟩
  · rintro ⟨q, hq, rfl⟩
    rcases exists_node_of_mem hplan hq with ⟨n, hn, hid, _⟩
    rcases Row.exists_right_of_mem hrow hn with ⟨p, hp, q', _, hq', hbox, _⟩
    -- Every placement repeats a node, and that node has no other.
    have hown := Plan.placement?_of_mem (answers_of_plan hnodup hplan) hn hq hid
    rw [Option.some.inj (hq'.symm.trans hown)] at hbox
    exact ⟨p.1, List.mem_map_of_mem hp, hbox⟩

/-- An edge has the points of the route with its name. -/
theorem points_edge (hnodup : (g.nodes.map Node.id).Nodup)
    (hplan : Layered.plan layering options (.ofGraph g) = .ok plan) (e : Edge) {place : Nat}
    (hplace : place < g.edges.length) {route : Route} (hroute : route ∈ plan.routes)
    (hid : route.id = edgeName place) : (plan.edge e place).points = some route.points := by
  rw [Plan.edge, Plan.route?_of_mem (answers_of_plan hnodup hplan) hplace hroute hid]
  rfl

/-- There is such a route for every edge. -/
theorem exists_route (hplan : Layered.plan layering options (.ofGraph g) = .ok plan) {place : Nat}
    (hplace : place < g.edges.length) : ∃ route ∈ plan.routes, route.id = edgeName place := by
  have hname : edgeName place ∈ plan.routes.map Route.id := by
    rw [(map_id_plan hplan).2]
    exact List.mem_map_of_mem (List.mem_range.mpr hplace)
  exact List.mem_map.mp hname

/-- A plan of the layered engine is shown as it is. -/
theorem shownBy (hnodup : (g.nodes.map Node.id).Nodup)
    (hplan : Layered.plan layering options (.ofGraph g) = .ok plan) {padding : Float32}
    (happly : plan.apply g padding = .ok d) : plan.ShownBy d padding := by
  rcases Row.bind_eq_ok_iff.mp happly with ⟨placed, hplaced, hd⟩
  have hrow := forall₂_drawn hnodup hplan hplaced
  -- Every edge is drawn with the points of the route that is named for it.
  have hedge : ∀ {e place}, (e, place) ∈ g.edges.zipIdx → ∃ route ∈ plan.routes,
      (plan.edge e place).points = some route.points := by
    intro e place he
    have hplace := (List.getElem?_eq_some_iff.mp (List.mem_zipIdx_iff_getElem?.mp he)).1
    rcases exists_route hplan hplace with ⟨route, hroute, hid⟩
    exact ⟨route, hroute, points_edge hnodup hplan e hplace hroute hid⟩
  rw [← Except.ok.inj hd]
  refine ⟨fun n hn => ?_, mem_boxes_iff hnodup hplan hplaced, fun e he => ?_, fun c => ?_,
    placed.filterMap Prod.snd, fun b hb => ?_, rfl⟩
  · rcases List.mem_map.mp hn with ⟨p, hp, rfl⟩
    rcases Row.exists_left_of_mem hrow hp with ⟨_, _, _, _, _, hbox, _⟩
    rw [hbox]
    rfl
  · rcases List.mem_map.mp he with ⟨⟨e, place⟩, hin, rfl⟩
    rcases hedge hin with ⟨_, _, hpoints⟩
    dsimp only
    rw [hpoints]
    rfl
  · rw [Graph.points, List.mem_flatMap, List.mem_flatMap]
    constructor
    · rintro ⟨_, hin, hc⟩
      rcases List.mem_map.mp hin with ⟨⟨e, place⟩, he, rfl⟩
      dsimp only at hc
      rcases hedge he with ⟨route, hroute, hpoints⟩
      rw [hpoints] at hc
      exact ⟨route, hroute, hc⟩
    · rintro ⟨route, hroute, hc⟩
      -- The route is named for an edge, and that edge has its points.
      have hid := List.mem_map_of_mem (f := Route.id) hroute
      rw [(map_id_plan hplan).2] at hid
      rcases List.mem_map.mp hid with ⟨place, hplace, hid⟩
      rw [List.mem_range] at hplace
      have hin : (g.edges[place], place) ∈ g.edges.zipIdx :=
        List.mem_zipIdx_iff_getElem?.mpr (List.getElem?_eq_getElem hplace)
      refine ⟨_, List.mem_map_of_mem hin, ?_⟩
      dsimp only
      rw [points_edge hnodup hplan _ hplace hroute hid.symm]
      exact hc
  · rcases List.mem_filterMap.mp hb with ⟨p, hp, hb⟩
    rcases Row.exists_left_of_mem hrow hp with ⟨_, _, q, hq, _, _, hroom⟩
    rw [hroom b hb]
    exact List.mem_map_of_mem hq

/-- The size of a plan is measured from what it places and routes. -/
theorem size_of_plan {r : Request} (hplan : Layered.plan layering options r = .ok plan) :
    plan.size = extent (plan.placements.map Placement.box) plan.routes options.padding := by
  rcases plan_eq_ok_iff.mp hplan with ⟨links, slots, ps, _, _, _, rfl⟩
  dsimp only
  rw [List.map_map]
  rfl

/-- A drawing reaches as far as what its plan was measured from. -/
theorem reach_beq {padding : Float32} (hshown : plan.ShownBy d padding)
    (hfinite : ∀ c ∈ d.graph.coordinates, c.isFinite = true) (axis : Axis) :
    (∀ x ∈ d.graph.reach axis,
      ∃ b ∈ measured (plan.placements.map Placement.box) plan.routes, (x == b.far axis) = true) ∧
    ∀ b ∈ measured (plan.placements.map Placement.box) plan.routes,
      ∃ x ∈ d.graph.reach axis, (x == b.far axis) = true := by
  have hbox : ∀ b ∈ d.graph.boxes, (b.far axis == b.far axis) = true := fun b hb =>
    (Single.beq_iff _ _).mpr
      ⟨Graph.isNaN_far_of_mem hfinite hb axis, Graph.isNaN_far_of_mem hfinite hb axis, rfl⟩
  have hpoint : ∀ p ∈ d.graph.points, (p.along axis.side == (pointBox p).far axis) = true := by
    intro p hp
    -- The box of a point has no size, and its far side is the point with zero added.
    have hzero : (pointBox p).far axis = p.along axis.side + 0 := by
      rw [pointBox, Box.far_ofTopLeft]
      cases axis <;> rfl
    rcases Single.le_of_beq (Single.add_zero_beq (Graph.isFinite_along_of_mem hfinite hp axis)) with
      ⟨hle, hge⟩
    rw [hzero]
    exact Single.beq_of_le hge hle
  -- Both directions go box by box and point by point.
  constructor
  · intro x hx
    rcases List.mem_append.mp hx with hx | hx
    · rcases List.mem_map.mp hx with ⟨b, hb, rfl⟩
      exact ⟨b, List.mem_append_left _ ((hshown.boxes b).mp hb), hbox b hb⟩
    · rcases List.mem_map.mp hx with ⟨p, hp, rfl⟩
      exact ⟨pointBox p, List.mem_append_right _
        (List.mem_map_of_mem ((hshown.points p).mp hp)), hpoint p hp⟩
  · intro b hb
    rcases List.mem_append.mp hb with hb | hb
    · have hb := (hshown.boxes b).mpr hb
      exact ⟨_, List.mem_append_left _ (List.mem_map_of_mem hb), hbox b hb⟩
    · rcases List.mem_map.mp hb with ⟨p, hp, rfl⟩
      have hp := (hshown.points p).mpr hp
      exact ⟨_, List.mem_append_right _ (List.mem_map_of_mem hp), hpoint p hp⟩

/-- A plan is as large as what it shows, and so is the drawing, which needs no
    more room for its pinned nodes. -/
theorem tight_of_shownBy (hplan : Layered.plan layering options (.ofGraph g) = .ok plan)
    (hne : plan.placements ≠ []) (hpadding : options.padding.isFinite = true)
    (hshown : plan.ShownBy d options.padding)
    (hfinite : ∀ c ∈ d.graph.coordinates, c.isFinite = true) :
    d.bounds = plan.size ∧
      ∀ axis, Tight (d.bounds.along axis) options.padding (d.graph.reach axis) := by
  -- The size was measured from the boxes and points that are shown, along each axis.
  have hspec : ∀ axis, ∃ b ∈ measured (plan.placements.map Placement.box) plan.routes,
      plan.size.along axis = b.far axis + options.padding ∧
        ∀ c ∈ measured (plan.placements.map Placement.box) plan.routes,
          c.far axis ≤ b.far axis := by
    intro axis
    rw [size_of_plan hplan]
    refine extent_spec options.padding axis (by rw [Ne, List.map_eq_nil_iff]; exact hne)
      fun b hb => ?_
    rcases (reach_beq hshown hfinite axis).2 b hb with ⟨x, _, heq⟩
    exact ((Single.beq_iff _ _).mp heq).2.1
  have hbounds : d.bounds = plan.size := by
    rcases hshown.bounds with ⟨bs, hbs, hgrown⟩
    refine Size.eq_of_along fun axis => ?_
    rcases hspec axis with ⟨b, _, hsize, hmost⟩
    rw [hgrown, Size.along_foldl_growTo]
    -- What a pinned node needs is no more than what was measured.
    have hroom : ∀ c ∈ bs, c.far axis + options.padding ≤ plan.size.along axis := by
      intro c hc
      rw [hsize]
      exact Single.add_le_add_of_isFinite (hmost c (List.mem_append_left _ (hbs c hc))) hpadding
    cases bs with
    | nil => rfl
    | cons c cs =>
        refine Single.foldl_max_eq_self ?_ (List.forall_mem_map.mpr fun c hc => ?_)
        · exact ((Single.le_iff _ _).mp (hroom c List.mem_cons_self)).2.1
        · exact Single.not_lt_of_le (hroom c hc)
  refine ⟨hbounds, fun axis => ?_⟩
  rcases hspec axis with ⟨b, hb, hsize, hmost⟩
  rcases reach_beq hshown hfinite axis with ⟨hreach, hmeasured⟩
  rw [hbounds, hsize]
  refine Tight.of_beq hpadding (fun x hx => ?_) (List.forall_mem_map.mpr hmeasured)
    (List.mem_map_of_mem hb) (List.forall_mem_map.mpr hmost)
  rcases hreach x hx with ⟨c, hc, heq⟩
  exact ⟨_, List.mem_map_of_mem hc, heq⟩

end Layered

end Engine

/-- A drawing by the layered engine is as large as what it shows, with padding: no
    node and no point of an edge needs more, and one of them needs as much. It is
    just as large as the engine said, whatever is pinned, and wherever. -/
theorem layered_bounds_tight (layering : Layering) (options : Engine.Options) (grid : Grid)
    (g : Graph) (hne : g.nodes ≠ []) (hnodup : (g.nodes.map Node.id).Nodup)
    (hused : (Layout.run (Engine.layered layering) options grid g).failure = none)
    (hpadding : options.padding.isFinite = true)
    (hfinite : ∀ c ∈ (g.layout (Engine.layered layering) options grid).graph.coordinates,
      c.isFinite = true) :
    let drawing := g.layout (Engine.layered layering) options grid
    (∀ n ∈ drawing.graph.nodes, n.box?.isSome = true) ∧
      (∀ e ∈ drawing.graph.edges, e.points.isSome = true) ∧
      (∀ axis, Tight (drawing.bounds.along axis) options.padding (drawing.graph.reach axis)) ∧
      ∃ plan, Engine.layered layering options (.ofGraph g) = .planned plan ∧
        drawing.bounds = plan.size := by
  intro drawing
  rcases Layout.run_cases (Engine.layered layering) options grid g hne with
    ⟨plan, hplanned, happly, _⟩ | ⟨_, _, _, hfailure⟩
  · have hplan := Engine.layered_eq_planned_iff.mp hplanned
    have hshown := Engine.Layered.shownBy hnodup hplan happly
    -- There is a node, and so there is a placement to measure.
    have hplacements : plan.placements ≠ [] := by
      intro hnil
      have hids := (Engine.Layered.map_id_plan hplan).1
      rw [hnil, List.map_nil, eq_comm, List.map_eq_nil_iff] at hids
      exact hne hids
    rcases Engine.Layered.tight_of_shownBy hplan hplacements hpadding hshown hfinite with
      ⟨hbounds, htight⟩
    exact ⟨hshown.placed, hshown.routed, htight, plan, hplanned, hbounds⟩
  · exact absurd (hused.symm.trans hfailure) (by simp only [reduceCtorEq, not_false_eq_true])

/-- A pinned node stands to the left of the drawing and reaches down farthest, and
    a link from a box to itself sticks out to the right. -/
theorem layered_bounds_tight_loop :
    let p : Node := (Node.named "P").pinAt ⟨-200, 400⟩
    let g : Graph := ⟨[p, .named "A"], [.between "A" "A", .between "A" "P"]⟩
    let engine : Engine := Engine.layered .standard
    let drawing := g.layout engine {} {}
    g.nodes ≠ [] ∧ (g.nodes.map Node.id).Nodup ∧ (Layout.run engine {} {} g).failure = none ∧
      ({} : Engine.Options).padding.isFinite = true ∧
      (∀ c ∈ drawing.graph.coordinates, c.isFinite = true) ∧ drawing.bounds = ⟨250, 510⟩ ∧
      Tight 250 50 (drawing.graph.reach .across) ∧ Tight 510 50 (drawing.graph.reach .down) := by
  intro p g engine drawing
  have hne : g.nodes ≠ [] := List.cons_ne_nil _ _
  have hnodup : (g.nodes.map Node.id).Nodup := by decide
  have hused : (Layout.run engine {} {} g).failure = none := by decide +kernel
  have hpadding : ({} : Engine.Options).padding.isFinite = true := by decide +kernel
  have hfinite : ∀ c ∈ drawing.graph.coordinates, c.isFinite = true := by decide +kernel
  have hbounds : drawing.bounds = ⟨250, 510⟩ := by decide +kernel
  rcases layered_bounds_tight .standard {} {} g hne hnodup hused hpadding hfinite with
    ⟨_, _, htight, _⟩
  have hacross := htight .across
  have hdown := htight .down
  rw [hbounds] at hacross hdown
  exact ⟨hne, hnodup, hused, hpadding, hfinite, hbounds, hacross, hdown⟩

end Flowchart
