import Flowchart.Proofs.Layout.Relayout

/-!
# Geometry Depends on What an Engine May See

An engine is told ids, labels, sizes, pins and the ends of edges. What a node
looks like, and where a node or an edge stood in an earlier drawing, is kept
from it. But an answer goes back to the graph, where all of that is at hand: an
old position stands in the field that a pin uses, and a plan that has nothing to
say about an edge could leave the old points in place. So two graphs that an
engine cannot tell apart are followed through the request, the plan and the
grid, and at each stage what comes out is compared as far as it is geometry.

Nothing is asked of the engine. It may answer with sizes of its own, and so a
node's own size has to be the same in both graphs, and not only the size that is
asked for: a pinned node takes its own size first and the answer's second.

## Main definitions

* `Node.SameToEngine`, `Edge.SameToEngine`, `Graph.SameToEngine`: An engine
  cannot tell them apart.
* `Geometry`, `Drawing.geometry`: Where everything in a drawing is.

## Theorems

* `Graph.SameToEngine.request_eq`: Both graphs make the same request.
* `Engine.Plan.geometry_apply_congr`, `Grid.geometry_layout_congr`: They have the
  same geometry by any plan and on any grid.
* `geometry_of_visible`: They are laid out alike by any engine.
-/

namespace Flowchart

/-- An engine cannot tell the nodes apart, and neither can its answer. -/
structure Node.SameToEngine (n m : Node) : Prop where
  id : n.id = m.id
  label : n.label = m.label
  size : n.size = m.size
  effectiveSize : n.effectiveSize = m.effectiveSize
  pinnedPosition : n.pinnedPosition = m.pinnedPosition

/-- An engine cannot tell the edges apart. -/
structure Edge.SameToEngine (e f : Edge) : Prop where
  source : e.source = f.source
  target : e.target = f.target
  label : e.label = f.label

/-- An engine cannot tell the graphs apart, node by node and edge by edge. -/
structure Graph.SameToEngine (g h : Graph) : Prop where
  nodes : List.Forall₂ Node.SameToEngine g.nodes h.nodes
  edges : List.Forall₂ Edge.SameToEngine g.edges h.edges

/-- Where the nodes and edges of a drawing are, and how large it is. -/
structure Geometry where
  positions : List (Option Point)
  sizes : List (Option Size)
  routes : List (Option (List Point))
  bounds : Size
deriving DecidableEq

/-- A drawing without what its nodes and edges look like. -/
def Drawing.geometry (d : Drawing) : Geometry :=
  ⟨d.graph.nodes.map Node.position, d.graph.nodes.map Node.size, d.graph.edges.map Edge.points,
    d.bounds⟩

/-! ## Requests -/

theorem Node.SameToEngine.item_eq {n m : Node} (h : n.SameToEngine m) :
    Engine.Request.item n = Engine.Request.item m := by
  rw [Engine.Request.item, Engine.Request.item, h.id, h.label, h.effectiveSize, h.pinnedPosition]

theorem Edge.SameToEngine.link_eq {e f : Edge} (h : e.SameToEngine f) (place : Nat) :
    Engine.Request.link e place = Engine.Request.link f place := by
  rw [Engine.Request.link, Engine.Request.link, h.source, h.target, h.label]

namespace Graph.SameToEngine

variable {g h : Graph}

/-- Nothing in a request tells the graphs apart. -/
theorem request_eq (hsame : g.SameToEngine h) :
    Engine.Request.ofGraph g = Engine.Request.ofGraph h := by
  have hitems : g.nodes.map Engine.Request.item = h.nodes.map Engine.Request.item := by
    rw [← List.forall₂_eq_eq_eq, List.forall₂_map_left_iff, List.forall₂_map_right_iff]
    exact hsame.nodes.imp fun _ _ hn => hn.item_eq
  have hlinks := Row.map_zipIdx_eq_of_forall₂ hsame.edges Engine.Request.link Engine.Request.link
    fun _ _ place he => he.link_eq place
  rw [Engine.Request.ofGraph, Engine.Request.ofGraph, hitems, hlinks]

end Graph.SameToEngine

/-! ## Plans -/

namespace Engine.Plan

/-- What is drawn of a placed node, and the room it needs. -/
def sight (placed : Node × Option Box) : Option Point × Option Size × Option Box :=
  (placed.1.position, placed.1.size, placed.2)

/-- A placement puts both nodes in the same place. -/
theorem sight_node_congr {n m : Node} (h : n.SameToEngine m) (placement : Placement) :
    sight (node n placement) = sight (node m placement) := by
  unfold node
  rw [h.pinnedPosition, h.size]
  cases m.pinnedPosition <;> rfl

/-- A plan puts both rows of nodes in the same places, or misses the same id. -/
theorem sight_nodes_congr (p : Plan) {ns ms : List Node}
    (h : List.Forall₂ Node.SameToEngine ns ms) :
    (p.nodes ns).map (List.map sight) = (p.nodes ms).map (List.map sight) := by
  unfold nodes
  rw [Row.map_mapM, Row.map_mapM]
  refine Row.mapM_congr h fun n m hnm => ?_
  rw [hnm.id]
  cases p.placement? m.id with
  | none => rfl
  | some placement => exact congrArg Except.ok (sight_node_congr hnm placement)

/-- The geometry of what was placed, with the routes that a plan has for so many
    edges. -/
def geometryOf (p : Plan) (padding : Float32) (routes : List (Option (List Point)))
    (seen : List (Option Point × Option Size × Option Box)) : Geometry :=
  ⟨seen.map fun s => s.1, seen.map fun s => s.2.1, routes,
    (seen.filterMap fun s => s.2.2).foldl (fun size box => size.growTo box padding) p.size⟩

/-- The points that a plan leaves a row of edges with. -/
def pointsOf (p : Plan) (es : List Edge) : List (Option (List Point)) :=
  es.zipIdx.map fun (_, place) => (p.route? (edgeName place)).map Route.points

theorem pointsOf_congr (p : Plan) {es fs : List Edge} (h : es.length = fs.length) :
    p.pointsOf es = p.pointsOf fs := by
  have hedges : List.Forall₂ (fun _ _ => True) es fs :=
    List.forall₂_iff_get.mpr ⟨h, fun _ _ _ => trivial⟩
  exact Row.map_zipIdx_eq_of_forall₂ hedges
    (fun _ place => (p.route? (edgeName place)).map Route.points)
    (fun _ place => (p.route? (edgeName place)).map Route.points) fun _ _ _ _ => rfl

/-- The geometry of a drawing by a plan is made of what is seen of the placed
    nodes, and of the number of edges. -/
theorem map_geometry_apply (p : Plan) (g : Graph) (padding : Float32) :
    (p.apply g padding).map Drawing.geometry =
      ((p.nodes g.nodes).map (List.map sight)).map (p.geometryOf padding (p.pointsOf g.edges)) := by
  unfold apply
  cases p.nodes g.nodes with
  | error failure => rfl
  | ok placed =>
      refine congrArg Except.ok ?_
      simp only [Drawing.geometry, geometryOf, List.map_map, List.filterMap_map]
      rfl

/-- By any plan the graphs have the same geometry, or none for the same
    reason. -/
theorem geometry_apply_congr (p : Plan) {g h : Graph} (hsame : g.SameToEngine h)
    (padding : Float32) :
    (p.apply g padding).map Drawing.geometry = (p.apply h padding).map Drawing.geometry := by
  rw [map_geometry_apply, map_geometry_apply, sight_nodes_congr p hsame.nodes,
    pointsOf_congr p hsame.edges.length_eq]

end Engine.Plan

/-! ## Grids -/

/-- On a grid the graphs have the same geometry. -/
theorem Grid.geometry_layout_congr (grid : Grid) {g h : Graph} (hsame : g.SameToEngine h) :
    (grid.layout g).geometry = (grid.layout h).geometry := by
  have hpositions : (g.nodes.zipIdx.map fun x => some (grid.position x.1 x.2)) =
      h.nodes.zipIdx.map fun x => some (grid.position x.1 x.2) :=
    Row.map_zipIdx_eq_of_forall₂ hsame.nodes (fun n i => some (grid.position n i))
      (fun m i => some (grid.position m i)) fun n m i hnm => by
        rw [Grid.position, Grid.position, hnm.pinnedPosition]
  have hsizes : (g.nodes.zipIdx.map fun _ => some grid.nodeSize) =
      h.nodes.zipIdx.map fun _ => some grid.nodeSize :=
    Row.map_zipIdx_eq_of_forall₂ hsame.nodes (fun _ _ => some grid.nodeSize)
      (fun _ _ => some grid.nodeSize) fun _ _ _ _ => rfl
  have hroutes : (g.edges.map fun _ => (none : Option (List Point))) =
      h.edges.map fun _ => none := by
    rw [List.map_const', List.map_const', hsame.edges.length_eq]
  have hboxes := grid.pinnedBoxes_congr (hsame.nodes.imp fun _ _ hn => hn.pinnedPosition)
  -- Of a grid drawing the geometry reads pins, the number of nodes and that of edges.
  have hof : ∀ g : Graph, (grid.layout g).geometry =
      ⟨g.nodes.zipIdx.map fun x => some (grid.position x.1 x.2),
        g.nodes.zipIdx.map fun _ => some grid.nodeSize, g.edges.map fun _ => none,
        (grid.pinnedBoxes g.nodes).foldl (fun size box => size.growTo box grid.margin)
          (grid.extent g.nodes.length)⟩ := by
    intro g
    simp only [Grid.layout, Drawing.geometry, List.map_map]
    rfl
  rw [hof, hof, hpositions, hsizes, hroutes, hboxes, hsame.nodes.length_eq]

/-! ## Layouts -/

/-- Geometry depends on what an engine may see. Any engine at all, with any
    distances and on any grid, lays out two graphs that it cannot tell apart in
    the same places, with the same routes and the same bounds. Its answer is used
    for both or for neither, and then for the same reason. -/
theorem geometry_of_visible (engine : Engine) (options : Engine.Options) (grid : Grid)
    {g h : Graph} (hsame : g.SameToEngine h) :
    let account := Layout.run engine options grid g
    let account' := Layout.run engine options grid h
    account.drawing.geometry = account'.drawing.geometry ∧ account.failure = account'.failure ∧
      account.phases = account'.phases := by
  intro account account'
  -- Both graphs are given the same answer, and it makes the same geometry of them.
  have hreconcile :
      (Layout.reconcile (engine options (.ofGraph g)) options.padding g).map Drawing.geometry =
        (Layout.reconcile (engine options (.ofGraph g)) options.padding h).map
          Drawing.geometry := by
    unfold Layout.reconcile
    cases (engine options (.ofGraph g)).plan? with
    | error failure => rfl
    | ok plan => exact plan.geometry_apply_congr hsame options.padding
  have hempty := Graph.isEmpty_congr hsame.nodes.length_eq
  subst account account'
  unfold Layout.run
  rw [← hempty, ← hsame.request_eq]
  by_cases hnil : g.isEmpty = true
  · rw [if_pos hnil, if_pos hnil]
    exact ⟨rfl, rfl, rfl⟩
  · rw [if_neg hnil, if_neg hnil]
    dsimp only
    -- Either way both outcomes are of one kind, and only drawings are left to compare.
    cases hg : Layout.reconcile (engine options (.ofGraph g)) options.padding g with
    | ok drawing =>
        cases hh : Layout.reconcile (engine options (.ofGraph g)) options.padding h with
        | ok drawing' =>
            rw [hg, hh] at hreconcile
            exact ⟨Except.ok.inj hreconcile, rfl, rfl⟩
        | error failure =>
            rw [hg, hh] at hreconcile
            exact absurd hreconcile (by simp only [Except.map, reduceCtorEq, not_false_eq_true])
    | error failure =>
        cases hh : Layout.reconcile (engine options (.ofGraph g)) options.padding h with
        | ok drawing =>
            rw [hg, hh] at hreconcile
            exact absurd hreconcile (by simp only [Except.map, reduceCtorEq, not_false_eq_true])
        | error failure' =>
            rw [hg, hh] at hreconcile
            exact ⟨grid.geometry_layout_congr hsame, congrArg some (Except.error.inj hreconcile),
              rfl⟩

/-- One graph was drawn before and the other one is dressed up, and an engine
    that answers with sizes of its own, and with a route for one of two edges of
    the same id, makes the same of them. -/
theorem geometry_of_visible_dressed :
    let g : Graph :=
      ⟨[{ Node.named "A" with position := some ⟨9, 9⟩ }, (Node.named "P").pinAt ⟨60, 60⟩],
        [{ Edge.between "A" "P" with points := some [⟨1, 1⟩] }, .between "A" "P"]⟩
    let h : Graph :=
      ⟨[{ Node.named "A" with shape := .stadium, style := some { strokeWidth := some 3 } },
          { (Node.named "P").pinAt ⟨60, 60⟩ with shape := .rounded }],
        [{ Edge.between "A" "P" with id := "first", line := .dotted }, .between "A" "P"]⟩
    let engine : Engine := fun _ r =>
      .planned ⟨r.items.map fun item => ⟨item.id, ⟨item.size.width, 0⟩, ⟨1, 1⟩⟩,
        [⟨"e1", ⟨2, 2⟩, [], ⟨3, 3⟩⟩], ⟨9, 9⟩⟩
    g.SameToEngine h ∧ g ≠ h ∧
      (Layout.run engine {} {} g).drawing.geometry =
        ⟨[some ⟨120, 0⟩, some ⟨60, 60⟩], [some ⟨1, 1⟩, some ⟨1, 1⟩],
          [none, some [⟨2, 2⟩, ⟨3, 3⟩]], ⟨111, 111⟩⟩ ∧
      (Layout.run engine {} {} g).drawing.geometry = (Layout.run engine {} {} h).drawing.geometry ∧
      (Layout.run engine {} {} g).failure = (Layout.run engine {} {} h).failure := by
  intro g h engine
  have hsame : g.SameToEngine h :=
    ⟨.cons ⟨rfl, rfl, rfl, rfl, rfl⟩ (.cons ⟨rfl, rfl, rfl, rfl, rfl⟩ .nil),
      .cons ⟨rfl, rfl, rfl⟩ (.cons ⟨rfl, rfl, rfl⟩ .nil)⟩
  have hgeometry := geometry_of_visible engine {} {} hsame
  exact ⟨hsame, by decide +kernel, by decide +kernel, hgeometry.1, hgeometry.2.1⟩

end Flowchart
