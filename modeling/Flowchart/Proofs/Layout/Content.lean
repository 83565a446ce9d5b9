import Flowchart.Layout.Basic
import Flowchart.Proofs.Row

/-!
# What a Layout Leaves Alone

A layout decides where things are and how large they are, and nothing else.
There are two ways to get there: the plan of an engine is matched with the
graph by ids, and the grid goes through the nodes by their places. Neither
knows of the other, and the engine is any function at all, so what they have
in common is put into one relation. `Node.SettledAs` says that a node was
given a position and a size, that the position is the pinned one if there is
one, and that nothing else about it changed.

`Layout.run_cases` is the inversion that the results about drawings start
from. A layout either applies a plan in full or draws the grid; there is no
third way, so a plan that fails half way through leaves nothing behind.

## Main definitions

* `Node.unplaced`, `Edge.unrouted`: A node and an edge without what a layout
  decides.
* `Node.SettledAs`: A node was put somewhere, and its pin was respected.
* `Engine.Plan.LeavesOut`: A plan has no placement for some node.

## Theorems

* `Graph.map_id_of_settled`: Settled nodes keep their ids.
* `Plan.apply_eq_ok`: What a plan makes of a graph, node by node.
* `Plan.exists_apply_eq_ok_iff`: A plan can be applied unless it leaves a node
  out.
* `run_cases`: A layout applies a plan in full or draws the grid.
* `run_failure_eq_none_iff`: When the answer of an engine is used.
* `run_settled`, `run_unrouted`: Every layout settles every node and leaves the
  edges alone.
* `layout_keeps_content`: The content of a graph after a layout.
-/

namespace Flowchart

/-- The node without the place that a layout gave it. -/
def Node.unplaced (n : Node) : Node := { n with position := none, size := none }

/-- The edge without its route. -/
def Edge.unrouted (e : Edge) : Edge := { e with points := none }

namespace Node

/-- The node `n'` is `n` put somewhere, and put where `n` is pinned if it is
    pinned at all. -/
def SettledAs (n n' : Node) : Prop :=
  ∃ position size, n' = n.placed position size ∧
    ∀ q, n.pinnedPosition = some q → position = q

theorem SettledAs.unplaced_eq {n n' : Node} (h : n.SettledAs n') : n'.unplaced = n.unplaced := by
  rcases h with ⟨position, size, rfl, _⟩
  rfl

theorem SettledAs.id_eq {n n' : Node} (h : n.SettledAs n') : n'.id = n.id := by
  rcases h with ⟨position, size, rfl, _⟩
  rfl

theorem SettledAs.isSome {n n' : Node} (h : n.SettledAs n') :
    n'.position.isSome = true ∧ n'.size.isSome = true := by
  rcases h with ⟨position, size, rfl, _⟩
  exact ⟨rfl, rfl⟩

theorem SettledAs.position_eq {n n' : Node} (h : n.SettledAs n') {q : Point}
    (hq : n.pinnedPosition = some q) : n'.position = some q := by
  rcases h with ⟨position, size, rfl, hpin⟩
  rw [← hpin q hq]
  rfl

/-- The grid and the reconciliation both ask for the pinned position first and
    for another one only if there is none. -/
theorem settledAs_placed_getD (n : Node) (position : Point) (size : Size) :
    n.SettledAs (n.placed (n.pinnedPosition.getD position) size) := by
  refine ⟨_, _, rfl, ?_⟩
  intro q hq
  rw [hq]
  rfl

end Node

/-- Nodes that were settled one by one have the same ids in the same order. -/
theorem Graph.map_id_of_settled {g g' : Graph} (h : List.Forall₂ Node.SettledAs g.nodes g'.nodes) :
    g'.nodes.map Node.id = g.nodes.map Node.id :=
  Row.map_eq_of_forall₂ h Node.id fun _ _ hn => hn.id_eq

namespace Engine

namespace Plan

/-- The plan has no placement for some node of the graph. -/
def LeavesOut (p : Plan) (g : Graph) : Prop :=
  ∃ n ∈ g.nodes, ∀ placement ∈ p.placements, placement.id ≠ n.id

theorem placement?_eq_none_iff (p : Plan) (id : String) :
    p.placement? id = none ↔ ∀ placement ∈ p.placements, placement.id ≠ id := by
  simp only [placement?, List.find?_eq_none, List.mem_reverse, beq_iff_eq]

theorem node_settledAs (n : Node) (placement : Placement) : n.SettledAs (node n placement).1 := by
  unfold node
  cases hq : n.pinnedPosition with
  | none =>
      have h := n.settledAs_placed_getD placement.position placement.size
      rw [hq] at h
      exact h
  | some q =>
      have h := n.settledAs_placed_getD placement.position (n.size.getD placement.size)
      rw [hq] at h
      exact h

/-- A free node stands where its placement says, whatever size it had. -/
theorem node_of_free (n : Node) (placement : Placement) (hfree : n.pinnedPosition = none) :
    (node n placement).1 = n.placed placement.position placement.size := by
  rw [node, hfree]

/-- A pinned node stays, and asks its placement for a size only if it has none
    of its own. -/
theorem node_of_pinned (n : Node) (placement : Placement) {q : Point}
    (hq : n.pinnedPosition = some q) :
    (node n placement).1 = n.placed q (n.size.getD placement.size) := by
  rw [node, hq]

theorem nodes_eq_ok_iff (p : Plan) (ns : List Node) (placed : List (Node × Option Box)) :
    p.nodes ns = .ok placed ↔ List.Forall₂
      (fun n r => ∃ placement, p.placement? n.id = some placement ∧ r = node n placement)
      ns placed := by
  unfold nodes
  rw [Row.mapM_eq_ok_iff]
  refine iff_of_eq (congrArg (fun R => List.Forall₂ R ns placed) ?_)
  funext n r
  cases p.placement? n.id with
  | none => simp only [reduceCtorEq, false_and, exists_false]
  | some placement =>
      simp only [Except.ok.injEq, Option.some.injEq, exists_eq_left', eq_comm]

/-- What a plan makes of a graph: its nodes are those that the plan makes of
    the graph's nodes one by one, and its edges differ in their routes only. -/
theorem apply_eq_ok {p : Plan} {g : Graph} {padding : Float32} {d : Drawing}
    (h : p.apply g padding = .ok d) :
    List.Forall₂
        (fun n n' => ∃ placement, p.placement? n.id = some placement ∧ n' = (node n placement).1)
        g.nodes d.graph.nodes ∧
      d.graph.edges = g.edges.zipIdx.map fun (e, place) => p.edge e place := by
  unfold apply at h
  rcases Row.bind_eq_ok_iff.mp h with ⟨placed, hplaced, hd⟩
  rw [← Except.ok.inj hd]
  -- Edges never fail, and the nodes are done one by one.
  refine ⟨?_, rfl⟩
  rw [List.forall₂_map_right_iff]
  refine ((nodes_eq_ok_iff p g.nodes placed).mp hplaced).imp ?_
  intro n r hr
  rcases hr with ⟨placement, hp, rfl⟩
  exact ⟨placement, hp, rfl⟩

/-- A plan can be applied unless it leaves a node out. -/
theorem exists_apply_eq_ok_iff (p : Plan) (g : Graph) (padding : Float32) :
    (∃ d, p.apply g padding = .ok d) ↔ ¬p.LeavesOut g := by
  -- After the nodes nothing can fail any more.
  have hrow : (∃ d, p.apply g padding = .ok d) ↔ ∃ placed, p.nodes g.nodes = .ok placed := by
    constructor
    · rintro ⟨d, hd⟩
      rcases Row.bind_eq_ok_iff.mp hd with ⟨placed, hplaced, _⟩
      exact ⟨placed, hplaced⟩
    · rintro ⟨placed, hplaced⟩
      exact ⟨_, Row.bind_eq_ok_iff.mpr ⟨placed, hplaced, rfl⟩⟩
  rw [hrow, nodes, Row.exists_mapM_eq_ok_iff, LeavesOut]
  simp only [← placement?_eq_none_iff, not_exists, not_and]
  refine forall_congr' fun n => imp_congr_right fun _ => ?_
  cases p.placement? n.id with
  | none => simp only [reduceCtorEq, exists_false, not_true_eq_false]
  | some placement => simp only [Except.ok.injEq, exists_eq', reduceCtorEq, not_false_eq_true]

end Plan

end Engine

/-! ## Both ways to a drawing -/

theorem Grid.layout_settled (grid : Grid) (g : Graph) :
    List.Forall₂ Node.SettledAs g.nodes (grid.layout g).graph.nodes := by
  rw [List.forall₂_iff_get]
  refine ⟨by simp only [Grid.layout, List.length_map, List.length_zipIdx], ?_⟩
  intro i hi hi'
  simp only [Grid.layout, List.get_eq_getElem, List.getElem_map, List.getElem_zipIdx, Grid.position]
  exact Node.settledAs_placed_getD _ _ _

theorem Grid.layout_unrouted (grid : Grid) (g : Graph) :
    (grid.layout g).graph.edges.map Edge.unrouted = g.edges.map Edge.unrouted := by
  simp only [Grid.layout, List.map_map]
  rfl

theorem Engine.Plan.apply_unrouted {p : Plan} {g : Graph} {padding : Float32} {d : Drawing}
    (h : p.apply g padding = .ok d) :
    d.graph.edges.map Edge.unrouted = g.edges.map Edge.unrouted := by
  rw [(apply_eq_ok h).2, List.map_map]
  -- The route of an edge is all that its place in the list decides.
  have hcomp : (Edge.unrouted ∘ fun x : Edge × Nat => p.edge x.1 x.2) = Edge.unrouted ∘ Prod.fst :=
    rfl
  rw [hcomp, ← List.map_map, List.zipIdx_map_fst]

namespace Layout

variable (engine : Engine) (options : Engine.Options) (grid : Grid) (g : Graph)

/-- Only a plan is reconciled without an error. -/
theorem reconcile_eq_ok {outcome : Engine.Outcome} {padding : Float32} {d : Drawing}
    (h : reconcile outcome padding g = .ok d) :
    ∃ plan, outcome = .planned plan ∧ plan.apply g padding = .ok d := by
  rcases Row.bind_eq_ok_iff.mp h with ⟨plan, hplan, happly⟩
  cases outcome with
  | planned p =>
      rw [Except.ok.inj hplan]
      exact ⟨plan, rfl, happly⟩
  | failed _ | crashed _ | cancelled => cases hplan

/-- A layout of a graph that is not empty either applies the plan of its
    engine in full, or draws the grid and says why. -/
theorem run_cases (hne : g.nodes ≠ []) :
    (∃ plan, engine options (.ofGraph g) = .planned plan ∧
        plan.apply g options.padding = .ok (run engine options grid g).drawing ∧
        (run engine options grid g).failure = none) ∨
      (∃ failure, reconcile (engine options (.ofGraph g)) options.padding g = .error failure ∧
        (run engine options grid g).drawing = grid.layout g ∧
        (run engine options grid g).failure = some failure) := by
  have hempty : ¬g.isEmpty = true := by
    rw [Graph.isEmpty, List.isEmpty_iff]
    exact hne
  unfold run
  rw [if_neg hempty]
  dsimp only
  cases hrec : reconcile (engine options (.ofGraph g)) options.padding g with
  | error failure => exact Or.inr ⟨failure, rfl, rfl, rfl⟩
  | ok drawing =>
      rcases reconcile_eq_ok g hrec with ⟨plan, hplan, happly⟩
      exact Or.inl ⟨plan, hplan, happly, rfl⟩

/-- The engine's answer is used exactly if it is a plan that leaves no node
    out. Anything else ends on the grid. -/
theorem run_failure_eq_none_iff (hne : g.nodes ≠ []) :
    (run engine options grid g).failure = none ↔
      ∃ plan, engine options (.ofGraph g) = .planned plan ∧ ¬plan.LeavesOut g := by
  constructor
  · intro h
    rcases run_cases engine options grid g hne with ⟨plan, hplan, happly, _⟩ | ⟨failure, _, _, hf⟩
    · exact ⟨plan, hplan, (plan.exists_apply_eq_ok_iff g options.padding).mp ⟨_, happly⟩⟩
    · exact absurd (h.symm.trans hf) (by simp only [reduceCtorEq, not_false_eq_true])
  · rintro ⟨plan, hplan, hall⟩
    rcases run_cases engine options grid g hne with ⟨_, _, _, hf⟩ | ⟨failure, hrec, _, _⟩
    · exact hf
    · rcases (plan.exists_apply_eq_ok_iff g options.padding).mpr hall with ⟨d, hd⟩
      rw [hplan] at hrec
      exact absurd (hd.symm.trans hrec) (by simp only [reduceCtorEq, not_false_eq_true])

/-- Every layout by every engine settles the nodes in their order. -/
theorem run_settled :
    List.Forall₂ Node.SettledAs g.nodes (run engine options grid g).drawing.graph.nodes := by
  by_cases hne : g.nodes = []
  · -- The empty sheet has no nodes, and neither has the graph.
    have hempty : g.isEmpty = true := by
      rw [Graph.isEmpty, hne]
      rfl
    rw [run, if_pos hempty, hne]
    exact .nil
  · rcases run_cases engine options grid g hne with ⟨plan, _, happly, _⟩ | ⟨_, _, hgrid, _⟩
    · refine (Engine.Plan.apply_eq_ok happly).1.imp ?_
      rintro n n' ⟨placement, _, rfl⟩
      exact Engine.Plan.node_settledAs n placement
    · rw [hgrid]
      exact grid.layout_settled g

/-- No layout by any engine adds an edge, drops one, or changes more of it than
    its route. -/
theorem run_unrouted (hne : g.nodes ≠ []) :
    (run engine options grid g).drawing.graph.edges.map Edge.unrouted =
      g.edges.map Edge.unrouted := by
  rcases run_cases engine options grid g hne with ⟨plan, _, happly, _⟩ | ⟨_, _, hgrid, _⟩
  · exact Engine.Plan.apply_unrouted happly
  · rw [hgrid]
    exact grid.layout_unrouted g

end Layout

/-- A layout keeps the content of a graph, whatever its engine does: nodes and
    edges stay in their order, each as it was but for its place. Every node has
    a place afterwards, and the pinned one if it was pinned. An engine that
    fails, crashes or leaves a node out is ignored altogether, and from any
    other the free nodes take their last placements. -/
theorem layout_keeps_content (engine : Engine) (options : Engine.Options) (grid : Grid) (g : Graph)
    (hne : g.nodes ≠ []) :
    let drawing := g.layout engine options grid
    drawing.graph.nodes.map Node.unplaced = g.nodes.map Node.unplaced ∧
      drawing.graph.edges.map Edge.unrouted = g.edges.map Edge.unrouted ∧
      (∀ n' ∈ drawing.graph.nodes, n'.position.isSome = true ∧ n'.size.isSome = true) ∧
      List.Forall₂ (fun n n' => ∀ q, n.pinnedPosition = some q → n'.position = some q)
        g.nodes drawing.graph.nodes ∧
      ((∀ plan, engine options (.ofGraph g) = .planned plan → plan.LeavesOut g) →
        drawing = grid.layout g) ∧
      (∀ plan, engine options (.ofGraph g) = .planned plan → ¬plan.LeavesOut g →
        List.Forall₂ (fun n n' => n.pinnedPosition = none →
          ∃ placement, plan.placement? n.id = some placement ∧
            n'.position = some placement.position ∧ n'.size = some placement.size)
          g.nodes drawing.graph.nodes) := by
  intro drawing
  have hsettled : List.Forall₂ Node.SettledAs g.nodes drawing.graph.nodes :=
    Layout.run_settled engine options grid g
  -- What settles a node keeps its content and its pin; the rest depends on which way the layout
  -- went.
  refine ⟨?_, Layout.run_unrouted engine options grid g hne, ?_, ?_, ?_, ?_⟩
  · exact Row.map_eq_of_forall₂ hsettled Node.unplaced fun _ _ hn => hn.unplaced_eq
  · intro n' hn'
    rcases Row.exists_left_of_mem hsettled hn' with ⟨n, _, hn⟩
    exact hn.isSome
  · exact hsettled.imp fun _ _ h _ => h.position_eq
  · intro hbad
    rcases Layout.run_cases engine options grid g hne with
      ⟨plan, hplan, happly, _⟩ | ⟨_, _, hgrid, _⟩
    · -- What was applied leaves no node out.
      exact absurd (hbad plan hplan)
        ((plan.exists_apply_eq_ok_iff g options.padding).mp ⟨_, happly⟩)
    · exact hgrid
  · intro plan hplan hall
    rcases Layout.run_cases engine options grid g hne with ⟨p, hp, happly, _⟩ | ⟨_, _, _, hfail⟩
    · -- The plan that was applied is the one that the engine gave.
      rw [hplan, Engine.Outcome.planned.injEq] at hp
      rw [← hp] at happly
      refine (Engine.Plan.apply_eq_ok happly).1.imp ?_
      rintro n n' ⟨placement, hplacement, rfl⟩ hfree
      rw [Engine.Plan.node_of_free n placement hfree]
      exact ⟨placement, hplacement, rfl, rfl⟩
    · have hnone :=
        (Layout.run_failure_eq_none_iff engine options grid g hne).mpr ⟨plan, hplan, hall⟩
      exact absurd (hnone.symm.trans hfail) (by simp only [reduceCtorEq, not_false_eq_true])

/-- An engine that places one of two nodes has no part in the drawing. -/
theorem layout_keeps_content_partial :
    let g : Graph := ⟨[.named "A", (Node.named "B").pinAt ⟨7, 7⟩], [.between "A" "C"]⟩
    let engine : Engine := fun _ _ => .planned ⟨[⟨"A", ⟨3, 3⟩, ⟨1, 1⟩⟩], [], ⟨9, 9⟩⟩
    g.nodes ≠ [] ∧
      (g.layout engine {} {}).graph.nodes.map Node.unplaced = g.nodes.map Node.unplaced ∧
      g.layout engine {} {} = Grid.layout {} g := by
  intro g engine
  have hne : g.nodes ≠ [] := List.cons_ne_nil _ _
  rcases layout_keeps_content engine {} {} g hne with ⟨hnodes, _, _, _, hgrid, _⟩
  refine ⟨hne, hnodes, hgrid ?_⟩
  rintro plan hplan
  rw [← Engine.Outcome.planned.inj hplan]
  refine ⟨(Node.named "B").pinAt ⟨7, 7⟩, List.mem_cons_of_mem _ List.mem_cons_self, ?_⟩
  intro placement hplacement
  rw [List.mem_singleton.mp hplacement]
  decide

end Flowchart
