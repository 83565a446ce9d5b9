import Flowchart.Proofs.Engine.Ends
import Flowchart.Proofs.Engine.Slot
import Flowchart.Proofs.Layout.Clearance
import Flowchart.Proofs.Session.Pins

/-!
# A Flowchart That Was Read Is Planned

The layered engine can fail in three ways of its own: a link ends at a box that
is not there, a box that takes part in the layering gets no slot from it, and a
box has neither a slot nor a place. After that the plan could still leave a node
out. A graph that was read from a text meets none of these. Both ends of its
edges are nodes, so every link finds its boxes; and a layering that lists what
it is asked about leaves no free box without a slot. The plan then has a
placement for every item and a route for every link, because it is made from
the two lists of the request.

Carrying pins over changes positions alone. It fixes boxes, and so takes them
out of the layering, but no edge loses an end by it.

What is asked of the layering is `Layering.Lists`, at the arcs that it is
really given. Without arcs it is not asked at all.

## Theorems

* `Request.closed_ofGraph`: A graph without dangling edges makes a closed request.
* `Layered.exists_positions_eq_ok`: Every box goes somewhere if every free box
  has a slot.
* `Layered.exists_plan_eq_ok`: The engine has a plan, with a placement for every
  item and a route for every link.
* `read_flowchart_planned`: A flowchart that was read is drawn by its plan, with
  two points on every edge at least.
-/

namespace Flowchart

/-! ## Graphs without dangling edges -/

namespace Graph

theorem isSome_node?_iff {g : Graph} {id : String} :
    (g.node? id).isSome = true ↔ id ∈ g.nodes.map Node.id := by
  rw [node?, List.find?_isSome, List.mem_map]
  simp only [beq_iff_eq]

/-- Nothing dangles if both ends of every edge are nodes. -/
theorem dangling_eq_nil_iff {g : Graph} :
    g.dangling = [] ↔ ∀ e ∈ g.edges, e.source ∈ g.nodes.map Node.id ∧
      e.target ∈ g.nodes.map Node.id := by
  rw [dangling, List.filter_eq_nil_iff]
  refine forall_congr' fun e => imp_congr_right fun _ => ?_
  rw [← isSome_node?_iff, ← isSome_node?_iff]
  cases g.node? e.source <;> cases g.node? e.target <;> simp

/-- Pins leave the ends of edges where they are. -/
theorem dangling_pinsFrom {g : Graph} (h : g.dangling = []) (older : Graph) :
    (g.pinsFrom older).dangling = [] := by
  rw [dangling_eq_nil_iff, map_id_pinsFrom]
  exact dangling_eq_nil_iff.mp h

end Graph

namespace Engine

/-! ## Links -/

namespace Request

/-- The request asks for the nodes in their order. -/
theorem map_id_items (g : Graph) : (ofGraph g).items.map Item.id = g.nodes.map Node.id := by
  rw [ofGraph, List.map_map]
  rfl

/-- A graph without dangling edges makes a closed request. -/
theorem closed_ofGraph {g : Graph} (hdangling : g.dangling = []) : (ofGraph g).Closed := by
  intro link hlink
  rcases List.mem_map.mp hlink with ⟨⟨e, place⟩, he, rfl⟩
  rw [map_id_items]
  exact Graph.dangling_eq_nil_iff.mp hdangling e (List.fst_mem_of_mem_zipIdx he)

end Request

/-! ## Boxes -/

namespace Layered

variable {r : Request} {slots : Slots}

theorem isFixed_eq_false {i : Nat} {item : Item} (hitem : r.items[i]? = some item)
    (hfree : item.fixed = none) : r.isFixed i = false := by
  rw [Request.isFixed, hitem]
  dsimp only
  rw [hfree]
  rfl

/-- Every box goes somewhere if every free box has a slot. -/
theorem exists_positions_eq_ok
    (hslots : ∀ i < r.items.length, r.isFixed i = false → (slots.slotOf i).isSome = true)
    (options : Options) :
    ∃ ps, positions r slots options = .ok ps ∧ ps.length = r.items.length := by
  have hraw : ∃ raw, r.items.zipIdx.mapM
      (fun p => rawPosition slots (middles r slots options) p.1 p.2) = .ok raw := by
    -- A box is fixed, or it is free and has a slot.
    rw [Row.exists_mapM_eq_ok_iff]
    rintro ⟨item, i⟩ hmem
    have hitem := List.mem_zipIdx_iff_getElem?.mp hmem
    dsimp only at hitem ⊢
    cases hfixed : item.fixed with
    | some corner => exact ⟨corner, by simp only [rawPosition, hfixed]⟩
    | none =>
        have hi := (List.getElem?_eq_some_iff.mp hitem).1
        rcases Option.isSome_iff_exists.mp (hslots i hi (isFixed_eq_false hitem hfixed)) with
          ⟨slot, hslot⟩
        have hraw : rawPosition slots (middles r slots options) item i =
            .ok (Box.cornerAround ⟨slot.center, (middles r slots options).getD slot.rank 0⟩
              item.size) := by
          simp only [rawPosition, hfixed, hslot]
        exact ⟨_, hraw⟩
  rcases hraw with ⟨raw, hraw⟩
  have hps : positions r slots options = _ := Row.bind_eq_ok_iff.mpr ⟨raw, hraw, rfl⟩
  exact ⟨_, hps, length_positions hps⟩

/-- Every link has a route under its own name. -/
theorem map_id_routes (r : Request) {links : List Ends} (hlength : links.length = r.links.length)
    (boxes : List Box) (options : Options) :
    (routes r links boxes options).map Route.id = r.links.map Link.id := by
  rw [routes, List.map_map]
  exact Row.map_zip_of_fst hlength _ _ fun _ => rfl

/-- The engine has a plan for a graph without dangling edges, if the layering
    lists what it is asked about. Every item is placed, and every link has a
    route. -/
theorem exists_plan_eq_ok (layering : Layering) (options : Options) {g : Graph}
    (hdangling : g.dangling = [])
    (hlists : ∀ links, (Request.ofGraph g).ends? = .ok links →
      let arcs := (Numbering.ofLinks (Request.ofGraph g).isFixed links).arcs
      arcs ≠ [] → layering.Lists (Slots.effort options) arcs) :
    ∃ plan, Layered.plan layering options (.ofGraph g) = .ok plan ∧
      plan.placements.map Placement.id = (Request.ofGraph g).items.map Item.id ∧
      plan.routes.map Route.id = (Request.ofGraph g).links.map Link.id := by
  -- Ends, slots and positions are the three steps that could fail.
  rcases (Request.closed_ofGraph hdangling).exists_ends?_eq_ok with ⟨links, hends⟩
  have hlength : links.length = (Request.ofGraph g).links.length :=
    (Request.ends?_eq_ok_iff.mp hends).length_eq.symm
  rcases Slots.exists_ofRequest_eq_ok layering (.ofGraph g) links options (hlists links hends) with
    ⟨slots, hslots, hfree⟩
  rcases exists_positions_eq_ok hfree options with ⟨ps, hps, hcount⟩
  refine ⟨_, Row.bind_eq_ok_iff.mpr ⟨links, hends, Row.bind_eq_ok_iff.mpr ⟨slots, hslots,
    Row.bind_eq_ok_iff.mpr ⟨ps, hps, rfl⟩⟩⟩, ?_, map_id_routes _ hlength _ _⟩
  rw [List.map_map]
  exact Row.map_zip_of_fst hcount _ _ fun _ => rfl

end Layered

/-! ## The drawing -/

theorem Route.two_le_length_points (r : Route) : 2 ≤ r.points.length := by
  rw [points, List.length_cons, List.length_append, List.length_singleton]
  omega

namespace Plan

/-- A plan that repeats the ids of a graph leaves no node out. -/
theorem not_leavesOut {p : Plan} {g : Graph}
    (h : p.placements.map Placement.id = g.nodes.map Node.id) : ¬p.LeavesOut g := by
  rintro ⟨n, hn, hnone⟩
  have hid : n.id ∈ p.placements.map Placement.id := by
    rw [h]
    exact List.mem_map_of_mem hn
  rcases List.mem_map.mp hid with ⟨placement, hplacement, hsame⟩
  exact hnone placement hplacement hsame

/-- A plan that repeats the names of all edges gives each of them points. -/
theorem two_le_length_of_apply {p : Plan} {g : Graph} {padding : Float32} {d : Drawing}
    (happly : p.apply g padding = .ok d)
    (hroutes : p.routes.map Route.id = (Request.ofGraph g).links.map Link.id) :
    ∀ e ∈ d.graph.edges, ∃ points, e.points = some points ∧ 2 ≤ points.length := by
  rw [(apply_eq_ok happly).2]
  intro e he
  rcases List.mem_map.mp he with ⟨⟨e, place⟩, hmem, rfl⟩
  have hname : edgeName place ∈ p.routes.map Route.id := by
    rw [hroutes, Request.ofGraph, List.map_map]
    exact List.mem_map_of_mem (f := Link.id ∘ fun x : Edge × Nat => Request.link x.1 x.2) hmem
  -- The route is found by the name of the edge, and every route has a start and a finish.
  have hfound : (p.route? (edgeName place)).isSome = true := by
    rcases List.mem_map.mp hname with ⟨route, hroute, hid⟩
    rw [route?, List.find?_isSome]
    exact ⟨route, List.mem_reverse.mpr hroute, beq_iff_eq.mpr hid⟩
  rcases Option.isSome_iff_exists.mp hfound with ⟨route, hroute⟩
  refine ⟨route.points, ?_, route.two_le_length_points⟩
  simp only [edge, hroute, Option.map_some]

end Plan

end Engine

/-- A flowchart that was read is laid out by its plan, whatever the distances
    and whatever pins were carried over: if the layering lists every vertex of
    the arcs that it is given, no failure arises, and the drawing is not the
    grid but the one that the plan makes. Every edge has two points at least. -/
theorem read_flowchart_planned (layering : Layering) (options : Engine.Options) (grid : Grid)
    (strict : Bool) (source : String) (diagram : Diagram) (older : Graph)
    (hread : Diagram.parse strict source = .ok diagram) (hne : diagram.graph.nodes ≠ [])
    (hlists : ∀ links,
      (Engine.Request.ofGraph (diagram.graph.pinsFrom older)).ends? = .ok links →
      let arcs := (Engine.Numbering.ofLinks
        (Engine.Request.ofGraph (diagram.graph.pinsFrom older)).isFixed links).arcs
      arcs ≠ [] → layering.Lists (Engine.Slots.effort options) arcs) :
    let g := diagram.graph.pinsFrom older
    let account := Layout.run (Engine.layered layering) options grid g
    ∃ plan, Engine.layered layering options (.ofGraph g) = .planned plan ∧
      plan.apply g options.padding = .ok account.drawing ∧
      account.failure = none ∧
      account.drawing.graph.edges.length = g.edges.length ∧
      ∀ e ∈ account.drawing.graph.edges, ∃ points, e.points = some points ∧ 2 ≤ points.length := by
  intro g account
  -- Reading leaves no dangling edge, and pins add none.
  have hdangling : g.dangling = [] := by
    refine Graph.dangling_pinsFrom ?_ older
    rw [Diagram.graph_of_parse hread]
    exact Meaning.dangling_graph _
  have hne' : g.nodes ≠ [] := by
    intro hnil
    have hids := Graph.map_id_pinsFrom diagram.graph older
    rw [hnil, List.map_nil, eq_comm, List.map_eq_nil_iff] at hids
    exact hne hids
  rcases Engine.Layered.exists_plan_eq_ok layering options hdangling hlists with
    ⟨plan, hplan, hplacements, hroutes⟩
  rw [Engine.Request.map_id_items] at hplacements
  have hplanned := Engine.layered_eq_planned_iff.mpr hplan
  -- The plan places every node, and so it is used.
  have hused : account.failure = none :=
    (Layout.run_failure_eq_none_iff _ options grid g hne').mpr
      ⟨plan, hplanned, Engine.Plan.not_leavesOut hplacements⟩
  rcases Layout.run_cases (Engine.layered layering) options grid g hne' with
    ⟨plan', hplan', happly, _⟩ | ⟨_, _, _, hfailure⟩
  · rw [hplanned, Engine.Outcome.planned.injEq] at hplan'
    rw [← hplan'] at happly
    refine ⟨plan, hplanned, happly, hused, ?_, Engine.Plan.two_le_length_of_apply happly hroutes⟩
    have hedges := congrArg List.length (Engine.Plan.apply_unrouted happly)
    rw [List.length_map, List.length_map] at hedges
    exact hedges
  · exact absurd (hused.symm.trans hfailure) (by simp only [reduceCtorEq, not_false_eq_true])

/-- A link is repeated, one leads from a box to itself, one leads to a box that
    is pinned, and one box has no link at all. Only the first is left for the
    layering. -/
theorem read_flowchart_planned_pinned :
    let source := "A --> B\nA --> B\nB --> B\nB --> P\nC[C]"
    let graph : Graph := ⟨[.named "A", .named "B", .named "P", .named "C"],
      [.between "A" "B", .between "A" "B", .between "B" "B", .between "B" "P"]⟩
    let older : Graph := ⟨[(Node.named "P").pinAt ⟨7, 7⟩, (Node.named "Z").pinAt ⟨1, 2⟩], []⟩
    let g := graph.pinsFrom older
    let layering : Layering := fun _ _ => .ok [[⟨1, 0, 10⟩, ⟨0, 0, 0⟩]]
    let account := Layout.run (Engine.layered layering) {} {} g
    (Diagram.parse false source).map Diagram.graph = .ok graph ∧ graph.nodes ≠ [] ∧
      (Engine.Request.ofGraph g).ends? = .ok [(0, 1), (0, 1), (1, 1), (1, 2)] ∧
      layering.Lists (Engine.Slots.effort {}) [(0, 1)] ∧
      account.failure = none ∧
      ∀ e ∈ account.drawing.graph.edges, ∃ points, e.points = some points ∧ 2 ≤ points.length := by
  intro source graph older g layering account
  let diagram : Diagram := ⟨graph, none, []⟩
  have hread : Diagram.parse false source = .ok diagram := by decide +kernel
  have hne : diagram.graph.nodes ≠ [] := List.cons_ne_nil _ _
  have hends : (Engine.Request.ofGraph g).ends? = .ok [(0, 1), (0, 1), (1, 1), (1, 2)] := by
    decide +kernel
  have harcs : (Engine.Numbering.ofLinks (Engine.Request.ofGraph g).isFixed
      [(0, 1), (0, 1), (1, 1), (1, 2)]).arcs = [(0, 1)] := by decide +kernel
  have hlists : layering.Lists (Engine.Slots.effort {}) [(0, 1)] := ⟨_, rfl, by decide⟩
  rcases read_flowchart_planned layering {} {} false source diagram older hread hne (by
    intro links hlinks
    rw [← Except.ok.inj (hends.symm.trans hlinks), harcs]
    exact fun _ => hlists) with ⟨_, _, _, hused, _, hpoints⟩
  refine ⟨?_, hne, hends, hlists, hused, hpoints⟩
  rw [hread]
  rfl

end Flowchart
