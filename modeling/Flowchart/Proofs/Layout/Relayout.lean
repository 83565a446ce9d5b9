import Flowchart.Proofs.Layout.Clearance
import Flowchart.Proofs.Session.Pins

/-!
# Laying Out Again

After a layout and some drags there are two ways to the next drawing. The graph
at hand can be laid out as it is, with the sizes and the routes of the drawing
before, or the text is read again and only the pins are carried over. Nothing
tells the two apart afterwards.

What a layout looks at is put into one relation. `Node.Alike` leaves out the
position of a node that is not pinned, and of its size it keeps what a request
asks for, which is the size of the shape if the node has none. The layered
engine repeats sizes as they were asked for, so alike graphs have one drawing,
by plan or on the grid, and this is where the engine matters: one that answers
with other sizes would tell a node with a size of its own from one without.

That the two graphs are alike comes down to one fact about each node, which a
layout establishes and a drag preserves. `Node.LaidFrom` says that a node has
its position, and as its size what was asked for, and that nothing but a pin
was added.

## Main definitions

* `Node.Alike`, `Graph.Alike`: What a layout looks at is the same.
* `Node.LaidFrom`: A node after a layout and any number of drags.

## Theorems

* `Engine.Plan.apply_congr`, `Grid.layout_congr`: Alike graphs have the same drawing
  either way.
* `layered_layout_congr`: Alike graphs are laid out alike.
* `Graph.laidFrom_layout`, `Graph.LaidFrom.drag`: Where laid out nodes come
  from.
* `Graph.LaidFrom.alike_pinsFrom`: Carried pins make a graph alike to the one
  they come from.
* `relayout_agrees`: Both ways lead to the same drawing.
-/

namespace Flowchart

namespace Row

variable {α β γ : Type}

/-- Partners that are mapped alike at every place give the same row. -/
theorem map_zipIdx_eq_of_forall₂ {R : α → β → Prop} {xs : List α} {ys : List β}
    (h : List.Forall₂ R xs ys) (f : α → Nat → γ) (f' : β → Nat → γ)
    (hf : ∀ x y i, R x y → f x i = f' y i) :
    (xs.zipIdx.map fun (x, i) => f x i) = ys.zipIdx.map fun (y, i) => f' y i := by
  refine List.ext_getElem ?_ ?_
  · simp only [List.length_map, List.length_zipIdx, h.length_eq]
  · intro i hi hi'
    simp only [List.length_map, List.length_zipIdx] at hi hi'
    simp only [List.getElem_map, List.getElem_zipIdx]
    exact hf _ _ _ (h.get hi hi')

end Row

/-- The nodes are the same to a layout. -/
structure Node.Alike (n m : Node) : Prop where
  content : n.unplaced = m.unplaced
  size : n.effectiveSize = m.effectiveSize
  pin : n.pinnedPosition = m.pinnedPosition

/-- The graphs are the same to a layout. -/
structure Graph.Alike (g h : Graph) : Prop where
  nodes : List.Forall₂ Node.Alike g.nodes h.nodes
  edges : g.edges.map Edge.unrouted = h.edges.map Edge.unrouted

/-- The node `m` is `n` after a layout and any number of drags. -/
structure Node.LaidFrom (n m : Node) : Prop where
  content : { m.unplaced with pinned := n.pinned } = n.unplaced
  pinned : n.pinned = true → m.pinned = true
  position : m.position.isSome = true
  size : m.size = some n.effectiveSize

/-! ## Alike nodes and edges -/

namespace Node.Alike

variable {n m : Node}

theorem id_eq (h : n.Alike m) : n.id = m.id := by
  have hid : n.unplaced.id = m.unplaced.id := by rw [h.content]
  exact hid

theorem item_eq (h : n.Alike m) : Engine.Request.item n = Engine.Request.item m := by
  have hlabel : n.unplaced.label = m.unplaced.label := by rw [h.content]
  change n.label = m.label at hlabel
  rw [Engine.Request.item, Engine.Request.item, h.id_eq, hlabel, h.size, h.pin]

/-- A place is all that tells alike nodes apart. -/
theorem placed_eq (h : n.Alike m) (position : Point) (size : Size) :
    n.placed position size = m.placed position size := by
  have hplaced : n.unplaced.placed position size = m.unplaced.placed position size := by
    rw [h.content]
  exact hplaced

/-- A placement of the size that was asked for makes the same of alike nodes. -/
theorem node_eq (h : n.Alike m) {placement : Engine.Placement}
    (hsize : placement.size = n.effectiveSize) :
    Engine.Plan.node n placement = Engine.Plan.node m placement := by
  unfold Engine.Plan.node
  rw [h.pin]
  -- A free node takes the size of its placement, and a pinned one keeps its own, which is the same.
  cases m.pinnedPosition with
  | none =>
      dsimp only
      rw [h.placed_eq]
  | some q =>
      dsimp only
      have hn : n.size.getD placement.size = n.effectiveSize := by
        rw [hsize, n.getD_effectiveSize]
      have hm : m.size.getD placement.size = n.effectiveSize := by
        rw [hsize, h.size, m.getD_effectiveSize]
      rw [hn, hm, h.placed_eq]

end Node.Alike

/-- Edges that differ in their routes alone give the same row, if routes do not
    matter. -/
theorem Edge.map_zipIdx_congr {γ : Type} {es es' : List Edge}
    (h : es.map unrouted = es'.map unrouted) (f : Edge → Nat → γ)
    (hf : ∀ e i, f e.unrouted i = f e i) :
    (es.zipIdx.map fun (e, i) => f e i) = es'.zipIdx.map fun (e, i) => f e i := by
  have hfree : ∀ es : List Edge,
      (es.zipIdx.map fun (e, i) => f e i) = (es.map unrouted).zipIdx.map fun (e, i) => f e i := by
    intro es
    rw [List.zipIdx_map, List.map_map]
    exact List.map_congr_left fun p _ => (hf p.1 p.2).symm
  rw [hfree es, hfree es', h]

theorem Graph.isEmpty_congr {g h : Graph} (hlength : g.nodes.length = h.nodes.length) :
    g.isEmpty = h.isEmpty := by
  rw [isEmpty, isEmpty, Bool.eq_iff_iff, List.isEmpty_iff_length_eq_zero,
    List.isEmpty_iff_length_eq_zero, hlength]

namespace Graph.Alike

variable {g h : Graph}

/-- An engine is asked the same about alike graphs. -/
theorem request_eq (halike : g.Alike h) : Engine.Request.ofGraph g = Engine.Request.ofGraph h := by
  have hitems : h.nodes.map Engine.Request.item = g.nodes.map Engine.Request.item :=
    Row.map_eq_of_forall₂ halike.nodes _ fun _ _ hn => hn.item_eq.symm
  have hlinks := Edge.map_zipIdx_congr halike.edges Engine.Request.link fun _ _ => rfl
  rw [Engine.Request.ofGraph, Engine.Request.ofGraph, hitems, hlinks]

end Graph.Alike

/-! ## Alike drawings -/

namespace Engine.Plan

/-- The plan places nodes in the sizes that are asked for. -/
def KeepsSizes (p : Plan) (ns : List Node) : Prop :=
  ∀ n ∈ ns, ∀ placement, p.placement? n.id = some placement → placement.size = n.effectiveSize

theorem nodes_congr {p : Plan} {ns ms : List Node} (h : List.Forall₂ Node.Alike ns ms)
    (hsizes : p.KeepsSizes ns) : p.nodes ns = p.nodes ms := by
  induction h with
  | nil => rfl
  | @cons n m ns ms hnm _ ih =>
      have hhead : ∀ placement, p.placement? n.id = some placement →
          node n placement = node m placement :=
        fun placement hp => hnm.node_eq (hsizes n List.mem_cons_self placement hp)
      have htail := ih fun x hx => hsizes x (List.mem_cons_of_mem n hx)
      unfold nodes at htail ⊢
      rw [List.mapM_cons, List.mapM_cons, htail, ← hnm.id_eq]
      -- Alike nodes have one id, and so one placement.
      cases hp : p.placement? n.id with
      | none => rfl
      | some placement =>
          dsimp only
          rw [hhead placement hp]

theorem apply_congr {p : Plan} {g h : Graph} (halike : g.Alike h) (hsizes : p.KeepsSizes g.nodes)
    (padding : Float32) : p.apply g padding = p.apply h padding := by
  have hedges := Edge.map_zipIdx_congr halike.edges p.edge fun _ _ => rfl
  rw [apply, apply, nodes_congr halike.nodes hsizes, hedges]

end Engine.Plan

/-- The room that pinned nodes need on a grid is a matter of their pins. -/
theorem Grid.pinnedBoxes_congr (grid : Grid) {ns ms : List Node}
    (h : List.Forall₂ (fun n m => n.pinnedPosition = m.pinnedPosition) ns ms) :
    grid.pinnedBoxes ns = grid.pinnedBoxes ms := by
  have hpins : ms.map Node.pinnedPosition = ns.map Node.pinnedPosition :=
    Row.map_eq_of_forall₂ h _ fun _ _ hpin => hpin.symm
  have hof : ∀ ns : List Node, grid.pinnedBoxes ns =
      (ns.map Node.pinnedPosition).filterMap fun pin =>
        pin.map fun position => .ofTopLeft position grid.nodeSize := by
    intro ns
    rw [List.filterMap_map]
    rfl
  rw [hof, hof, hpins]

theorem Grid.layout_congr (grid : Grid) {g h : Graph} (halike : g.Alike h) :
    grid.layout g = grid.layout h := by
  have hnodes := Row.map_zipIdx_eq_of_forall₂ halike.nodes
    (fun n i => n.placed (grid.position n i) grid.nodeSize)
    (fun n i => n.placed (grid.position n i) grid.nodeSize) fun n m i hnm => by
      rw [Grid.position, Grid.position, hnm.pin, hnm.placed_eq]
  have hboxes : grid.pinnedBoxes g.nodes = grid.pinnedBoxes h.nodes :=
    grid.pinnedBoxes_congr (halike.nodes.imp fun _ _ hn => hn.pin)
  have hedges : (g.edges.map fun e => { e with points := none }) =
      h.edges.map fun e => { e with points := none } := halike.edges
  rw [Grid.layout, Grid.layout, hnodes, hboxes, hedges, halike.nodes.length_eq]

/-- The layered engine places nodes in the sizes that were asked for. -/
theorem Engine.Layered.keepsSizes {layering : Layering} {options : Options} {plan : Plan}
    {g : Graph} (hnodup : (g.nodes.map Node.id).Nodup)
    (h : Layered.plan layering options (.ofGraph g) = .ok plan) : plan.KeepsSizes g.nodes :=
  fun _ hn _ hplacement => (placement_clear hnodup h hn hplacement).1

/-- Alike graphs are laid out alike, whichever way the layout goes. -/
theorem layered_layout_congr (layering : Layering) (options : Engine.Options) (grid : Grid)
    {g h : Graph} (hnodup : (g.nodes.map Node.id).Nodup) (halike : g.Alike h) :
    g.layout (Engine.layered layering) options grid =
      h.layout (Engine.layered layering) options grid := by
  -- The plan is one and the same, and the nodes are looked at when it is applied.
  have hreconcile :
      Layout.reconcile (Engine.layered layering options (.ofGraph g)) options.padding g =
        Layout.reconcile (Engine.layered layering options (.ofGraph g)) options.padding h := by
    unfold Engine.layered
    cases hplan : Engine.Layered.plan layering options (.ofGraph g) with
    | error failure => rfl
    | ok plan =>
        exact Engine.Plan.apply_congr halike (Engine.Layered.keepsSizes hnodup hplan)
          options.padding
  unfold Graph.layout Layout.run
  rw [← Graph.isEmpty_congr halike.nodes.length_eq, ← halike.request_eq]
  by_cases hempty : g.isEmpty = true
  · rw [if_pos hempty, if_pos hempty]
  · rw [if_neg hempty, if_neg hempty]
    dsimp only
    rw [← hreconcile]
    cases Layout.reconcile (Engine.layered layering options (.ofGraph g)) options.padding g with
    | ok drawing => rfl
    | error failure => exact grid.layout_congr halike

/-! ## Laid out nodes -/

namespace Node

theorem laidFrom_placed (n : Node) (position : Point) :
    n.LaidFrom (n.placed position n.effectiveSize) :=
  ⟨rfl, fun hpinned => hpinned, rfl, rfl⟩

namespace LaidFrom

variable {n m : Node}

theorem id_eq (h : n.LaidFrom m) : m.id = n.id := by
  have hid : ({ m.unplaced with pinned := n.pinned } : Node).id = n.unplaced.id := by rw [h.content]
  exact hid

/-- A drag adds a pin and keeps the rest. -/
theorem pinAt (h : n.LaidFrom m) (p : Point) : n.LaidFrom (m.pinAt p) :=
  ⟨h.content, fun _ => rfl, rfl, h.size⟩

theorem modifyFirst {ns ms : List Node} (h : List.Forall₂ LaidFrom ns ms) (d : Drag) :
    List.Forall₂ LaidFrom ns (Graph.modifyFirst d.node (·.pinAt d.position) ms) := by
  induction h with
  | nil => exact .nil
  | @cons n m ns ms hnm hrest ih =>
      rw [Graph.modifyFirst]
      by_cases hid : m.id = d.node
      · rw [if_pos hid]
        exact .cons (hnm.pinAt d.position) hrest
      · rw [if_neg hid]
        exact .cons hnm ih

/-- A node with the pin of what became of it is the same to a layout. -/
theorem alike (h : n.LaidFrom m) :
    m.Alike (n.withPin m.pinnedPosition) := by
  have hsize : m.effectiveSize = n.effectiveSize := by
    rw [effectiveSize, h.size]
    rfl
  rcases Option.isSome_iff_exists.mp h.position with ⟨p, hp⟩
  cases hm : m.pinned with
  | true =>
      -- What is pinned is pinned where it stands.
      have hpin : m.pinnedPosition = some p := by
        rw [pinnedPosition, if_pos hm, hp]
      rw [hpin]
      refine ⟨?_, hsize, hpin⟩
      have hcontent : ({ m.unplaced with pinned := true } : Node) =
          { n.unplaced with pinned := true } := by
        rw [← h.content]
      have hself : ({ m.unplaced with pinned := true } : Node) = m.unplaced := by
        rw [← hm]
        rfl
      exact hself.symm.trans hcontent
  | false =>
      -- What is free now was free from the start.
      have hfree : n.pinned = false := by
        by_contra hn
        rw [Bool.not_eq_false] at hn
        rw [h.pinned hn] at hm
        cases hm
      have hpin : m.pinnedPosition = none := by
        rw [pinnedPosition, hm]
        rfl
      rw [hpin]
      refine ⟨?_, hsize, hpin.trans (pinnedPosition_withPin hfree none).symm⟩
      rw [withPin, ← h.content, hfree, ← hm]
      rfl

end LaidFrom

end Node

namespace Graph

/-- The graph `h` is `g` after a layout and any number of drags. -/
structure LaidFrom (g h : Graph) : Prop where
  nodes : List.Forall₂ Node.LaidFrom g.nodes h.nodes
  edges : h.edges.map Edge.unrouted = g.edges.map Edge.unrouted

/-- A drawing that the layered engine made, and not the grid, has what was asked
    for. -/
theorem laidFrom_layout {layering : Layering} {options : Engine.Options} {grid : Grid} {g : Graph}
    (hne : g.nodes ≠ []) (hnodup : (g.nodes.map Node.id).Nodup)
    (hused : (Layout.run (Engine.layered layering) options grid g).failure = none) :
    g.LaidFrom (g.layout (Engine.layered layering) options grid).graph := by
  refine ⟨?_, Layout.run_unrouted (Engine.layered layering) options grid g hne⟩
  rcases Layout.run_cases (Engine.layered layering) options grid g hne with
    ⟨plan, hplan, happly, _⟩ | ⟨failure, _, _, hfailure⟩
  · rw [Engine.layered_eq_planned_iff] at hplan
    have hsizes := Engine.Layered.keepsSizes hnodup hplan
    have hrow := (Engine.Plan.apply_eq_ok happly).1
    have hboth := (List.forall₂_and_left _ _).mpr ⟨fun n hn => hsizes n hn, hrow⟩
    -- Free or pinned, the node is placed with the size that was asked for.
    refine hboth.imp ?_
    rintro n m ⟨hsize, placement, hplacement, rfl⟩
    have hasked := hsize placement hplacement
    cases hq : n.pinnedPosition with
    | none =>
        rw [Engine.Plan.node_of_free n placement hq, hasked]
        exact n.laidFrom_placed _
    | some q =>
        rw [Engine.Plan.node_of_pinned n placement hq, hasked, n.getD_effectiveSize]
        exact n.laidFrom_placed _
  · exact absurd (hused.symm.trans hfailure) (by simp only [reduceCtorEq, not_false_eq_true])

theorem edges_drag (g : Graph) (d : Drag) : (g.drag d).edges = g.edges := by
  unfold drag drag?
  split <;> rfl

theorem LaidFrom.drag {g h : Graph} (hlaid : g.LaidFrom h) (d : Drag) : g.LaidFrom (h.drag d) := by
  refine ⟨?_, ?_⟩
  · rw [nodes_drag]
    exact Node.LaidFrom.modifyFirst hlaid.nodes d
  · rw [edges_drag]
    exact hlaid.edges

theorem LaidFrom.drags {g h : Graph} (hlaid : g.LaidFrom h) (ds : List Drag) :
    g.LaidFrom (ds.foldl Graph.drag h) := by
  induction ds generalizing h with
  | nil => exact hlaid
  | cons d ds ih => exact ih (hlaid.drag d)

/-- After a layout ids are still distinct, and every node has a position. -/
theorem LaidFrom.wellPinned {g h : Graph} (hlaid : g.LaidFrom h)
    (hnodup : (g.nodes.map Node.id).Nodup) : h.WellPinned where
  nodup := by
    have hids : h.nodes.map Node.id = g.nodes.map Node.id :=
      Row.map_eq_of_forall₂ hlaid.nodes Node.id fun _ _ hn => hn.id_eq
    rw [hids]
    exact hnodup
  position := by
    intro m hm _
    rcases Row.exists_left_of_mem hlaid.nodes hm with ⟨n, _, hn⟩
    exact hn.position

/-- The pin that is carried over from a node is its own. -/
theorem WellPinned.pin?_eq {h : Graph} (hwell : h.WellPinned) {m : Node} (hm : m ∈ h.nodes) :
    h.pin? m.id = m.pinnedPosition := by
  refine Option.ext fun p => ?_
  rw [hwell.pin?_eq_some_iff]
  constructor
  · rintro ⟨m', hm', hid, hpin⟩
    rw [← hwell.eq_of_id hm' hm hid]
    exact hpin
  · intro hpin
    exact ⟨m, hm, rfl, hpin⟩

/-- The graph from before with the pins of what became of it is the same to a
    layout. -/
theorem LaidFrom.alike_pinsFrom {g h : Graph} (hlaid : g.LaidFrom h)
    (hnodup : (g.nodes.map Node.id).Nodup) : h.Alike (g.pinsFrom h) := by
  refine ⟨?_, hlaid.edges⟩
  have hwell := hlaid.wellPinned hnodup
  have hrow : List.Forall₂ (fun m n => h.pin? m.id = m.pinnedPosition ∧ n.LaidFrom m)
      h.nodes g.nodes :=
    (List.forall₂_and_left _ _).mpr ⟨fun _ hm => hwell.pin?_eq hm, hlaid.nodes.flip⟩
  rw [nodes_pinsFrom, List.forall₂_map_right_iff]
  refine hrow.imp ?_
  rintro m n ⟨hpin, hnm⟩
  rw [← hnm.id_eq, hpin]
  exact hnm.alike

/-- The pin that a layout had to keep is the one that it leaves. -/
theorem WellPinned.pin?_of_settled {g h : Graph} (hwell : g.WellPinned)
    (hsettled : List.Forall₂ Node.SettledAs g.nodes h.nodes) {n : Node} (hn : n ∈ g.nodes) :
    h.pin? n.id = n.pinnedPosition := by
  rcases Row.exists_right_of_mem hsettled hn with ⟨m, hm, hnm⟩
  rw [← hnm.id_eq, (hwell.of_settled hsettled).pin?_eq hm,
    hnm.pinnedPosition_eq (hwell.position n hn)]

/-- So carrying the pins back changes nothing. -/
theorem pinsFrom_of_settled {g h : Graph} (hwell : g.WellPinned)
    (hsettled : List.Forall₂ Node.SettledAs g.nodes h.nodes) : g.pinsFrom h = g := by
  have hsame : ∀ n ∈ g.nodes, n.withPin (h.pin? n.id) = n := by
    intro n hn
    rw [hwell.pin?_of_settled hsettled hn, n.withPin_pinnedPosition]
  have hnodes : (g.pinsFrom h).nodes = g.nodes := by
    rw [nodes_pinsFrom, List.map_congr_left hsame, List.map_id']
  exact congrArg (Graph.mk · g.edges) hnodes

end Graph

/-- A graph without nodes is drawn as an empty sheet, whatever its edges. -/
theorem Graph.layout_eq_of_nil {g : Graph} (hnil : g.nodes = []) (engine : Engine)
    (options : Engine.Options) (grid : Grid) :
    g.layout engine options grid = ⟨.empty, Layout.emptySheet⟩ := by
  have hempty : g.isEmpty = true := by
    rw [isEmpty, hnil]
    rfl
  rw [layout, Layout.run, if_pos hempty]

theorem Graph.map_id_foldl_drag (g : Graph) (ds : List Drag) :
    (ds.foldl drag g).nodes.map Node.id = g.nodes.map Node.id := by
  induction ds generalizing g with
  | nil => rfl
  | cons d ds ih => rw [List.foldl_cons, ih, map_id_drag]

/-- Both ways to the next drawing agree. After a layout that the layered engine
    made and any drags, laying out the graph at hand and laying out the graph
    from before with the pins carried over give the same drawing, whichever way
    that layout goes and whatever it is told. A layout is repeated exactly if
    there was no drag and no node was pinned nowhere. -/
theorem relayout_agrees (layering : Layering) (options : Engine.Options) (grid : Grid) (g : Graph)
    (hnodup : (g.nodes.map Node.id).Nodup)
    (hused : (Layout.run (Engine.layered layering) options grid g).failure = none) :
    let drawing := g.layout (Engine.layered layering) options grid
    (∀ (drags : List Drag) (options' : Engine.Options) (grid' : Grid),
      let h := drags.foldl Graph.drag drawing.graph
      h.layout (Engine.layered layering) options' grid' =
        (g.pinsFrom h).layout (Engine.layered layering) options' grid') ∧
      ((∀ n ∈ g.nodes, n.pinned = true → n.position.isSome = true) →
        drawing.graph.layout (Engine.layered layering) options grid = drawing) := by
  intro drawing
  have hways : ∀ (drags : List Drag) (options' : Engine.Options) (grid' : Grid),
      (drags.foldl Graph.drag drawing.graph).layout (Engine.layered layering) options' grid' =
        (g.pinsFrom (drags.foldl Graph.drag drawing.graph)).layout (Engine.layered layering)
          options' grid' := by
    intro drags options' grid'
    by_cases hne : g.nodes = []
    · -- The sheet is empty, and neither drags nor pins bring a node to it.
      have hids : (drags.foldl Graph.drag drawing.graph).nodes.map Node.id = [] := by
        rw [Graph.map_id_foldl_drag]
        exact congrArg (fun d : Drawing => d.graph.nodes.map Node.id)
          (Graph.layout_eq_of_nil hne (Engine.layered layering) options grid)
      have hpins : (g.pinsFrom (drags.foldl Graph.drag drawing.graph)).nodes = [] := by
        rw [Graph.pinsFrom, hne]
        rfl
      rw [Graph.layout_eq_of_nil (List.map_eq_nil_iff.mp hids), Graph.layout_eq_of_nil hpins]
    · have hlaid := (Graph.laidFrom_layout hne hnodup hused).drags drags
      exact layered_layout_congr layering options' grid' (hlaid.wellPinned hnodup).nodup
        (hlaid.alike_pinsFrom hnodup)
  refine ⟨hways, fun hsome => ?_⟩
  -- Without drags, the pins of the drawing are those of the graph.
  have hsame : g.pinsFrom drawing.graph = g :=
    Graph.pinsFrom_of_settled ⟨hnodup, hsome⟩
      (Layout.run_settled (Engine.layered layering) options grid g)
  have hagain := hways [] options grid
  rw [List.foldl_nil, hsame] at hagain
  exact hagain

/-- A node that was dropped on another pushes it aside in the next layout, also
    if only its pin is left by then, and the layout after that changes nothing.
    The node was pinned nowhere, and the first layout pinned it. -/
theorem relayout_agrees_push :
    let g : Graph := ⟨[{ Node.named "P" with pinned := true }, .named "B"], [.between "B" "B"]⟩
    let engine : Engine := Engine.layered fun _ _ => .ok []
    let h := (g.layout engine {} {}).graph.drag ⟨"P", ⟨60, 60⟩⟩
    (g.nodes.map Node.id).Nodup ∧ (Layout.run engine {} {} g).failure = none ∧
      ((g.layout engine {} {}).graph.node? "B").map Node.position = some (some ⟨250, 50⟩) ∧
      ((h.layout engine {} {}).graph.node? "B").map Node.position = some (some ⟨260, 50⟩) ∧
      h.layout engine {} {} = (g.pinsFrom h).layout engine {} {} ∧
      (∀ n ∈ h.nodes, n.pinned = true → n.position.isSome = true) ∧
      (h.layout engine {} {}).graph.layout engine {} {} = h.layout engine {} {} := by
  intro g engine h
  have hnodup : (g.nodes.map Node.id).Nodup := by decide
  have hused : (Layout.run engine {} {} g).failure = none := by decide +kernel
  have hnodup' : (h.nodes.map Node.id).Nodup := by decide +kernel
  have hused' : (Layout.run engine {} {} h).failure = none := by decide +kernel
  have hsome : ∀ n ∈ h.nodes, n.pinned = true → n.position.isSome = true := by decide +kernel
  refine ⟨hnodup, hused, by decide +kernel, by decide +kernel, ?_, hsome, ?_⟩
  · exact (relayout_agrees _ {} {} g hnodup hused).1 [⟨"P", ⟨60, 60⟩⟩] {} {}
  · exact (relayout_agrees _ {} {} h hnodup' hused').2 hsome

end Flowchart
