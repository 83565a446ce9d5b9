import Flowchart.Proofs.Layout.Relayout

/-!
# After a Failure

An engine that failed may answer the next time, and is then asked about a graph
that was drawn on the grid. What is left of the grid in that graph is a matter
of what a layout looks at. The positions of the cells are not looked at, since
only pinned nodes keep theirs, and the grid had left those where they were
pinned. The grid took the routes away, and they would not be looked at anyway.
The sizes stay: the grid gives every node the same one, and from then on it is
the node's own.

So the layout after a failure is that of the graph from before in which every
node has the size of the grid. It is the layout of the graph itself if the
nodes would have had that size anyway, and otherwise it is not, because the
engine repeats sizes as they were asked for.

## Main definitions

* `Node.resized`, `Graph.resized`: All nodes have one size of their own.

## Theorems

* `Grid.alike_layout`: What was drawn on a grid is the same to a layout as the
  resized graph.
* `layout_after_grid`: The layout after a failure.
* `layout_after_grid_differs`: A circle is no circle afterwards.
-/

namespace Flowchart

/-- The node with a size of its own. -/
def Node.resized (size : Size) (n : Node) : Node := { n with size := some size }

/-- The graph with all nodes of one size. -/
def Graph.resized (g : Graph) (size : Size) : Graph :=
  { g with nodes := g.nodes.map (.resized size) }

namespace Node

theorem map_id_resized (ns : List Node) (size : Size) :
    (ns.map (resized size)).map Node.id = ns.map Node.id := by
  rw [List.map_map]
  rfl

/-- A node that was put somewhere is the same to a layout as one that was only
    given its size, if it was pinned somewhere or not at all. -/
theorem SettledAs.alike_resized {n m : Node} (h : n.SettledAs m) {size : Size}
    (hsize : m.size = some size) (hposition : n.pinned = true → n.position.isSome = true) :
    m.Alike (n.resized size) := by
  refine ⟨h.unplaced_eq, ?_, h.pinnedPosition_eq hposition⟩
  rw [effectiveSize, hsize]
  rfl

/-- A size that a node would have had anyway makes no difference. -/
theorem alike_resized {n : Node} {size : Size} (h : n.effectiveSize = size) :
    (n.resized size).Alike n :=
  ⟨rfl, h.symm, rfl⟩

end Node

/-- What was drawn on a grid is the same to a layout as the graph in which all
    nodes have the size of the grid. -/
theorem Grid.alike_layout (grid : Grid) {g : Graph}
    (hposition : ∀ n ∈ g.nodes, n.pinned = true → n.position.isSome = true) :
    (grid.layout g).graph.Alike (g.resized grid.nodeSize) := by
  refine ⟨?_, grid.layout_unrouted g⟩
  have hsizes : ∀ m ∈ (grid.layout g).graph.nodes, m.size = some grid.nodeSize := by
    intro m hm
    rcases List.mem_map.mp hm with ⟨_, _, rfl⟩
    rfl
  rw [Graph.resized, List.forall₂_map_right_iff]
  have hrow := (List.forall₂_and_left _ _).mpr ⟨hsizes,
    ((List.forall₂_and_left _ _).mpr ⟨hposition, grid.layout_settled g⟩).flip⟩
  exact hrow.imp fun _ _ h => h.2.2.alike_resized h.1 h.2.1

/-- A graph whose nodes all have a size is the same to a layout after it was
    given to them. -/
theorem Graph.alike_resized {g : Graph} {size : Size}
    (h : ∀ n ∈ g.nodes, n.effectiveSize = size) : (g.resized size).Alike g := by
  refine ⟨?_, rfl⟩
  rw [Graph.resized, List.forall₂_map_left_iff, List.forall₂_same]
  exact fun n hn => Node.alike_resized (h n hn)

/-- Where all nodes have the size of the grid, they have it after a layout,
    whichever way it goes. -/
theorem size_of_layered_layout (layering : Layering) (options : Engine.Options) (grid : Grid)
    {g : Graph} (hnodup : (g.nodes.map Node.id).Nodup)
    (hsize : ∀ n ∈ g.nodes, n.effectiveSize = grid.nodeSize) :
    ∀ m ∈ (g.layout (Engine.layered layering) options grid).graph.nodes,
      m.size = some grid.nodeSize := by
  intro m hm
  have hsettled := Layout.run_settled (Engine.layered layering) options grid g
  rcases Row.exists_left_of_mem hsettled hm with ⟨n₀, hn₀, _⟩
  have hne := List.ne_nil_of_mem hn₀
  -- From the engine nodes have the size that was asked for, and on the grid that of the cells.
  rcases Layout.run_cases (Engine.layered layering) options grid g hne with
    ⟨_, _, _, hused⟩ | ⟨_, _, hgrid, _⟩
  · have hlaid := Graph.laidFrom_layout hne hnodup hused
    rcases Row.exists_left_of_mem hlaid.nodes hm with ⟨n, hn, hnm⟩
    rw [hnm.size, hsize n hn]
  · rw [Graph.layout, hgrid] at hm
    rcases List.mem_map.mp hm with ⟨_, _, rfl⟩
    rfl

/-- The layout after a failure. The graph that was drawn on a grid is laid out
    like the graph from before with the size of the grid for all nodes, so that
    neither positions nor routes leave a trace. If all nodes had that size
    anyway, it is laid out like the graph from before; and where the engine
    answers for that one, only then. -/
theorem layout_after_grid (layering : Layering) (options : Engine.Options) (grid again : Grid)
    (g : Graph) (hne : g.nodes ≠ []) (hnodup : (g.nodes.map Node.id).Nodup)
    (hposition : ∀ n ∈ g.nodes, n.pinned = true → n.position.isSome = true) :
    let engine := Engine.layered layering
    let drawn := (grid.layout g).graph
    drawn.layout engine options again = (g.resized grid.nodeSize).layout engine options again ∧
      ((∀ n ∈ g.nodes, n.effectiveSize = grid.nodeSize) →
        drawn.layout engine options again = g.layout engine options again) ∧
      ((Layout.run engine options grid g).failure = none →
        drawn.layout engine options grid = g.layout engine options grid →
        ∀ n ∈ g.nodes, n.effectiveSize = grid.nodeSize) := by
  intro engine drawn
  have halike := grid.alike_layout hposition
  have hids : drawn.nodes.map Node.id = g.nodes.map Node.id :=
    Graph.map_id_of_settled (grid.layout_settled g)
  have hnodup' : (drawn.nodes.map Node.id).Nodup := by
    rw [hids]
    exact hnodup
  have hnodup'' : ((g.resized grid.nodeSize).nodes.map Node.id).Nodup := by
    rw [Graph.resized, Node.map_id_resized]
    exact hnodup
  -- All that the layout reads of the drawn graph, the resized one has too.
  have hresized := layered_layout_congr layering options again hnodup' halike
  refine ⟨hresized, fun hsize => ?_, fun hused hsame n hn => ?_⟩
  · exact hresized.trans
      (layered_layout_congr layering options again hnodup'' (Graph.alike_resized hsize))
  · -- One and the same drawing has the sizes that `g` asks for and those of the grid.
    have hlaid := Graph.laidFrom_layout hne hnodup hused
    rcases Row.exists_right_of_mem hlaid.nodes hn with ⟨m, hm, hnm⟩
    have hsizes : ∀ x ∈ drawn.nodes, x.effectiveSize = grid.nodeSize := by
      intro x hx
      rcases List.mem_map.mp hx with ⟨_, _, rfl⟩
      rfl
    have hgrid := size_of_layered_layout layering options grid hnodup' hsizes m (by
      rw [hsame]
      exact hm)
    exact Option.some.inj (hnm.size.symm.trans hgrid)

/-- A circle has the size of the grid after a failure, and so it is laid out as
    a smaller or larger box than before. -/
theorem layout_after_grid_differs :
    let g : Graph := ⟨[{ Node.named "A" with shape := .circle }], []⟩
    let engine : Engine := Engine.layered Layering.standard
    g.nodes ≠ [] ∧ (g.nodes.map Node.id).Nodup ∧
      (∀ n ∈ g.nodes, n.pinned = true → n.position.isSome = true) ∧
      ((g.layout engine {} {}).graph.node? "A").bind Node.size = some ⟨80, 80⟩ ∧
      ((Grid.layout {} g).graph.layout engine {} {}).graph.nodes.map Node.size =
        [some ⟨120, 60⟩] ∧
      (Grid.layout {} g).graph.layout engine {} {} ≠ g.layout engine {} {} := by
  intro g engine
  exact ⟨List.cons_ne_nil _ _, by decide, by decide, by decide +kernel, by decide +kernel,
    by decide +kernel⟩

/-- On a grid of cells for circles, circles are as before after a failure,
    though one was pinned and had its size from the start, and the other one was
    moved. On the usual grid they are not. -/
theorem layout_after_grid_circles :
    let circle (id : String) : Node := { Node.named id with shape := .circle }
    let g : Graph :=
      ⟨[circle "A", { (circle "P").pinAt ⟨60, 60⟩ with size := some ⟨80, 80⟩ }],
        [.between "A" "P", .between "A" "A"]⟩
    let engine : Engine := Engine.layered fun _ _ => .ok []
    let cells : Grid := { nodeSize := ⟨80, 80⟩ }
    g.nodes ≠ [] ∧ (g.nodes.map Node.id).Nodup ∧
      (∀ n ∈ g.nodes, n.pinned = true → n.position.isSome = true) ∧
      (Layout.run engine {} {} g).failure = none ∧
      (g.layout engine {} {}).graph.nodes.map Node.position = [some ⟨220, 50⟩, some ⟨60, 60⟩] ∧
      (cells.layout g).graph.nodes.map Node.position = [some ⟨50, 50⟩, some ⟨60, 60⟩] ∧
      (cells.layout g).graph.layout engine {} {} = g.layout engine {} {} ∧
      (Grid.layout {} g).graph.layout engine {} {} =
        (g.resized ⟨120, 60⟩).layout engine {} {} ∧
      (Grid.layout {} g).graph.layout engine {} {} ≠ g.layout engine {} {} := by
  intro circle g engine cells
  have hne : g.nodes ≠ [] := List.cons_ne_nil _ _
  have hnodup : (g.nodes.map Node.id).Nodup := by decide
  have hposition : ∀ n ∈ g.nodes, n.pinned = true → n.position.isSome = true := by decide
  have hused : (Layout.run engine {} {} g).failure = none := by decide +kernel
  rcases layout_after_grid _ {} cells {} g hne hnodup hposition with ⟨_, hsame, _⟩
  rcases layout_after_grid _ {} {} {} g hne hnodup hposition with ⟨hresized, _, honly⟩
  refine ⟨hne, hnodup, hposition, hused, by decide +kernel, by decide +kernel,
    hsame (by decide +kernel), hresized, fun heq => ?_⟩
  exact absurd (honly hused heq) (by decide +kernel)

end Flowchart
