import Flowchart.Proofs.Engine.Sweep
import Flowchart.Proofs.Layout.Content
import Mathlib.Data.List.Nodup

/-!
# No Node Ends Under a Pinned One

The sweep of the layered engine keeps boxes clear of each other, but it does so
before the answer goes back to the graph. There each node takes its size from
its placement or from itself, and a pinned one takes nothing of its placement
but perhaps the size. So it has to be shown that the boxes that were kept apart
are the boxes that are drawn: a request asks for the effective size of a node,
the plan repeats it, and a pinned node that has a size of its own was asked for
that one.

Ids have to be distinct here. Of two nodes with one id the plan can place only
one, and both take its place.

## Main definitions

* `Node.box?`: The box that a node takes up, if it was placed.

## Theorems

* `Graph.node?_of_mem`: With distinct ids a node is found by its own.
* `placement_clear`: The plan of the layered engine repeats the size of a node
  and puts it clear of the pinned ones.
* `layered_keeps_clear`: Pinned nodes stay where they are, and nothing that is
  not pinned meets them.
-/

namespace Flowchart

/-- The box that a node takes up, if it was placed. -/
def Node.box? (n : Node) : Option Box :=
  match n.position, n.size with
  | some position, some size => some (.ofTopLeft position size)
  | _, _ => none

theorem Node.box?_placed (n : Node) (position : Point) (size : Size) :
    (n.placed position size).box? = some (.ofTopLeft position size) :=
  rfl

/-- A node's own size is the one that was asked for. -/
theorem Node.getD_effectiveSize (n : Node) : n.size.getD n.effectiveSize = n.effectiveSize := by
  unfold effectiveSize
  cases n.size with
  | none => rfl
  | some size => rfl

/-- Two boxes meet whichever is named first. -/
theorem Box.meets_comm (a b : Box) : a.meets b = b.meets a := by
  unfold meets
  rw [Bool.and_comm (decide (a.minX < b.maxX)), Bool.and_assoc, Bool.and_assoc,
    Bool.and_comm (decide (a.minY < b.maxY))]
  simp only [Bool.and_assoc]

/-- With distinct ids a node is found by its own. -/
theorem Graph.node?_of_mem {g : Graph} (hnodup : (g.nodes.map Node.id).Nodup) {n : Node}
    (hn : n ∈ g.nodes) : g.node? n.id = some n := by
  unfold node?
  cases hfind : g.nodes.find? (·.id == n.id) with
  | none =>
      have hne := List.find?_eq_none.mp hfind n hn
      exact absurd (beq_self_eq_true n.id) hne
  | some m =>
      have hid := List.find?_some hfind
      rw [beq_iff_eq] at hid
      rw [List.inj_on_of_nodup_map hnodup (List.mem_of_find?_eq_some hfind) hn hid]

namespace Engine

namespace Layered

variable {layering : Layering} {options : Options} {r : Request} {plan : Plan}

/-- What the engine answers with: its placements repeat the boxes of the request
    in their order, its routes are made from the places of boxes and from where
    these go, and its size is what it takes to show both. -/
theorem plan_eq_ok_iff :
    Layered.plan layering options r = .ok plan ↔ ∃ links slots ps, r.ends? = .ok links ∧
      Slots.ofRequest layering r links options = .ok slots ∧ positions r slots options = .ok ps ∧
      plan = ⟨(r.items.zip ps).map (fun (item, position) => ⟨item.id, position, item.size⟩),
        routes r links (boxes r ps) options,
        extent (boxes r ps) (routes r links (boxes r ps) options) options.padding⟩ := by
  constructor
  · intro h
    rcases Row.bind_eq_ok_iff.mp h with ⟨links, hlinks, h⟩
    rcases Row.bind_eq_ok_iff.mp h with ⟨slots, hslots, h⟩
    rcases Row.bind_eq_ok_iff.mp h with ⟨ps, hps, h⟩
    exact ⟨links, slots, ps, hlinks, hslots, hps, (Except.ok.inj h).symm⟩
  · rintro ⟨links, slots, ps, hlinks, hslots, hps, rfl⟩
    exact Row.bind_eq_ok_iff.mpr ⟨links, hlinks, Row.bind_eq_ok_iff.mpr ⟨slots, hslots,
      Row.bind_eq_ok_iff.mpr ⟨ps, hps, rfl⟩⟩⟩

/-- The size apart, and where the slots came from. -/
theorem plan_eq_ok (h : Layered.plan layering options r = .ok plan) :
    ∃ links slots ps, r.ends? = .ok links ∧ positions r slots options = .ok ps ∧
      plan.placements = (r.items.zip ps).map (fun (item, position) =>
        ⟨item.id, position, item.size⟩) ∧
      plan.routes = routes r links (boxes r ps) options := by
  rcases plan_eq_ok_iff.mp h with ⟨links, slots, ps, hlinks, _, hps, rfl⟩
  exact ⟨links, slots, ps, hlinks, hps, rfl, rfl⟩

/-- The placement of a node has the size that was asked for, and that of a free
    node is clear of all fixed boxes. -/
theorem placement_clear {g : Graph} (hnodup : (g.nodes.map Node.id).Nodup)
    (h : Layered.plan layering options (.ofGraph g) = .ok plan) {n : Node} (hn : n ∈ g.nodes)
    {placement : Placement} (hp : plan.placement? n.id = some placement) :
    placement.size = n.effectiveSize ∧
      (n.pinnedPosition = none → ∀ b ∈ Sweep.fixedBoxes (.ofGraph g),
        (Box.ofTopLeft placement.position placement.size).meets b = false) := by
  rcases plan_eq_ok h with ⟨_, slots, ps, _, hps, hplacements, _⟩
  have hmem := List.mem_reverse.mp (List.mem_of_find?_eq_some hp)
  have hid := List.find?_some hp
  rw [beq_iff_eq] at hid
  rw [hplacements] at hmem
  rcases List.mem_map.mp hmem with ⟨⟨item, position⟩, hzip, rfl⟩
  rcases List.mem_iff_getElem?.mp hzip with ⟨i, hi⟩
  rcases List.getElem?_zip_eq_some.mp hi with ⟨hitem, hposition⟩
  -- The box at this place was made from the node itself.
  rcases List.mem_map.mp (List.mem_of_getElem? hitem) with ⟨m, hm, rfl⟩
  have heq : m = n := List.inj_on_of_nodup_map hnodup hm hn hid
  rw [heq] at hitem ⊢
  refine ⟨rfl, fun hfree => ?_⟩
  rcases positions_clear hps hitem hfree with ⟨q, hq, hclear⟩
  have hpos : q = position := Option.some.inj (hq.symm.trans hposition)
  rw [hpos] at hclear
  exact hclear

end Layered

/-- The box of a pinned node is one of the fixed boxes. -/
theorem Sweep.mem_fixedBoxes {g : Graph} {n : Node} (hn : n ∈ g.nodes) {q : Point}
    (hq : n.pinnedPosition = some q) :
    Box.ofTopLeft q n.effectiveSize ∈ Sweep.fixedBoxes (.ofGraph g) := by
  refine List.mem_filterMap.mpr ⟨Request.item n, List.mem_map_of_mem hn, ?_⟩
  simp only [Request.item, hq, Option.map_some]

/-- A plan by the layered engine is what `Layered.plan` makes. -/
theorem layered_eq_planned_iff {layering : Layering} {options : Options} {r : Request}
    {plan : Plan} :
    layered layering options r = .planned plan ↔ Layered.plan layering options r = .ok plan := by
  unfold layered
  cases Layered.plan layering options r with
  | error failure => simp only [reduceCtorEq]
  | ok p => simp only [Outcome.planned.injEq, Except.ok.injEq]

end Engine

/-- The layered engine, if its answer is used, leaves every pinned node where it
    is pinned, and no node that is not pinned meets one that is. -/
theorem layered_keeps_clear (layering : Layering) (options : Engine.Options) (grid : Grid)
    (g : Graph) (hnodup : (g.nodes.map Node.id).Nodup)
    (hused : (Layout.run (Engine.layered layering) options grid g).failure = none) :
    let drawing := g.layout (Engine.layered layering) options grid
    ∀ n ∈ g.nodes, ∀ q, n.pinnedPosition = some q →
      ∃ n' b, drawing.graph.node? n.id = some n' ∧ n'.position = some q ∧ n'.box? = some b ∧
        ∀ m ∈ g.nodes, m.pinnedPosition = none →
          ∃ m' c, drawing.graph.node? m.id = some m' ∧ m'.box? = some c ∧
            b.meets c = false ∧ c.meets b = false := by
  intro drawing n hn q hq
  -- The answer was used, and so the drawing is what the plan makes.
  rcases Layout.run_cases (Engine.layered layering) options grid g (List.ne_nil_of_mem hn) with
    ⟨plan, hplan, happly, _⟩ | ⟨failure, _, _, hfailure⟩
  · rw [Engine.layered_eq_planned_iff] at hplan
    have hrow := (Engine.Plan.apply_eq_ok happly).1
    have hids : drawing.graph.nodes.map Node.id = g.nodes.map Node.id :=
      Graph.map_id_of_settled (Layout.run_settled (Engine.layered layering) options grid g)
    have hnodup' : (drawing.graph.nodes.map Node.id).Nodup := by
      rw [hids]
      exact hnodup
    -- What a node became is found by its id.
    have hfound : ∀ m ∈ g.nodes, ∃ placement, plan.placement? m.id = some placement ∧
        drawing.graph.node? m.id = some (Engine.Plan.node m placement).1 := by
      intro m hm
      rcases Row.exists_right_of_mem hrow hm with ⟨m', hm', placement, hplacement, rfl⟩
      refine ⟨placement, hplacement, ?_⟩
      have hnode := Graph.node?_of_mem hnodup' hm'
      rw [(Engine.Plan.node_settledAs m placement).id_eq] at hnode
      exact hnode
    -- The pinned node is drawn with the size that its fixed box had.
    rcases hfound n hn with ⟨placement, hplacement, hnode⟩
    have hsize := (Engine.Layered.placement_clear hnodup hplan hn hplacement).1
    rw [Engine.Plan.node_of_pinned n placement hq, hsize, n.getD_effectiveSize] at hnode
    refine ⟨_, _, hnode, rfl, Node.box?_placed _ _ _, fun m hm hfree => ?_⟩
    -- The free node is clear of the fixed box of the pinned one, and both are drawn as placed.
    rcases hfound m hm with ⟨placement', hplacement', hnode'⟩
    have hclear := (Engine.Layered.placement_clear hnodup hplan hm hplacement').2 hfree _
      (Engine.Sweep.mem_fixedBoxes hn hq)
    rw [Engine.Plan.node_of_free m placement' hfree] at hnode'
    refine ⟨_, _, hnode', Node.box?_placed _ _ _, ?_, hclear⟩
    rw [Box.meets_comm]
    exact hclear
  · exact absurd (hused.symm.trans hfailure) (by simp only [reduceCtorEq, not_false_eq_true])

/-- A node that would stand exactly under a pinned one is moved beside it. -/
theorem layered_keeps_clear_beside :
    let p : Node := (Node.named "P").pinAt ⟨50, 50⟩
    let g : Graph := ⟨[p, .named "B"], [.between "P" "B"]⟩
    let engine : Engine := Engine.layered fun _ _ => .ok []
    (g.nodes.map Node.id).Nodup ∧ (Layout.run engine {} {} g).failure = none ∧
      ((g.layout engine {} {}).graph.node? "B").map Node.position = some (some ⟨250, 50⟩) ∧
      ∃ n' b, (g.layout engine {} {}).graph.node? "P" = some n' ∧
        n'.position = some ⟨50, 50⟩ ∧ n'.box? = some b ∧
        ∃ m' c, (g.layout engine {} {}).graph.node? "B" = some m' ∧ m'.box? = some c ∧
          b.meets c = false ∧ c.meets b = false := by
  intro p g engine
  have hnodup : (g.nodes.map Node.id).Nodup := by decide
  have hused : (Layout.run engine {} {} g).failure = none := by decide +kernel
  refine ⟨hnodup, hused, by decide +kernel, ?_⟩
  rcases layered_keeps_clear _ {} {} g hnodup hused p List.mem_cons_self ⟨50, 50⟩ rfl with
    ⟨n', b, hn', hposition, hb, hclear⟩
  exact ⟨n', b, hn', hposition, hb,
    hclear (.named "B") (List.mem_cons_of_mem _ List.mem_cons_self) rfl⟩

end Flowchart
