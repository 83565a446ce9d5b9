import Flowchart.Proofs.Layout.Content

/-!
# Answers Are Matched by Name

What an engine answers is matched with the graph by names, and the last entry of
a name counts. Nodes have ids of their own for this, but edges do not: any number
of them may be called `A-B`. They are told apart by their places, which are
written out in digits, so that two edges share a name only if two numbers share
their digits. If moreover no name is answered for twice, the last entry of a name
is the only one. Then its place in the answer does not matter, and neither does
what else there is: entries that name nothing in the graph are never looked at.

## Main definitions

* `Plan.Answers`: A plan places every node once and routes no edge twice.
* `Plan.SameFor`: Two plans say the same about a graph, in whatever order.

## Theorems

* `edgeName_injective`: No two edges share a name.
* `Row.find?_reverse_of_mem`, `Row.find?_reverse_of_perm`: What is found if there
  is only one to be found.
* `Plan.placement?_of_mem`, `Plan.route?_of_mem`: The entry of a name is found.
* `Plan.SameFor.apply_eq`: The order of an answer does not matter.
* `own_route_and_placement`: Every edge takes its own route, and every node that
  is not pinned its own placement.
-/

namespace Flowchart

namespace Row

variable {α : Type} {xs ys : List α} {p : α → Bool}

/-- The last of a kind is the last one that is left when all others are taken
    out. -/
theorem find?_reverse (xs : List α) (p : α → Bool) :
    xs.reverse.find? p = (xs.filter p).getLast? := by
  rw [← List.head?_filter, List.filter_reverse, List.head?_reverse]

/-- The only one of a kind is the last. -/
theorem find?_reverse_of_mem {x : α} (hone : (xs.filter p).length ≤ 1) (hx : x ∈ xs)
    (hp : p x = true) : xs.reverse.find? p = some x := by
  have hmem : x ∈ xs.filter p := List.mem_filter.mpr ⟨hx, hp⟩
  have hpos := List.length_pos_of_mem hmem
  rcases List.length_eq_one_iff.mp (Nat.le_antisymm hone hpos) with ⟨y, hy⟩
  rw [hy, List.mem_singleton] at hmem
  rw [find?_reverse, hy, hmem]
  rfl

/-- Where there is only one of a kind, the order does not matter. -/
theorem find?_reverse_of_perm (hone : (xs.filter p).length ≤ 1)
    (hperm : (xs.filter p).Perm (ys.filter p)) : xs.reverse.find? p = ys.reverse.find? p := by
  rw [find?_reverse, find?_reverse]
  rcases Nat.le_one_iff_eq_zero_or_eq_one.mp hone with hzero | hone
  · rw [List.length_eq_zero_iff] at hzero
    rw [hzero, List.nil_perm] at hperm
    rw [hzero, hperm]
  · rcases List.length_eq_one_iff.mp hone with ⟨x, hx⟩
    rw [hx, List.singleton_perm] at hperm
    rw [hx, hperm]

/-- To count a name is to count what bears it. -/
theorem count_map_eq {β : Type} [BEq β] (name : α → β) (b : β) (xs : List α) :
    (xs.map name).count b = (xs.filter fun x => name x == b).length := by
  rw [List.count_eq_countP, List.countP_map, List.countP_eq_length_filter]
  rfl

/-- What two rows have in common of a kind, they have in common of a part of it. -/
theorem filter_perm_of_filter {q : α → Bool} (hsub : ∀ x, p x = true → q x = true)
    (h : (xs.filter q).Perm (ys.filter q)) : (xs.filter p).Perm (ys.filter p) := by
  have hof : ∀ xs : List α, (xs.filter q).filter p = xs.filter p := by
    intro xs
    rw [List.filter_filter]
    refine List.filter_congr fun x _ => ?_
    cases hp : p x with
    | false => rfl
    | true => rw [hsub x hp, Bool.and_true]
  have hboth := h.filter p
  rw [hof, hof] at hboth
  exact hboth

end Row

namespace Engine

/-- No two edges of a graph have the same name: a place can be read back from its
    digits. -/
theorem edgeName_injective : Function.Injective edgeName := by
  intro i j h
  have hdigits : i.repr = j.repr := (String.append_right_inj "e").mp h
  calc i
      = Nat.ofDigitChars 10 i.repr.toList 0 := by
        rw [Nat.toList_repr, Nat.ofDigitChars_ten_toDigits]
    _ = Nat.ofDigitChars 10 j.repr.toList 0 := by rw [hdigits]
    _ = j := by rw [Nat.toList_repr, Nat.ofDigitChars_ten_toDigits]

namespace Plan

/-- The plan places every node of the graph once, and has no two routes for one
    edge. Whatever else it holds names nothing in the graph. -/
structure Answers (p : Plan) (g : Graph) : Prop where
  placements : ∀ n ∈ g.nodes, (p.placements.map Placement.id).count n.id = 1
  routes : ∀ place < g.edges.length, (p.routes.map Route.id).count (edgeName place) ≤ 1

/-- The plans say the same about the nodes and the edges of the graph, in
    whatever order, and may say anything else besides. -/
structure SameFor (g : Graph) (p q : Plan) : Prop where
  placements : (p.placements.filter fun placement => placement.id ∈ g.nodes.map Node.id).Perm
    (q.placements.filter fun placement => placement.id ∈ g.nodes.map Node.id)
  routes : (p.routes.filter fun route => route.id ∈ (List.range g.edges.length).map edgeName).Perm
    (q.routes.filter fun route => route.id ∈ (List.range g.edges.length).map edgeName)
  size : p.size = q.size

variable {p q : Plan} {g : Graph}

/-! ## Entries of a name -/

theorem placement?_of_mem (h : p.Answers g) {n : Node} (hn : n ∈ g.nodes) {placement : Placement}
    (hmem : placement ∈ p.placements) (hid : placement.id = n.id) :
    p.placement? n.id = some placement := by
  have hone := h.placements n hn
  rw [Row.count_map_eq] at hone
  exact Row.find?_reverse_of_mem (Nat.le_of_eq hone) hmem (beq_iff_eq.mpr hid)

theorem route?_of_mem (h : p.Answers g) {place : Nat} (hplace : place < g.edges.length)
    {route : Route} (hmem : route ∈ p.routes) (hid : route.id = edgeName place) :
    p.route? (edgeName place) = some route := by
  have hone := h.routes place hplace
  rw [Row.count_map_eq] at hone
  exact Row.find?_reverse_of_mem hone hmem (beq_iff_eq.mpr hid)

theorem route?_eq_none {name : String} (h : ∀ route ∈ p.routes, route.id ≠ name) :
    p.route? name = none := by
  rw [route?, List.find?_eq_none]
  intro route hroute
  rw [beq_iff_eq]
  exact h route (List.mem_reverse.mp hroute)

/-- A plan that answers for a graph leaves no node out. -/
theorem Answers.not_leavesOut (h : p.Answers g) : ¬p.LeavesOut g := by
  rintro ⟨n, hn, hnone⟩
  have hpos : 0 < (p.placements.map Placement.id).count n.id := by
    rw [h.placements n hn]
    exact Nat.one_pos
  rcases List.mem_map.mp (List.count_pos_iff.mp hpos) with ⟨placement, hmem, hid⟩
  exact hnone placement hmem hid

/-! ## The order of an answer -/

namespace SameFor

theorem placement?_eq (hsame : SameFor g p q) (h : p.Answers g) {n : Node} (hn : n ∈ g.nodes) :
    p.placement? n.id = q.placement? n.id := by
  have hone := h.placements n hn
  rw [Row.count_map_eq] at hone
  refine Row.find?_reverse_of_perm (Nat.le_of_eq hone) ?_
  refine Row.filter_perm_of_filter (fun placement hid => ?_) hsame.placements
  rw [beq_iff_eq] at hid
  rw [decide_eq_true_iff, hid]
  exact List.mem_map_of_mem hn

theorem route?_eq (hsame : SameFor g p q) (h : p.Answers g) {place : Nat}
    (hplace : place < g.edges.length) :
    p.route? (edgeName place) = q.route? (edgeName place) := by
  have hone := h.routes place hplace
  rw [Row.count_map_eq] at hone
  refine Row.find?_reverse_of_perm hone ?_
  refine Row.filter_perm_of_filter (fun route hid => ?_) hsame.routes
  rw [beq_iff_eq] at hid
  rw [decide_eq_true_iff, hid]
  exact List.mem_map_of_mem (List.mem_range.mpr hplace)

/-- Neither the order of an answer nor entries that name nothing in the graph
    change the drawing. -/
theorem apply_eq (hsame : SameFor g p q) (h : p.Answers g) (padding : Float32) :
    p.apply g padding = q.apply g padding := by
  -- Nodes and edges look up nothing but their own names, and there both plans agree.
  have hnodes : p.nodes g.nodes = q.nodes g.nodes := by
    unfold nodes
    refine Row.mapM_congr (R := fun n m => n = m ∧ n ∈ g.nodes)
      (List.forall₂_same.mpr fun n hn => ⟨rfl, hn⟩) ?_
    rintro n _ ⟨rfl, hn⟩
    rw [hsame.placement?_eq h hn]
  have hedges : (g.edges.zipIdx.map fun x => p.edge x.1 x.2) =
      g.edges.zipIdx.map fun x => q.edge x.1 x.2 := by
    refine List.map_congr_left fun x hmem => ?_
    have hplace := (List.getElem?_eq_some_iff.mp (List.mem_zipIdx_iff_getElem?.mp hmem)).1
    rw [edge, edge, hsame.route?_eq h hplace]
  have happly : ∀ p : Plan, p.apply g padding = p.nodes g.nodes >>= fun placed =>
      return ⟨⟨placed.map Prod.fst, g.edges.zipIdx.map fun x => p.edge x.1 x.2⟩,
        (placed.filterMap Prod.snd).foldl (fun size box => size.growTo box padding) p.size⟩ :=
    fun _ => rfl
  rw [happly, happly, hnodes, hedges, hsame.size]

end SameFor

end Plan

end Engine

/-- Every edge takes its own route, and every node that is not pinned its own
    placement. Names are all that is matched, and no two edges share one. If a
    plan places every node once and routes no edge twice, it can be applied; an
    edge gets the points of the one route with its name, or none if there is no
    such route; and a plan that says the same in another order, or has more to
    say about what is not in the graph, makes the same drawing. -/
theorem own_route_and_placement (p : Engine.Plan) (g : Graph) (padding : Float32)
    (hanswers : p.Answers g) :
    ∃ d, p.apply g padding = .ok d ∧
      List.Forall₂ (fun n n' => n.pinnedPosition = none →
          ∀ placement ∈ p.placements, placement.id = n.id →
            n'.position = some placement.position ∧ n'.size = some placement.size)
        g.nodes d.graph.nodes ∧
      d.graph.edges.length = g.edges.length ∧
      (∀ place e, d.graph.edges[place]? = some e →
        (∀ route ∈ p.routes, route.id = Engine.edgeName place →
          e.points = some (route.start :: (route.bends ++ [route.finish]))) ∧
        ((∀ route ∈ p.routes, route.id ≠ Engine.edgeName place) → e.points = none)) ∧
      (∀ q : Engine.Plan, Engine.Plan.SameFor g p q → q.apply g padding = .ok d) ∧
      Function.Injective Engine.edgeName := by
  rcases (p.exists_apply_eq_ok_iff g padding).mpr hanswers.not_leavesOut with ⟨d, hd⟩
  rcases Engine.Plan.apply_eq_ok hd with ⟨hnodes, hedges⟩
  have hlength : d.graph.edges.length = g.edges.length := by
    rw [hedges, List.length_map, List.length_zipIdx]
  refine ⟨d, hd, ?_, hlength, ?_, fun q hsame => ?_, Engine.edgeName_injective⟩
  · -- Each node was given the placement that is found for its id, and there is one of that id.
    have hboth := (List.forall₂_and_left _ _).mpr ⟨fun n hn => hn, hnodes⟩
    refine hboth.imp ?_
    rintro n n' ⟨hn, placement', hfound, rfl⟩ hfree placement hmem hid
    rw [Engine.Plan.placement?_of_mem hanswers hn hmem hid] at hfound
    rw [Engine.Plan.node_of_free n placement' hfree, ← Option.some.inj hfound]
    exact ⟨rfl, rfl⟩
  · intro place e he
    have hplace : place < g.edges.length := by
      rw [← hlength]
      exact (List.getElem?_eq_some_iff.mp he).1
    rw [hedges, List.getElem?_map, Option.map_eq_some_iff] at he
    -- The edge was made of the one at the same place, and the name is that of the place.
    rcases he with ⟨⟨e₀, place₀⟩, hzip, rfl⟩
    rw [List.getElem?_zipIdx, Option.map_eq_some_iff] at hzip
    rcases hzip with ⟨_, _, hpair⟩
    rw [Nat.zero_add, Prod.mk.injEq] at hpair
    dsimp only [Engine.Plan.edge]
    rw [← hpair.2]
    refine ⟨fun route hmem hid => ?_, fun hnone => ?_⟩
    · rw [Engine.Plan.route?_of_mem hanswers hplace hmem hid]
      rfl
    · rw [Engine.Plan.route?_eq_none hnone]
      rfl
  · rw [← hsame.apply_eq hanswers padding]
    exact hd

/-- Of three edges two share an id, and the third has no route. The answer begins
    with the second route and the pinned node, and names a node and an edge that
    are not there, the node twice. -/
theorem own_route_and_placement_parallel :
    let g : Graph := ⟨[.named "A", (Node.named "P").pinAt ⟨5, 5⟩],
      [.between "A" "P", .between "A" "P", .between "P" "A"]⟩
    let a : Engine.Placement := ⟨"A", ⟨3, 4⟩, ⟨2, 2⟩⟩
    let b : Engine.Placement := ⟨"P", ⟨0, 0⟩, ⟨1, 1⟩⟩
    let z : Engine.Placement := ⟨"Z", ⟨6, 6⟩, ⟨7, 7⟩⟩
    let first : Engine.Route := ⟨"e0", ⟨8, 8⟩, [], ⟨9, 9⟩⟩
    let second : Engine.Route := ⟨"e1", ⟨1, 1⟩, [⟨1, 2⟩], ⟨2, 2⟩⟩
    let p : Engine.Plan := ⟨[b, z, a, z], [second, { first with id := "e01" }, first], ⟨10, 10⟩⟩
    let q : Engine.Plan := ⟨[a, b], [first, second], ⟨10, 10⟩⟩
    p.Answers g ∧ Engine.Plan.SameFor g p q ∧
      ∃ d, p.apply g 50 = .ok d ∧ q.apply g 50 = .ok d ∧ d.graph.edges.length = 3 ∧
        (∀ e, d.graph.edges[0]? = some e → e.points = some [⟨8, 8⟩, ⟨9, 9⟩]) ∧
        (∀ e, d.graph.edges[1]? = some e → e.points = some [⟨1, 1⟩, ⟨1, 2⟩, ⟨2, 2⟩]) ∧
        ∀ e, d.graph.edges[2]? = some e → e.points = none := by
  intro g a b z first second p q
  have hanswers : p.Answers g := ⟨by decide, by decide⟩
  have hsame : Engine.Plan.SameFor g p q := ⟨by decide, by decide, rfl⟩
  rcases own_route_and_placement p g 50 hanswers with ⟨d, hd, _, hlength, hroutes, horder, _⟩
  have hfirst : first ∈ p.routes :=
    List.mem_cons_of_mem _ (List.mem_cons_of_mem _ List.mem_cons_self)
  refine ⟨hanswers, hsame, d, hd, horder q hsame, hlength, fun e he => ?_, fun e he => ?_,
    fun e he => (hroutes 2 e he).2 (by decide)⟩
  · exact (hroutes 0 e he).1 first hfirst (by decide)
  · exact (hroutes 1 e he).1 second List.mem_cons_self (by decide)

end Flowchart
