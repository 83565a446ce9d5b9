import Flowchart.Session
import Flowchart.Proofs.Diagram.Meaning
import Flowchart.Proofs.Layout.Content
import Mathlib.Data.List.Nodup

/-!
# Pins along a Session

Four functions touch the position of a node or its pin: a drag, a layout by
plan, a layout on the grid, and the carrying over of pins to a graph that was
read anew. The question is what is left of a pin after any number of them in
any order.

The answer is given by the log of the session alone. `DraggedTo` looks for the
last drag of an id in the log and asks that the id has been there ever since;
it knows nothing of how a graph keeps its pins. `Graph.PinnedAt` on the other
side looks at the graph alone. Each move is described by what it does to
`PinnedAt`, and `draggedTo_cons` says what one more entry of the log does to
`DraggedTo`. Both come out as `Entry.Carries`, so the run is an induction in
which the two descriptions go side by side.

A pinned node always has a position in these runs, and that has to be carried
along: a node pinned nowhere would be given a position by the next layout and
be pinned there without a drag.

## Main definitions

* `Session.Move`, `Session.move?`: What a user does.
* `Session.Run`: The log of a session, the latest entry first.
* `Session.DraggedTo`: The last drag of an id since it entered the graph.
* `Session.Entry.Carries`: What one entry makes of the last drag before it.
* `Graph.PinnedAt`: A node of an id is pinned at a position.
* `Graph.WellPinned`: Ids are distinct and pinned nodes have positions.
* `Node.withPin`: A node with a pin that is carried over.

## Theorems

* `pinnedAt_drag`, `pinnedAt_of_settled`, `pinnedAt_pinsFrom`: What each move
  does to pins.
* `draggedTo_cons`, `pinnedAt_move`: One more entry does the same to the last
  drag and to the pin.
* `pinnedAt_run`: Pins and drags agree along every run.
* `pinned_iff_dragged_since_entry`: A node is pinned exactly if it was dragged
  since it entered, and where it was dragged to last.
-/

namespace Flowchart

namespace Graph

/-- A node with the id is pinned at the position. -/
def PinnedAt (g : Graph) (id : String) (p : Point) : Prop :=
  ∃ n ∈ g.nodes, n.id = id ∧ n.pinnedPosition = some p

/-- The ids are distinct, and a pinned node has a position. -/
structure WellPinned (g : Graph) : Prop where
  nodup : (g.nodes.map Node.id).Nodup
  position : ∀ n ∈ g.nodes, n.pinned = true → n.position.isSome = true

theorem WellPinned.eq_of_id {g : Graph} (h : g.WellPinned) {n m : Node} (hn : n ∈ g.nodes)
    (hm : m ∈ g.nodes) (hid : n.id = m.id) : n = m :=
  List.inj_on_of_nodup_map h.nodup hn hm hid

/-- With distinct ids the pin that is carried over is that of the one node. -/
theorem WellPinned.pin?_eq_some_iff {g : Graph} (h : g.WellPinned) (id : String) (p : Point) :
    g.pin? id = some p ↔ g.PinnedAt id p := by
  -- Whatever the search finds is the pin of a node of this id.
  have hfound : ∀ q, g.pin? id = some q → g.PinnedAt id q := by
    intro q hq
    rcases List.exists_of_findSome?_eq_some hq with ⟨n, hn, hpin⟩
    split at hpin
    · rename_i hid
      exact ⟨n, List.mem_reverse.mp hn, hid, hpin⟩
    · exact absurd hpin (by simp only [reduceCtorEq, not_false_eq_true])
  refine ⟨hfound p, ?_⟩
  rintro ⟨n, hn, hid, hpin⟩
  cases hq : g.pin? id with
  | none =>
      -- The node is among those that are searched, so that something is found.
      have hnone := List.findSome?_eq_none_iff.mp hq n (List.mem_reverse.mpr hn)
      rw [if_pos hid, hpin] at hnone
      exact absurd hnone (by simp only [reduceCtorEq, not_false_eq_true])
  | some q =>
      rcases hfound q hq with ⟨m, hm, hmid, hmpin⟩
      rw [h.eq_of_id hm hn (hmid.trans hid.symm), hpin] at hmpin
      exact hmpin.symm

/-! ## Drags -/

theorem map_id_modifyFirst (id : String) (p : Point) (ns : List Node) :
    (modifyFirst id (·.pinAt p) ns).map Node.id = ns.map Node.id := by
  induction ns with
  | nil => rfl
  | cons n ns ih =>
      rw [modifyFirst]
      split
      · rfl
      · rw [List.map_cons, ih, List.map_cons]

theorem mem_modifyFirst {id : String} {f : Node → Node} {ns : List Node} {n : Node}
    (hnodup : (ns.map Node.id).Nodup) :
    n ∈ modifyFirst id f ns ↔ (∃ m ∈ ns, m.id = id ∧ n = f m) ∨ (n ∈ ns ∧ n.id ≠ id) := by
  induction ns with
  | nil => simp only [modifyFirst, List.not_mem_nil, false_and, exists_false, or_self]
  | cons m ns ih =>
      rw [List.map_cons, List.nodup_cons] at hnodup
      rw [modifyFirst]
      by_cases hm : m.id = id
      · -- The first node of the id is the only one.
        have hrest : ∀ x ∈ ns, x.id ≠ id := by
          intro x hx hid
          exact hnodup.1 (by rw [hm, ← hid]; exact List.mem_map_of_mem hx)
        rw [if_pos hm, List.mem_cons]
        constructor
        · rintro (rfl | hn)
          · exact Or.inl ⟨m, List.mem_cons_self, hm, rfl⟩
          · exact Or.inr ⟨List.mem_cons_of_mem m hn, hrest n hn⟩
        · rintro (⟨x, hx, hid, rfl⟩ | ⟨hn, hid⟩)
          · rcases List.mem_cons.mp hx with rfl | hx
            · exact Or.inl rfl
            · exact absurd hid (hrest x hx)
          · rcases List.mem_cons.mp hn with rfl | hn
            · exact absurd hm hid
            · exact Or.inr hn
      · -- The first node has another id and stays.
        rw [if_neg hm, List.mem_cons, ih hnodup.2]
        constructor
        · rintro (rfl | ⟨x, hx, hid, rfl⟩ | ⟨hn, hid⟩)
          · exact Or.inr ⟨List.mem_cons_self, hm⟩
          · exact Or.inl ⟨x, List.mem_cons_of_mem m hx, hid, rfl⟩
          · exact Or.inr ⟨List.mem_cons_of_mem m hn, hid⟩
        · rintro (⟨x, hx, hid, rfl⟩ | ⟨hn, hid⟩)
          · rcases List.mem_cons.mp hx with rfl | hx
            · exact absurd hid hm
            · exact Or.inr (Or.inl ⟨x, hx, hid, rfl⟩)
          · rcases List.mem_cons.mp hn with rfl | hn
            · exact Or.inl rfl
            · exact Or.inr (Or.inr ⟨hn, hid⟩)

theorem modifyFirst_of_not_mem (id : String) (f : Node → Node) (ns : List Node)
    (h : ∀ n ∈ ns, n.id ≠ id) : modifyFirst id f ns = ns := by
  induction ns with
  | nil => rfl
  | cons n ns ih =>
      rw [modifyFirst, if_neg (h n List.mem_cons_self),
        ih fun m hm => h m (List.mem_cons_of_mem n hm)]

/-- A drag of an unknown id changes nothing, and neither does changing the
    first node of it. -/
theorem nodes_drag (g : Graph) (d : Drag) :
    (g.drag d).nodes = modifyFirst d.node (·.pinAt d.position) g.nodes := by
  unfold drag drag?
  by_cases h : g.nodes.any (·.id == d.node) = true
  · rw [if_pos h]
    rfl
  · rw [if_neg h]
    refine (modifyFirst_of_not_mem _ _ _ fun n hn hid => h ?_).symm
    exact List.any_eq_true.mpr ⟨n, hn, beq_iff_eq.mpr hid⟩

theorem map_id_drag (g : Graph) (d : Drag) :
    (g.drag d).nodes.map Node.id = g.nodes.map Node.id := by
  rw [nodes_drag, map_id_modifyFirst]

theorem WellPinned.drag {g : Graph} (h : g.WellPinned) (d : Drag) : (g.drag d).WellPinned where
  nodup := by
    rw [map_id_drag]
    exact h.nodup
  position := by
    intro n hn hpin
    rw [nodes_drag, mem_modifyFirst h.nodup] at hn
    rcases hn with ⟨m, _, _, rfl⟩ | ⟨hn, _⟩
    · rfl
    · exact h.position n hn hpin

/-- A drag moves the pin of its id to where it was dropped, if the id is there
    at all, and leaves the others. -/
theorem pinnedAt_drag {g : Graph} (h : g.WellPinned) (d : Drag) (id : String) (p : Point) :
    (g.drag d).PinnedAt id p ↔
      (d.node = id ∧ d.position = p ∧ id ∈ g.nodes.map Node.id) ∨
        (d.node ≠ id ∧ g.PinnedAt id p) := by
  unfold PinnedAt
  simp only [nodes_drag, mem_modifyFirst h.nodup]
  constructor
  · rintro ⟨n, ⟨m, hm, hmid, rfl⟩ | ⟨hn, hne⟩, hid, hpin⟩
    · -- The node that was dropped is pinned where it was dropped.
      refine Or.inl ⟨hmid.symm.trans hid, Option.some.inj hpin, ?_⟩
      rw [← hid]
      exact List.mem_map.mpr ⟨m, hm, rfl⟩
    · exact Or.inr ⟨fun hd => hne (hid.trans hd.symm), n, hn, hid, hpin⟩
  · rintro (⟨hd, hp, hmem⟩ | ⟨hd, n, hn, hid, hpin⟩)
    · rcases List.mem_map.mp hmem with ⟨m, hm, hmid⟩
      exact ⟨m.pinAt d.position, Or.inl ⟨m, hm, hmid.trans hd.symm, rfl⟩, hmid, congrArg some hp⟩
    · exact ⟨n, Or.inr ⟨hn, fun hn' => hd (hn'.symm.trans hid)⟩, hid, hpin⟩

end Graph

/-! ## Layouts -/

theorem Node.pinnedPosition_eq_some_iff (n : Node) (p : Point) :
    n.pinnedPosition = some p ↔ n.pinned = true ∧ n.position = some p := by
  unfold pinnedPosition
  by_cases hp : n.pinned = true
  · rw [if_pos hp]
    exact ⟨fun h => ⟨hp, h⟩, And.right⟩
  · rw [if_neg hp]
    exact iff_of_false (by simp only [reduceCtorEq, not_false_eq_true]) fun h => hp h.1

/-- A node that was settled keeps its pin as it was, unless it was pinned
    nowhere. -/
theorem Node.SettledAs.pinnedPosition_eq {n n' : Node} (h : n.SettledAs n')
    (hsome : n.pinned = true → n.position.isSome = true) :
    n'.pinnedPosition = n.pinnedPosition := by
  rcases h with ⟨position, size, rfl, hpin⟩
  by_cases hp : n.pinned = true
  · rcases Option.isSome_iff_exists.mp (hsome hp) with ⟨q, hq⟩
    have hpinned : n.pinnedPosition = some q := by
      rw [pinnedPosition, if_pos hp, hq]
    rw [hpinned, ← hpin q hpinned, pinnedPosition]
    exact if_pos hp
  · rw [pinnedPosition, pinnedPosition, if_neg hp]
    exact if_neg hp

namespace Graph

theorem WellPinned.of_settled {g g' : Graph} (h : g.WellPinned)
    (hsettled : List.Forall₂ Node.SettledAs g.nodes g'.nodes) : g'.WellPinned where
  nodup := by
    rw [map_id_of_settled hsettled]
    exact h.nodup
  position := by
    intro n' hn' _
    rcases Row.exists_left_of_mem hsettled hn' with ⟨n, _, hn⟩
    exact hn.isSome.1

/-- A layout moves no pin. -/
theorem pinnedAt_of_settled {g g' : Graph} (h : g.WellPinned)
    (hsettled : List.Forall₂ Node.SettledAs g.nodes g'.nodes) (id : String) (p : Point) :
    g'.PinnedAt id p ↔ g.PinnedAt id p := by
  constructor
  · rintro ⟨n', hn', hid, hpin⟩
    rcases Row.exists_left_of_mem hsettled hn' with ⟨n, hn, hs⟩
    exact ⟨n, hn, hs.id_eq.symm.trans hid, by rw [← hs.pinnedPosition_eq (h.position n hn), hpin]⟩
  · rintro ⟨n, hn, hid, hpin⟩
    rcases Row.exists_right_of_mem hsettled hn with ⟨n', hn', hs⟩
    exact ⟨n', hn', hs.id_eq.trans hid, by rw [hs.pinnedPosition_eq (h.position n hn), hpin]⟩

end Graph

/-! ## Readings -/

namespace Node

/-- The node with a pin that is carried over, if one is. -/
def withPin (n : Node) : Option Point → Node
  | some position => n.pinAt position
  | none => n

theorem id_withPin (n : Node) (pin : Option Point) : (n.withPin pin).id = n.id := by
  cases pin <;> rfl

/-- A node that is free has the pin that is carried over, or none. -/
theorem pinnedPosition_withPin {n : Node} (hfree : n.pinned = false) (pin : Option Point) :
    (n.withPin pin).pinnedPosition = pin := by
  cases pin with
  | none =>
      rw [withPin, pinnedPosition, hfree]
      rfl
  | some position => rfl

/-- Carrying over the pin of a node to itself changes nothing. -/
theorem withPin_pinnedPosition (n : Node) : n.withPin n.pinnedPosition = n := by
  cases hq : n.pinnedPosition with
  | none => rfl
  | some q =>
      rcases (n.pinnedPosition_eq_some_iff q).mp hq with ⟨hpinned, hposition⟩
      rw [withPin, pinAt, ← hpinned, ← hposition]

end Node

namespace Graph

/-- The nodes that pins were carried over to. -/
theorem nodes_pinsFrom (g older : Graph) :
    (g.pinsFrom older).nodes = g.nodes.map fun n => n.withPin (older.pin? n.id) := by
  refine List.map_congr_left fun n _ => ?_
  cases older.pin? n.id <;> rfl

theorem map_id_pinsFrom (g older : Graph) :
    (g.pinsFrom older).nodes.map Node.id = g.nodes.map Node.id := by
  rw [nodes_pinsFrom, List.map_map]
  exact List.map_congr_left fun n _ => n.id_withPin _

/-- A graph without pins of its own has those of the older one afterwards, as
    far as it has the ids. -/
theorem pinnedAt_pinsFrom {g older : Graph} (holder : older.WellPinned)
    (hfree : ∀ n ∈ g.nodes, n.pinned = false) (id : String) (p : Point) :
    (g.pinsFrom older).PinnedAt id p ↔ id ∈ g.nodes.map Node.id ∧ older.PinnedAt id p := by
  rw [← holder.pin?_eq_some_iff]
  unfold PinnedAt
  rw [nodes_pinsFrom]
  constructor
  · rintro ⟨n', hn', hid, hpin⟩
    -- A node with a pin took it over from the older graph.
    rcases List.mem_map.mp hn' with ⟨n, hn, rfl⟩
    rw [n.id_withPin] at hid
    rw [Node.pinnedPosition_withPin (hfree n hn)] at hpin
    refine ⟨List.mem_map.mpr ⟨n, hn, hid⟩, ?_⟩
    rw [← hid]
    exact hpin
  · rintro ⟨hmem, hpin⟩
    rcases List.mem_map.mp hmem with ⟨n, hn, hid⟩
    refine ⟨n.withPin (older.pin? n.id), List.mem_map_of_mem hn, (n.id_withPin _).trans hid, ?_⟩
    rw [Node.pinnedPosition_withPin (hfree n hn), hid]
    exact hpin

theorem WellPinned.pinsFrom {g older : Graph} (hnodup : (g.nodes.map Node.id).Nodup)
    (hfree : ∀ n ∈ g.nodes, n.pinned = false) : (g.pinsFrom older).WellPinned where
  nodup := by
    rw [map_id_pinsFrom]
    exact hnodup
  position := by
    intro n' hn' hpin
    rw [nodes_pinsFrom] at hn'
    rcases List.mem_map.mp hn' with ⟨n, hn, rfl⟩
    cases hq : older.pin? n.id with
    | none =>
        rw [hq] at hpin
        exact absurd (hpin.symm.trans (hfree n hn)) (by decide)
    | some q => rfl

end Graph

/-! ## Runs -/

namespace Session

/-- What a user does: drops a node, lays the graph out with any engine, or
    edits the text, which keeps the pins. -/
inductive Move where
  | drag (drag : Drag)
  | layout (engine : Engine) (options : Engine.Options) (grid : Grid)
  | read (source : String)

/-- The session after a move. A text that is refused is no move. -/
def move? (s : Session) : Move → Option Session
  | .drag d => some (s.drag d)
  | .layout engine options grid => some (s.layout engine options grid)
  | .read source => (s.read true source).toOption

/-- A move in the log of a session, between what was before and after it. -/
structure Entry where
  before : Session
  move : Move
  after : Session

/-- The log, its latest entry first, leads from the first session to the
    last. -/
inductive Run (start : Session) : List Entry → Session → Prop where
  | start : Run start [] start
  | move {log : List Entry} {s s' : Session} (m : Move) :
      Run start log s → s.move? m = some s' → Run start (⟨s, m, s'⟩ :: log) s'

/-- The session has a node with the id. -/
def Has (s : Session) (id : String) : Prop := id ∈ s.graph.nodes.map Node.id

/-- The log has a drag of the id to the position that was taken. The id was
    there ever since, and it was not dragged again. -/
def DraggedTo (log : List Entry) (id : String) (p : Point) : Prop :=
  ∃ later e earlier d, log = later ++ e :: earlier ∧
    e.move = .drag d ∧ e.before.takes d = true ∧ d.node = id ∧ d.position = p ∧
    e.after.Has id ∧
    ∀ f ∈ later, f.after.Has id ∧ ∀ d', f.move = .drag d' → d'.node ≠ id

namespace Entry

/-- Whether an id has the position of its last drag after an entry, given
    whether it had it before. The entry either drags it there itself or leaves
    it alone, and in both cases the id has to be there afterwards. -/
def Carries (e : Entry) (id : String) (p : Point) (before : Prop) : Prop :=
  e.after.Has id ∧
    ((∃ d, e.move = .drag d ∧ e.before.takes d = true ∧ d.node = id ∧ d.position = p) ∨
      ((∀ d, e.move = .drag d → d.node ≠ id) ∧ before))

/-- An entry that is no drag carries on what stays. -/
theorem carries_iff_of_undragged {e : Entry} (h : ∀ d, e.move ≠ .drag d) (id : String) (p : Point)
    (before : Prop) : e.Carries id p before ↔ e.after.Has id ∧ before := by
  unfold Carries
  constructor
  · rintro ⟨hhas, ⟨d, hd, _⟩ | ⟨_, hbefore⟩⟩
    · exact absurd hd (h d)
    · exact ⟨hhas, hbefore⟩
  · rintro ⟨hhas, hbefore⟩
    exact ⟨hhas, Or.inr ⟨fun d hd => absurd hd (h d), hbefore⟩⟩

end Entry

/-- The last drag of an id is what the latest entry carries on of it. -/
theorem draggedTo_cons (e : Entry) (log : List Entry) (id : String) (p : Point) :
    DraggedTo (e :: log) id p ↔ e.Carries id p (DraggedTo log id p) := by
  constructor
  · rintro ⟨later, f, earlier, d, hlog, hmove, htakes, hid, hp, hhas, hlater⟩
    cases later with
    | nil =>
        -- The latest entry is the drag itself.
        rw [List.nil_append, List.cons.injEq] at hlog
        rw [hlog.1]
        exact ⟨hhas, Or.inl ⟨d, hmove, htakes, hid, hp⟩⟩
    | cons g later =>
        -- The drag is further back, and the latest entry drags something else.
        rw [List.cons_append, List.cons.injEq] at hlog
        have hg := hlater g List.mem_cons_self
        rw [hlog.1]
        refine ⟨hg.1, Or.inr ⟨hg.2, later, f, earlier, d, hlog.2, hmove, htakes, hid, hp, hhas, ?_⟩⟩
        exact fun x hx => hlater x (List.mem_cons_of_mem g hx)
  · rintro ⟨hhas, ⟨d, hmove, htakes, hid, hp⟩ | ⟨hother, later, f, earlier, d, hlog, h⟩⟩
    · refine ⟨[], e, log, d, rfl, hmove, htakes, hid, hp, hhas, ?_⟩
      exact fun x hx => absurd hx List.not_mem_nil
    · rcases h with ⟨hmove, htakes, hid, hp, hf, hlater⟩
      refine ⟨e :: later, f, earlier, d, ?_, hmove, htakes, hid, hp, hf, ?_⟩
      · rw [hlog, List.cons_append]
      · intro x hx
        rcases List.mem_cons.mp hx with rfl | hx
        · exact ⟨hhas, hother⟩
        · exact hlater x hx

theorem takes_iff (s : Session) (d : Drag) : s.takes d = true ↔ s.Has d.node := by
  unfold takes Graph.drag? Has
  by_cases h : s.graph.nodes.any (·.id == d.node) = true
  · rw [if_pos h]
    rcases List.any_eq_true.mp h with ⟨n, hn, hid⟩
    rw [beq_iff_eq] at hid
    rw [← hid]
    exact iff_of_true rfl (List.mem_map_of_mem hn)
  · rw [if_neg h]
    refine iff_of_false Bool.false_ne_true fun hmem => h ?_
    rcases List.mem_map.mp hmem with ⟨n, hn, hid⟩
    exact List.any_eq_true.mpr ⟨n, hn, beq_iff_eq.mpr hid⟩

theorem read_of_move? {s s' : Session} {source : String}
    (h : s.move? (.read source) = some s') : s.read true source = .ok s' := by
  unfold move? at h
  dsimp only at h
  cases hread : s.read true source with
  | error e =>
      rw [hread] at h
      exact absurd h (by simp only [Except.toOption, reduceCtorEq, not_false_eq_true])
  | ok t =>
      rw [hread] at h
      exact congrArg Except.ok (Option.some.inj h)

theorem move?_read_of_parse {s : Session} {source : String} {d : Diagram}
    (h : Diagram.parse false source = .ok d) :
    s.move? (.read source) = some (s.load (d.graph.pinsFrom s.graph)) := by
  rw [move?, read, h]
  rfl

/-- What a text makes of a session: the graph that the text describes, with the
    pins so far. -/
theorem graph_of_read {s s' : Session} {source : String} (h : s.read true source = .ok s') :
    s'.graph = (Meaning.graph (Source.statements source)).pinsFrom s.graph := by
  unfold read at h
  cases hparse : Diagram.parse false source with
  | error e =>
      rw [hparse] at h
      exact absurd h (by simp only [Except.map, reduceCtorEq, not_false_eq_true])
  | ok d =>
      rw [hparse] at h
      rw [← Except.ok.inj h, ← Diagram.graph_of_parse hparse]
      rfl

/-- Every move keeps ids distinct and pinned nodes in their positions. -/
theorem wellPinned_move {s s' : Session} {m : Move} (h : s.graph.WellPinned)
    (hmove : s.move? m = some s') : s'.graph.WellPinned := by
  cases m with
  | drag d =>
      rw [← Option.some.inj hmove]
      exact h.drag d
  | layout engine options grid =>
      rw [← Option.some.inj hmove]
      exact h.of_settled (Layout.run_settled engine options grid s.graph)
  | read source =>
      rw [graph_of_read (read_of_move? hmove)]
      exact Graph.WellPinned.pinsFrom (Meaning.nodup_map_id _) fun _ => Meaning.pinned_eq_false

theorem Has.of_pinnedAt {s : Session} {id : String} {p : Point} (h : s.graph.PinnedAt id p) :
    s.Has id := by
  rcases h with ⟨n, hn, hid, _⟩
  rw [← hid]
  exact List.mem_map_of_mem hn

theorem pinnedAt_move_drag {s : Session} (h : s.graph.WellPinned) (d : Drag) (id : String)
    (p : Point) :
    (s.drag d).graph.PinnedAt id p ↔
      Entry.Carries ⟨s, .drag d, s.drag d⟩ id p (s.graph.PinnedAt id p) := by
  -- A drag changes no id.
  have hsame : (s.drag d).Has id ↔ s.Has id := by
    unfold Has
    rw [← Graph.map_id_drag s.graph d]
    rfl
  unfold Entry.Carries
  rw [hsame]
  refine (Graph.pinnedAt_drag h d id p).trans ?_
  constructor
  · rintro (⟨hid, hp, hmem⟩ | ⟨hne, hpin⟩)
    · refine ⟨hmem, Or.inl ⟨d, rfl, (takes_iff s d).mpr ?_, hid, hp⟩⟩
      rw [hid]
      exact hmem
    · refine ⟨Has.of_pinnedAt hpin, Or.inr ⟨fun d' hd' => ?_, hpin⟩⟩
      rw [← Move.drag.inj hd']
      exact hne
  · rintro ⟨hmem, ⟨d', hd', _, hid, hp⟩ | ⟨hne, hpin⟩⟩
    · rw [← Move.drag.inj hd'] at hid hp
      exact Or.inl ⟨hid, hp, hmem⟩
    · exact Or.inr ⟨hne d rfl, hpin⟩

/-- What a move does to the pins is what its entry in the log does to the last
    drags. -/
theorem pinnedAt_move {s s' : Session} {m : Move} (h : s.graph.WellPinned)
    (hmove : s.move? m = some s') (id : String) (p : Point) :
    s'.graph.PinnedAt id p ↔ Entry.Carries ⟨s, m, s'⟩ id p (s.graph.PinnedAt id p) := by
  cases m with
  | drag d =>
      rw [← Option.some.inj hmove]
      exact pinnedAt_move_drag h d id p
  | layout engine options grid =>
      have hpins :=
        Graph.pinnedAt_of_settled h (Layout.run_settled engine options grid s.graph) id p
      rw [Entry.carries_iff_of_undragged fun d => Move.noConfusion, ← Option.some.inj hmove]
      exact ⟨fun hpin => ⟨Has.of_pinnedAt hpin, hpins.mp hpin⟩, fun hpin => hpins.mpr hpin.2⟩
  | read source =>
      have hgraph := graph_of_read (read_of_move? hmove)
      have hpins := Graph.pinnedAt_pinsFrom (g := Meaning.graph (Source.statements source)) h
        (fun _ => Meaning.pinned_eq_false) id p
      rw [← Graph.map_id_pinsFrom _ s.graph, ← hgraph] at hpins
      rw [Entry.carries_iff_of_undragged fun d => Move.noConfusion]
      exact hpins

/-- Pins and drags agree along every run, if they do at its start. -/
theorem pinnedAt_run {start s : Session} {log : List Entry} (hwell : start.graph.WellPinned)
    (hfree : ∀ n ∈ start.graph.nodes, n.pinned = false) (hrun : Run start log s) :
    s.graph.WellPinned ∧ ∀ id p, s.graph.PinnedAt id p ↔ DraggedTo log id p := by
  induction hrun with
  | start =>
      refine ⟨hwell, fun id p => iff_of_false ?_ ?_⟩
      · rintro ⟨n, hn, _, hpin⟩
        rw [Node.pinnedPosition, hfree n hn, if_neg Bool.false_ne_true] at hpin
        exact absurd hpin (by simp only [reduceCtorEq, not_false_eq_true])
      · rintro ⟨later, e, earlier, d, hlog, _⟩
        exact absurd hlog.symm (List.append_ne_nil_of_right_ne_nil _ (List.cons_ne_nil _ _))
  | @move log s s' m _ hmove ih =>
      refine ⟨wellPinned_move ih.1 hmove, fun id p => ?_⟩
      -- The entry carries on the same on both sides.
      rw [pinnedAt_move ih.1 hmove, draggedTo_cons, ih.2]

/-- In a run that starts from a text, ids stay distinct. A node is pinned
    exactly if it was dragged since it entered the graph, and it is where the
    last of these drags left it. -/
theorem pinned_iff_dragged_since_entry {strict : Bool} {source : String} {d : Diagram}
    (hparse : Diagram.parse strict source = .ok d) {start s : Session} {log : List Entry}
    (hstart : start.graph = d.graph) (hrun : Run start log s) :
    (s.graph.nodes.map Node.id).Nodup ∧
      ∀ n ∈ s.graph.nodes, (n.pinned = true ↔ ∃ p, DraggedTo log n.id p) ∧
        ∀ p, DraggedTo log n.id p → n.position = some p := by
  have hgraph := hstart.trans (Diagram.graph_of_parse hparse)
  have hfree : ∀ n ∈ start.graph.nodes, n.pinned = false := by
    rw [hgraph]
    exact fun _ => Meaning.pinned_eq_false
  have hwell : start.graph.WellPinned := by
    refine ⟨?_, fun n hn hpin => absurd (hpin.symm.trans (hfree n hn)) (by decide)⟩
    rw [hgraph]
    exact Meaning.nodup_map_id _
  rcases pinnedAt_run hwell hfree hrun with ⟨hs, hpins⟩
  -- The node that is pinned at a drag of its id is the node itself.
  have hdragged : ∀ n ∈ s.graph.nodes, ∀ p, DraggedTo log n.id p → n.pinnedPosition = some p := by
    intro n hn p hdrag
    rcases (hpins n.id p).mpr hdrag with ⟨m, hm, hid, hpin⟩
    rw [← hs.eq_of_id hm hn hid, hpin]
  refine ⟨hs.nodup, fun n hn => ⟨⟨fun hpin => ?_, ?_⟩, fun p hdrag => ?_⟩⟩
  · rcases Option.isSome_iff_exists.mp (hs.position n hn hpin) with ⟨p, hp⟩
    refine ⟨p, (hpins n.id p).mp ⟨n, hn, rfl, ?_⟩⟩
    rw [Node.pinnedPosition, if_pos hpin, hp]
  · rintro ⟨p, hdrag⟩
    exact ((Node.pinnedPosition_eq_some_iff n p).mp (hdragged n hn p hdrag)).1
  · exact ((Node.pinnedPosition_eq_some_iff n p).mp (hdragged n hn p hdrag)).2

/-- Of two nodes that were dragged, one leaves the graph and comes back: it is
    free again, and the other one is where it was dragged to. -/
theorem pinned_iff_dragged_since_entry_return :
    let both : Graph := ⟨[.named "A", .named "B"], [.between "A" "B"]⟩
    let one : Graph := ⟨[.named "B"], [.between "B" "B"]⟩
    let start : Session := { graph := both }
    let crash : Engine := fun _ _ => .crashed none
    let s₁ := start.drag ⟨"A", ⟨1, 2⟩⟩
    let s₂ := s₁.drag ⟨"B", ⟨3, 4⟩⟩
    let s₃ := s₂.layout crash {} {}
    let s₄ := s₃.load (one.pinsFrom s₃.graph)
    let s₅ := s₄.load (both.pinsFrom s₄.graph)
    let log : List Entry :=
      [⟨s₄, .read "A-->B", s₅⟩, ⟨s₃, .read "B-->B", s₄⟩, ⟨s₂, .layout crash {} {}, s₃⟩,
        ⟨s₁, .drag ⟨"B", ⟨3, 4⟩⟩, s₂⟩, ⟨start, .drag ⟨"A", ⟨1, 2⟩⟩, s₁⟩]
    Diagram.parse true "A-->B" = .ok ⟨both, none, []⟩ ∧ Run start log s₅ ∧
      s₅.graph.nodes = [.named "A", (Node.named "B").pinAt ⟨3, 4⟩] ∧
      (∀ p, ¬ DraggedTo log "A" p) ∧ DraggedTo log "B" ⟨3, 4⟩ := by
  intro both one start crash s₁ s₂ s₃ s₄ s₅ log
  have hboth : ∀ strict, Diagram.parse strict "A-->B" = .ok ⟨both, none, []⟩ := by decide +kernel
  have hone : Diagram.parse false "B-->B" = .ok ⟨one, none, []⟩ := by decide +kernel
  have hrun : Run start log s₅ :=
    .move _ (.move _ (.move _ (.move _ (.move _ .start rfl) rfl) rfl) (move?_read_of_parse hone))
      (move?_read_of_parse (hboth false))
  have hnodes : s₅.graph.nodes = [.named "A", (Node.named "B").pinAt ⟨3, 4⟩] := by rfl
  have hpins := (pinned_iff_dragged_since_entry (hboth true) rfl hrun).2
  rw [hnodes] at hpins
  refine ⟨hboth true, hrun, hnodes, fun p hdrag => ?_, ?_⟩
  · have hA := (hpins (.named "A") List.mem_cons_self).1.mpr ⟨p, hdrag⟩
    exact absurd hA (by decide)
  · have hB := hpins ((Node.named "B").pinAt ⟨3, 4⟩) (List.mem_cons_of_mem _ List.mem_cons_self)
    rcases hB.1.mp rfl with ⟨p, hdrag⟩
    have hp : p = ⟨3, 4⟩ := Option.some.inj (hB.2 p hdrag).symm
    rw [← hp]
    exact hdrag

end Session

end Flowchart
