import Flowchart.Proofs.Diagram.Reading
import Flowchart.Proofs.Row
import Flowchart.Proofs.Statement.Label
import Mathlib.Data.List.Induction

/-!
# The Meaning of a Flowchart Text

What a flowchart text says, told without an order of reading. A draft is read
line by line and overwritten in place; here the graph is described at once from
all statements of the text. Ids stand in the order of their first mention, and
everything that is said about a node is settled by the last word on it: the
last bracket, the last fill, the last stroke, the last width.

The statements are first taken apart into mentions, one for each time that a
statement names an id. An edge is two mentions, also if both are of the same
node, and that is what makes a bracket on either end of a loop count in the
right order. `foldl_upsert_eq` is the heart of the argument. It runs along the
mentions from the last to the first: the description of one more mention is the
description before it, changed in the one node that the mention names.

## Main definitions

* `Mention`: What a statement says about one id.
* `Meaning.nodes`, `Meaning.edges`, `Meaning.graph`: The description.
* `Source.statements`: The statements of a text.

## Theorems

* `ofProperties_eq`: Properties set what the last accepted one of a kind says.
* `foldl_upsert_eq`: Mentions entered one by one give the described nodes.
* `graph_foldl_apply`: Lines give a draft the described graph.
* `nodup_map_id`: The ids of a described graph are distinct.
* `dangling_graph`: Both ends of every edge are nodes.
* `parse_eq_meaning`: What a text is read as, and when it is refused.
-/

namespace Flowchart

/-- What a statement says about one id. A statement that has neither a bracket
    nor properties for an id mentions it all the same. -/
structure Mention where
  id : String
  bracket : Option Bracket
  properties : List Property

/-- The mentions in a statement, in order. -/
def Statement.mentions : Statement → List Mention
  | .declare id bracket => [⟨id, some bracket, []⟩]
  | .connect c => [⟨c.source.id, c.source.bracket, []⟩, ⟨c.target.id, c.target.bracket, []⟩]
  | .restyle id properties => [⟨id, none, properties⟩]

namespace Property

/-- The fill that a property gives, if it is accepted. -/
def fill? (p : Property) : Option Color :=
  if p.key = "fill" then (Color.parse p.value).toOption else none

/-- The stroke that a property gives, if it is accepted. -/
def stroke? (p : Property) : Option Color :=
  if p.key = "stroke" then (Color.parse p.value).toOption else none

/-- The width of the stroke that a property gives, if it is accepted. -/
def width? (p : Property) : Option Float32 :=
  if p.key = "stroke-width" then strokeWidth? p.value else none

end Property

namespace Meaning

/-- The ids that are mentioned, in the order of their first mention. -/
def ids (ms : List Mention) : List String := (ms.map Mention.id).eraseDups

/-- The mentions of one id. -/
def mentionsOf (ms : List Mention) (id : String) : List Mention := ms.filter fun m => m.id = id

/-- The last bracket written for an id. -/
def bracket? (ms : List Mention) (id : String) : Option Bracket :=
  ((mentionsOf ms id).filterMap Mention.bracket).getLast?

/-- Every property written for an id, in order. -/
def properties (ms : List Mention) (id : String) : List Property :=
  (mentionsOf ms id).flatMap Mention.properties

/-- The last accepted fill, stroke and width, each by itself. -/
def choices (ps : List Property) : Style :=
  ⟨(ps.filterMap Property.fill?).getLast?, (ps.filterMap Property.stroke?).getLast?,
    (ps.filterMap Property.width?).getLast?⟩

/-- The style of a node, if anything was accepted for it. -/
def style? (ps : List Property) : Option Style :=
  if choices ps = ⟨none, none, none⟩ then none else some (choices ps)

/-- The label of a node. A blank one reads as the id. -/
def label (id : String) : Option Bracket → String
  | some b => if b.label.toList.all Text.isBlank then id else b.label
  | none => id

/-- The outline of a node. -/
def shape : Option Bracket → Shape
  | some b => b.shape
  | none => .rectangle

/-- The node of an id. -/
def node (ms : List Mention) (id : String) : Node where
  id := id
  label := label id (bracket? ms id)
  shape := shape (bracket? ms id)
  position := none
  size := none
  style := style? (properties ms id)
  pinned := false

/-- The nodes of all ids that are mentioned. -/
def nodes (ms : List Mention) : List Node := (ids ms).map (node ms)

/-- The edge in a statement, if it is one. -/
def edge? : Statement → Option Edge
  | .connect c =>
      some ⟨c.source.id ++ "-" ++ c.target.id, c.source.id, c.target.id, c.label, c.line, none⟩
  | _ => none

/-- The edges of all statements that are one. -/
def edges (ss : List Statement) : List Edge := ss.filterMap edge?

/-- The graph that statements describe. -/
def graph (ss : List Statement) : Graph := ⟨nodes (ss.flatMap Statement.mentions), edges ss⟩

end Meaning

/-- The statements of a text: those of its significant lines after a header,
    as far as they say something. -/
def Source.statements (source : String) : List Statement :=
  (stripHeader (lines source)).2.filterMap fun line =>
    (Statement.ofLine? line.text.toList).map Prod.snd

/-! ## Styles -/

/-- A property sets what it gives of the three, and nothing if it is refused. -/
theorem Property.match_style?_eq (p : Property) :
    (match p.style? with
      | .ok top => top
      | .error _ => .empty) = (⟨p.fill?, p.stroke?, p.width?⟩ : Style) := by
  unfold Property.fill? Property.stroke? Property.width?
  generalize hs : p.style? = result
  unfold Property.style? at hs
  -- One case for each of the three keys, and one for all others.
  split at hs
  · rename_i hkey
    rw [hkey, ← hs, Property.color?]
    cases Color.parse p.value <;> rfl
  · rename_i hkey
    rw [hkey, ← hs, Property.color?]
    cases Color.parse p.value <;> rfl
  · rename_i hkey
    rw [hkey, ← hs]
    cases Property.strokeWidth? p.value <;> rfl
  · rename_i hfill hstroke hwidth
    rw [if_neg hfill, if_neg hstroke, if_neg hwidth, ← hs]
    rfl

theorem Style.ofProperties_append (ps : List Property) (p : Property) :
    ofProperties (ps ++ [p]) = (ofProperties ps).overlay ⟨p.fill?, p.stroke?, p.width?⟩ := by
  rw [← p.match_style?_eq, ofProperties, List.foldl_append]
  cases h : p.style? with
  | ok top =>
      simp only [List.foldl_cons, List.foldl_nil, lay, h]
      rfl
  | error reason =>
      simp only [List.foldl_cons, List.foldl_nil, lay, h, overlay, empty, Option.none_or]
      rfl

namespace Meaning

theorem getLast?_filterMap_append {α β : Type} (f : α → Option β) (xs : List α) (x : α) :
    ((xs ++ [x]).filterMap f).getLast? = (f x).or (xs.filterMap f).getLast? := by
  rw [List.filterMap_append, List.getLast?_append]
  cases hx : f x with
  | none => rw [List.filterMap_cons_none hx]; rfl
  | some y => rw [List.filterMap_cons_some hx]; rfl

/-- Properties set what the last accepted one of each kind says. -/
theorem ofProperties_eq (ps : List Property) : Style.ofProperties ps = choices ps := by
  induction ps using List.reverseRecOn with
  | nil => rfl
  | append_singleton ps p ih =>
      rw [Style.ofProperties_append, ih]
      simp only [choices, Style.overlay, getLast?_filterMap_append]

theorem choices_append (ps qs : List Property) :
    choices (ps ++ qs) = (choices ps).overlay (choices qs) := by
  simp only [choices, Style.overlay, List.filterMap_append, List.getLast?_append]

theorem isEmpty_iff (s : Style) : s.isEmpty = true ↔ s = ⟨none, none, none⟩ := by
  rcases s with ⟨fill, stroke, width⟩
  simp only [Style.isEmpty, Bool.and_eq_true, Option.isNone_iff_eq_none, Style.mk.injEq, and_assoc]

/-- A node has a style from the moment that something was accepted for it, so
    reading its absent style as the empty one loses nothing. -/
theorem style?_getD (ps : List Property) : (style? ps).getD .empty = choices ps := by
  unfold style?
  split
  · rename_i hnone
    rw [hnone]
    rfl
  · rfl

/-- The style of a node after one more style line. -/
theorem style?_append (ps qs : List Property) :
    style? (ps ++ qs) =
      if (choices qs).isEmpty then style? ps
      else some (((style? ps).getD .empty).overlay (choices qs)) := by
  rw [style?_getD, ← choices_append]
  split
  · rename_i hempty
    have hqs : choices qs = ⟨none, none, none⟩ := (isEmpty_iff _).mp hempty
    have heq : choices (ps ++ qs) = choices ps := by
      rw [choices_append, hqs]
      simp only [Style.overlay, Option.none_or]
    rw [style?, style?, heq]
  · rename_i hsome
    rw [style?, if_neg]
    intro hnone
    apply hsome
    rw [isEmpty_iff]
    rw [choices_append, Style.overlay, Style.mk.injEq] at hnone
    -- What was laid over is gone only if it was nothing.
    simp only [Option.or_eq_none_iff] at hnone
    rcases hnone with ⟨⟨hfill, _⟩, ⟨hstroke, _⟩, ⟨hwidth, _⟩⟩
    have heta :
        choices qs = ⟨(choices qs).fill, (choices qs).stroke, (choices qs).strokeWidth⟩ := rfl
    rw [heta, hfill, hstroke, hwidth]

/-! ## One more mention -/

theorem ids_append (ms : List Mention) (m : Mention) :
    ids (ms ++ [m]) = ids ms ++ if m.id ∈ ids ms then [] else [m.id] := by
  simp only [ids, List.map_append, List.map_cons, List.map_nil, List.mem_eraseDups]
  rw [Row.eraseDups_concat]
  by_cases h : m.id ∈ ms.map Mention.id
  · rw [if_pos h, if_pos h, List.append_nil]
  · rw [if_neg h, if_neg h]

theorem nodup_ids (ms : List Mention) : (ids ms).Nodup :=
  Row.nodup_eraseDups (ms.map Mention.id)

theorem mentionsOf_append_self (ms : List Mention) (m : Mention) :
    mentionsOf (ms ++ [m]) m.id = mentionsOf ms m.id ++ [m] := by
  simp only [mentionsOf, List.filter_append, List.filter_cons, List.filter_nil, decide_true,
    if_true]

theorem mentionsOf_append_of_ne (ms : List Mention) (m : Mention) {id : String} (h : m.id ≠ id) :
    mentionsOf (ms ++ [m]) id = mentionsOf ms id := by
  rw [mentionsOf, List.filter_append, List.filter_cons_of_neg (by
    rw [decide_eq_true_eq]
    exact h)]
  exact List.append_nil _

theorem mentionsOf_eq_nil (ms : List Mention) {id : String} (h : id ∉ ids ms) :
    mentionsOf ms id = [] := by
  rw [mentionsOf, List.filter_eq_nil_iff]
  intro m hm hid
  rw [decide_eq_true_eq] at hid
  rw [ids, List.mem_eraseDups, ← hid] at h
  exact h (List.mem_map_of_mem hm)

/-- An id that was never mentioned would be a plain rectangle. -/
theorem node_of_not_mem (ms : List Mention) {id : String} (h : id ∉ ids ms) :
    node ms id = .named id := by
  simp only [node, bracket?, properties, mentionsOf_eq_nil ms h]
  rfl

theorem node_append_of_ne (ms : List Mention) (m : Mention) {id : String} (h : m.id ≠ id) :
    node (ms ++ [m]) id = node ms id := by
  simp only [node, bracket?, properties, mentionsOf_append_of_ne ms m h]

end Meaning

/-- The change that a mention makes to the node that it names. -/
def Mention.change (m : Mention) (n : Node) : Node :=
  (match m.bracket with
    | some b => Draft.reshape b n
    | none => n).addStyle (.ofProperties m.properties)

/-- Every bracket of a mention is tidy. -/
def Mention.Tidy (m : Mention) : Prop := ∀ b, m.bracket = some b → b.Tidy

theorem Statement.tidy_of_mem_mentions {s : Statement} {m : Mention} (h : s.Tidy)
    (hm : m ∈ s.mentions) : m.Tidy := by
  intro b hb
  -- Brackets are mentioned by declarations and at both ends of an edge.
  cases s with
  | declare id bracket =>
      rw [List.mem_singleton.mp hm] at hb
      rw [← Option.some.inj hb]
      exact h
  | restyle id ps =>
      rw [List.mem_singleton.mp hm] at hb
      exact absurd hb (by simp only [reduceCtorEq, not_false_eq_true])
  | connect c =>
      rcases List.mem_cons.mp hm with rfl | hm
      · exact h.1 b hb
      · rw [List.mem_singleton.mp hm] at hb
        exact h.2 b hb

namespace Meaning

theorem node_append_self (ms : List Mention) (m : Mention) (htidy : m.Tidy) :
    node (ms ++ [m]) m.id = m.change (node ms m.id) := by
  -- What was mentioned last is what is added to properties and brackets.
  have hps : properties (ms ++ [m]) m.id = properties ms m.id ++ m.properties := by
    rw [properties, mentionsOf_append_self, List.flatMap_append, List.flatMap_singleton]
    rfl
  have hbracket : bracket? (ms ++ [m]) m.id = m.bracket.or (bracket? ms m.id) := by
    rw [bracket?, mentionsOf_append_self, getLast?_filterMap_append]
    rfl
  have hstyle := style?_append (properties ms m.id) m.properties
  rw [Mention.change, ofProperties_eq]
  cases hb : m.bracket with
  | none =>
      -- The last bracket is the one from before.
      rw [hb, Option.none_or] at hbracket
      simp only [node, hps, hbracket, hstyle, Node.addStyle]
      split <;> rfl
  | some b =>
      rw [hb, Option.some_or] at hbracket
      -- A tidy label is blank only if it is empty, which is what the draft asks.
      have hreshape : Draft.reshape b (node ms m.id) =
          { node ms m.id with shape := b.shape, label := label m.id (some b) } := by
        simp only [Draft.reshape, label, (htidy b hb).label_eq_empty_iff]
        rfl
      simp only [hreshape]
      simp only [node, hps, hbracket, hstyle, Node.addStyle]
      split <;> rfl

/-! ## Entering mentions one by one -/

/-- Entering an id changes its node where it stands, or adds one at the end
    that was plain before. -/
theorem upsert_map (id : String) (change : Node → Node) (f : String → Node) (xs : List String)
    (hid : ∀ x, (f x).id = x) (hnodup : xs.Nodup) (hplain : id ∉ xs → f id = .named id) :
    Draft.upsert id change (xs.map f) =
      (xs ++ if id ∈ xs then [] else [id]).map fun x => if x = id then change (f x) else f x := by
  induction xs with
  | nil =>
      have h := hplain List.not_mem_nil
      simp only [List.map_nil, Draft.upsert, List.not_mem_nil, if_false, List.nil_append,
        List.map_cons, if_true, h]
  | cons x xs ih =>
      rw [List.nodup_cons] at hnodup
      rw [List.map_cons, Draft.upsert, hid]
      by_cases hx : x = id
      · rw [if_pos hx, if_pos (by rw [hx]; exact List.mem_cons_self), List.append_nil,
          List.map_cons, if_pos hx]
        congr 1
        -- The id stands here, so nowhere in the rest.
        refine List.map_congr_left fun y hy => ?_
        rw [if_neg]
        intro hyid
        exact hnodup.1 (by rw [hx, ← hyid]; exact hy)
      · -- The id does not stand here, so that the rest decides.
        have hmem : id ∈ x :: xs ↔ id ∈ xs := by
          rw [List.mem_cons]
          exact or_iff_right fun h => hx h.symm
        rw [if_neg hx, ih hnodup.2 (fun h => hplain (fun h' => h (hmem.mp h')))]
        simp only [hmem, List.cons_append, List.map_cons, if_neg hx]

/-- Mentions entered one by one give the described nodes, by induction on the
    last of them. -/
theorem foldl_upsert_eq (ms : List Mention) (htidy : ∀ m ∈ ms, m.Tidy) :
    ms.foldl (fun ns m => Draft.upsert m.id m.change ns) [] = nodes ms := by
  induction ms using List.reverseRecOn with
  | nil => rfl
  | append_singleton ms m ih =>
      have hm : m.Tidy := htidy m (List.mem_append_right ms List.mem_cons_self)
      rw [List.foldl_append, ih fun m' hm' => htidy m' (List.mem_append_left [m] hm')]
      simp only [List.foldl_cons, List.foldl_nil, nodes]
      rw [upsert_map m.id m.change (node ms) (ids ms) (fun _ => rfl) (nodup_ids ms)
        (node_of_not_mem ms), ids_append]
      -- Both sides go through the same ids, so it is a matter of each node.
      refine List.map_congr_left fun id _ => ?_
      by_cases hid : id = m.id
      · rw [if_pos hid, hid, node_append_self ms m hm]
      · rw [if_neg hid, node_append_of_ne ms m (fun h => hid h.symm)]

end Meaning

/-! ## Drafts -/

namespace Draft

/-- A statement enters its mentions into the nodes, one after the other. -/
theorem apply_nodes (d : Draft) (s : Statement) :
    (d.apply s).nodes =
      s.mentions.foldl (fun ns m => upsert m.id m.change ns) d.nodes := by
  cases s with
  | declare id bracket => rfl
  | restyle id ps => rfl
  | connect c =>
      -- Whether an end has a bracket or not, entering it is one change.
      rcases c with ⟨⟨source, sbracket⟩, ⟨target, tbracket⟩, line, label⟩
      cases sbracket <;> cases tbracket <;> rfl

theorem apply_edges (d : Draft) (s : Statement) :
    (d.apply s).edges = d.edges ++ (Meaning.edge? s).toList := by
  cases s with
  | declare id bracket => exact (List.append_nil _).symm
  | restyle id ps => exact (List.append_nil _).symm
  | connect c =>
      rcases c with ⟨⟨source, sbracket⟩, ⟨target, tbracket⟩, line, label⟩
      cases sbracket <;> cases tbracket <;> rfl

theorem foldl_apply_nodes (d : Draft) (ss : List Statement) :
    (ss.foldl apply d).nodes =
      (ss.flatMap Statement.mentions).foldl (fun ns m => upsert m.id m.change ns) d.nodes := by
  induction ss generalizing d with
  | nil => rfl
  | cons s ss ih => rw [List.foldl_cons, ih, apply_nodes, List.flatMap_cons, List.foldl_append]

theorem foldl_apply_edges (d : Draft) (ss : List Statement) :
    (ss.foldl apply d).edges = d.edges ++ Meaning.edges ss := by
  induction ss generalizing d with
  | nil => exact (List.append_nil _).symm
  | cons s ss ih =>
      rw [List.foldl_cons, ih, apply_edges, List.append_assoc, Meaning.edges, Meaning.edges]
      cases h : Meaning.edge? s with
      | none => rw [List.filterMap_cons_none h]; rfl
      | some e => rw [List.filterMap_cons_some h]; rfl

/-- Lines give a draft the graph that their statements describe. -/
theorem graph_foldl_apply (lines : List Source.Line) :
    ((lines.filterMap Source.Line.statement?).foldl apply empty).graph =
      Meaning.graph (lines.filterMap Source.Line.statement?) := by
  rw [graph, foldl_apply_nodes, foldl_apply_edges, Meaning.graph]
  congr 1
  refine Meaning.foldl_upsert_eq _ ?_
  -- Every mention comes from a line that was read.
  intro m hm
  rcases List.mem_flatMap.mp hm with ⟨s, hs, hms⟩
  rcases List.mem_filterMap.mp hs with ⟨line, _, hread⟩
  rcases Option.map_eq_some_iff.mp hread with ⟨⟨form, s'⟩, hread', rfl⟩
  exact Statement.tidy_of_mem_mentions (Statement.tidy_of_ofLine? hread') hms

end Draft

/-! ## Graphs of texts -/

namespace Meaning

theorem map_id_nodes (ms : List Mention) : (nodes ms).map Node.id = ids ms := by
  rw [nodes, List.map_map]
  exact List.map_id _

/-- The ids of a described graph are distinct. -/
theorem nodup_map_id (ss : List Statement) : ((graph ss).nodes.map Node.id).Nodup := by
  rw [graph, map_id_nodes]
  exact nodup_ids _

theorem isSome_node?_of_mem {ss : List Statement} {s : Statement} {m : Mention} (hs : s ∈ ss)
    (hm : m ∈ s.mentions) : ((graph ss).node? m.id).isSome = true := by
  have hid : m.id ∈ ids (ss.flatMap Statement.mentions) := by
    rw [ids, List.mem_eraseDups]
    exact List.mem_map_of_mem (List.mem_flatMap_of_mem hs hm)
  rw [Graph.node?, List.find?_isSome]
  exact ⟨_, List.mem_map_of_mem hid, beq_self_eq_true m.id⟩

/-- Every edge of a described graph comes from a statement that connects two
    nodes. -/
theorem exists_connect_of_mem_edges {ss : List Statement} {e : Edge}
    (he : e ∈ (graph ss).edges) :
    ∃ c, Statement.connect c ∈ ss ∧ edge? (.connect c) = some e := by
  rcases List.mem_filterMap.mp he with ⟨s, hs, hedge⟩
  cases s with
  | declare id bracket => cases hedge
  | restyle id ps => cases hedge
  | connect c => exact ⟨c, hs, hedge⟩

/-- Both ends of every edge of a described graph are nodes, because an edge
    mentions them. -/
theorem dangling_graph (ss : List Statement) : (graph ss).dangling = [] := by
  rw [Graph.dangling, List.filter_eq_nil_iff]
  intro e he
  rcases exists_connect_of_mem_edges he with ⟨c, hs, hedge⟩
  rw [← Option.some.inj hedge]
  have hsource := isSome_node?_of_mem hs (List.mem_cons_self)
  have htarget := isSome_node?_of_mem hs (List.mem_cons_of_mem _ List.mem_cons_self)
  dsimp only at hsource htarget ⊢
  rw [← Option.not_isSome, ← Option.not_isSome, hsource, htarget]
  decide

theorem pinned_eq_false {ss : List Statement} {n : Node} (hn : n ∈ (graph ss).nodes) :
    n.pinned = false := by
  rcases List.mem_map.mp hn with ⟨id, _, rfl⟩
  rfl

end Meaning

theorem Reading.map_graph (source : String) :
    (ofSource? source).map (fun r => r.draft.graph) =
      if source.toList.all Text.isBlank then .error ⟨[.emptyInput]⟩
      else .ok (Meaning.graph (Source.statements source)) := by
  unfold ofSource?
  split
  · rfl
  · dsimp only [Except.map]
    rw [Draft.graph_foldl_apply]
    rfl

theorem Diagram.map_graph_parse (strict : Bool) (source : String) :
    (parse strict source).map Diagram.graph =
      if source.toList.all Text.isBlank then .error ⟨[.emptyInput]⟩
      else .ok (Meaning.graph (Source.statements source)) := by
  rw [← Reading.map_graph, parse_eq]
  cases Reading.ofSource? source <;> rfl

/-- A graph that was read is described by the statements of its text. -/
theorem Diagram.graph_of_parse {strict : Bool} {source : String} {d : Diagram}
    (h : parse strict source = .ok d) : d.graph = Meaning.graph (Source.statements source) := by
  have hmap := map_graph_parse strict source
  rw [h] at hmap
  split at hmap
  · exact absurd hmap (by simp only [Except.map, reduceCtorEq, not_false_eq_true])
  · exact Except.ok.inj hmap

/-- A text is refused only if it is blank, and then for that one reason. Every
    other text is read as the graph that its statements describe, strictly or
    not, with distinct ids and both ends of every edge among the nodes. -/
theorem parse_eq_meaning (strict : Bool) (source : String) :
    (Diagram.parse strict source).map Diagram.graph =
        (if source.toList.all Text.isBlank then .error ⟨[.emptyInput]⟩
        else .ok (Meaning.graph (Source.statements source))) ∧
      Diagnostic.emptyInput.code.map Code.text = some "E001" ∧
      ((Meaning.graph (Source.statements source)).nodes.map Node.id).Nodup ∧
      (Meaning.graph (Source.statements source)).dangling = [] :=
  ⟨Diagram.map_graph_parse strict source, rfl, Meaning.nodup_map_id _, Meaning.dangling_graph _⟩

end Flowchart
