import Flowchart.Proofs.Diagram.Strictness
import Flowchart.Proofs.Graph.Json

/-!
# Numbers of a Graph That Was Read

A graph is written and read back as it was if its numbers are finite. Numbers
that are not finite are written as `null`, and come back as nothing or are
refused. A graph that was read from a flowchart text has none of them. Its
nodes have neither position nor size and its edges no points, so the widths of
strokes are all the numbers that it has, and a width is refused by the reader
of styles unless it is finite and not negative.

## Theorems

* `Property.usable_width?`: A property only sets widths that a stroke can have.
* `Meaning.usable_singles`: The numbers of a graph that was read are such
  widths.
* `graph_round_trip`: Graphs and drawings with finite numbers are read back from
  their texts, and so is every graph that was read from a flowchart.
-/

namespace Flowchart

/-- A width that is not finite, or is negative, is refused. -/
theorem Property.usable_width? {p : Property} {w : Float32} (h : p.width? = some w) :
    w.isFinite = true ∧ 0 ≤ w := by
  unfold width? at h
  split at h
  · unfold strokeWidth? at h
    rcases Option.bind_eq_some_iff.mp h with ⟨decimal, _, hwidth⟩
    dsimp only at hwidth
    split at hwidth
    · rename_i hguard
      rw [← Option.some.inj hwidth]
      have hboth := Bool.and_eq_true_iff.mp hguard
      exact ⟨hboth.1, of_decide_eq_true hboth.2⟩
    · cases hwidth
  · cases h

namespace Meaning

/-- The width of a stroke in a graph that was read is one that a stroke can
    have. -/
theorem usable_strokeWidth? {ss : List Statement} {n : Node}
    (hn : n ∈ (graph ss).nodes) {w : Float32} (h : n.strokeWidth? = some w) :
    w.isFinite = true ∧ 0 ≤ w := by
  rcases List.mem_map.mp hn with ⟨id, _, rfl⟩
  rcases Option.bind_eq_some_iff.mp h with ⟨style, hstyle, hw⟩
  have hchoices : style = choices (properties (ss.flatMap Statement.mentions) id) := by
    have hsome : style? (properties (ss.flatMap Statement.mentions) id) = some style := hstyle
    unfold style? at hsome
    split at hsome
    · cases hsome
    · exact (Option.some.inj hsome).symm
  rw [hchoices] at hw
  rcases List.mem_filterMap.mp (List.mem_of_getLast? hw) with ⟨p, _, hp⟩
  exact p.usable_width? hp

/-- Nothing that was read has a place yet. -/
theorem coordinates_eq_nil {ss : List Statement} {n : Node} (hn : n ∈ (graph ss).nodes) :
    n.coordinates = [] := by
  rcases List.mem_map.mp hn with ⟨id, _, rfl⟩
  rfl

/-- No edge that was read has a route yet. -/
theorem singles_edge_eq_nil {ss : List Statement} {e : Edge} (he : e ∈ (graph ss).edges) :
    e.singles = [] := by
  rcases exists_connect_of_mem_edges he with ⟨c, _, hedge⟩
  rw [← Option.some.inj hedge]
  rfl

/-- All numbers of a graph that was read are widths that a stroke can have. -/
theorem usable_singles {ss : List Statement} {x : Float32} (hx : x ∈ (graph ss).singles) :
    x.isFinite = true ∧ 0 ≤ x := by
  rcases List.mem_append.mp hx with hx | hx
  · rcases List.mem_flatMap.mp hx with ⟨n, hn, hx⟩
    rw [Node.singles, coordinates_eq_nil hn, List.nil_append, Option.mem_toList] at hx
    exact usable_strokeWidth? hn hx
  · rcases List.mem_flatMap.mp hx with ⟨e, he, hx⟩
    rw [singles_edge_eq_nil he] at hx
    exact absurd hx List.not_mem_nil

end Meaning

/-- Graphs and drawings whose numbers are finite are read back from either of
    their texts, field for field, if the text of a finite number gives the
    number back. Every graph that was read from a flowchart is among them, and
    has no negative numbers either. -/
theorem graph_round_trip :
    (∀ g : Graph, (∀ x ∈ g.singles, x.isFinite = true) →
      (∀ x ∈ g.singles, x.isFinite = true → Json.ReadsBack x) →
      ∀ text ∈ [g.toJson.pretty, g.toJson.compact],
        (Json.parse? text).bind Graph.ofJson? = some g) ∧
    (∀ d : Drawing, (∀ x ∈ d.singles, x.isFinite = true) →
      (∀ x ∈ d.singles, x.isFinite = true → Json.ReadsBack x) →
      ∀ text ∈ [d.toJson.pretty, d.toJson.compact],
        (Json.parse? text).bind Drawing.ofJson? = some d) ∧
    ∀ strict source diagram, Diagram.parse strict source = .ok diagram →
      (∀ x ∈ diagram.graph.singles, x.isFinite = true ∧ 0 ≤ x) ∧
      ((∀ x ∈ diagram.graph.singles, x.isFinite = true → Json.ReadsBack x) →
        ∀ text ∈ [diagram.graph.toJson.pretty, diagram.graph.toJson.compact],
          (Json.parse? text).bind Graph.ofJson? = some diagram.graph) := by
  have hgraph : ∀ g : Graph, (∀ x ∈ g.singles, x.isFinite = true) →
      (∀ x ∈ g.singles, x.isFinite = true → Json.ReadsBack x) →
      ∀ text ∈ [g.toJson.pretty, g.toJson.compact],
        (Json.parse? text).bind Graph.ofJson? = some g := by
    intro g hfinite hreads
    have hstores := Graph.stores fun x hx => hreads x hx (hfinite x hx)
    simp only [List.forall_mem_cons]
    exact ⟨hstores.bind_parse?, hstores.bind_parse?_compact, List.forall_mem_nil _⟩
  refine ⟨hgraph, fun d hfinite hreads => ?_, fun strict source diagram hparse => ?_⟩
  · have hstores := Drawing.stores fun x hx => hreads x hx (hfinite x hx)
    simp only [List.forall_mem_cons]
    exact ⟨hstores.bind_parse?, hstores.bind_parse?_compact, List.forall_mem_nil _⟩
  · -- A graph that was read has no numbers but widths of strokes, and these were checked.
    have husable : ∀ x ∈ diagram.graph.singles, x.isFinite = true ∧ 0 ≤ x := by
      rw [Diagram.graph_of_parse hparse]
      exact fun x hx => Meaning.usable_singles hx
    exact ⟨husable, hgraph diagram.graph fun x hx => (husable x hx).1⟩

/-- Ids are repeated, one text needs escapes and one is not plain Latin, a style
    chooses nothing, a list of points is empty, and a color keeps its spelling.
    The flowchart has a width, and a second one that is refused. -/
theorem graph_round_trip_odd :
    let blank : Node := { Node.named "A" with style := some .empty, position := some ⟨0.1, -7⟩ }
    let red : Node :=
      { Node.named "A" with
        label := "\"\n\t\x01é😀", shape := .stadium, size := some ⟨1, 2.5⟩, pinned := true
        style := some { fill := (Color.parse " Red ").toOption, strokeWidth := some 3 } }
    let e : Edge := { Edge.between "A" "Z" with points := some [], label := some "" }
    let d : Drawing :=
      ⟨⟨[blank, red], [e, { e with points := some [⟨1, 2⟩], line := .dotted }]⟩, ⟨1000, 0⟩⟩
    let source := "A --> B\nstyle A fill:#F00,stroke-width:2.5\nstyle B stroke-width:-1"
    (∀ x ∈ d.singles, x.isFinite = true ∧ Json.ReadsBack x) ∧
      red.style.bind Style.fill ≠ none ∧
      (Json.parse? d.toJson.pretty).bind Drawing.ofJson? = some d ∧
      (Json.parse? d.graph.toJson.compact).bind Graph.ofJson? = some d.graph ∧
      ∃ diagram, Diagram.parse true source = .ok diagram ∧ diagram.graph.singles = [2.5] ∧
        (Json.parse? diagram.graph.toJson.compact).bind Graph.ofJson? = some diagram.graph := by
  intro blank red e d source
  have hsingles : ∀ x ∈ d.singles, x.isFinite = true ∧ Json.ReadsBack x := by decide +kernel
  have hgraph : ∀ x ∈ d.graph.singles, x.isFinite = true ∧ Json.ReadsBack x :=
    fun x hx => hsingles x (List.mem_append_left _ hx)
  rcases graph_round_trip with ⟨hgraphs, hdrawings, hread⟩
  refine ⟨hsingles, by decide +kernel, ?_, ?_, ?_⟩
  · exact hdrawings d (fun x hx => (hsingles x hx).1) (fun x hx _ => (hsingles x hx).2) _
      List.mem_cons_self
  · exact hgraphs d.graph (fun x hx => (hgraph x hx).1) (fun x hx _ => (hgraph x hx).2) _
      (List.mem_cons_of_mem _ List.mem_cons_self)
  · have hwidths : (Diagram.parse true source).map (fun diagram => diagram.graph.singles) =
        .ok [2.5] := by decide +kernel
    cases hparse : Diagram.parse true source with
    | error e =>
        rw [hparse] at hwidths
        cases hwidths
    | ok diagram =>
        rw [hparse] at hwidths
        have hsame : diagram.graph.singles = [2.5] := Except.ok.inj hwidths
        have hback : ∀ x ∈ diagram.graph.singles, x.isFinite = true → Json.ReadsBack x := by
          rw [hsame]
          decide +kernel
        exact ⟨diagram, rfl, hsame, (hread true source diagram hparse).2 hback _
          (List.mem_cons_of_mem _ List.mem_cons_self)⟩

end Flowchart
