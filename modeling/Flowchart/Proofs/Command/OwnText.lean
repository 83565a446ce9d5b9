import Flowchart.Proofs.Diagram.Strictness
import Flowchart.Proofs.Disk.Tree
import Flowchart.Proofs.Graph.Parsed
import Flowchart.Proofs.Layout.Relayout

/-!
# The Command Reproduces Its Own Text

A drawing that was written may be named as the source of pins for the next run.
If the flowchart and the configuration are the same, the next run writes the
same text again, and would do so for ever.

Two things come together. The text gives back the drawing, and so the pins of
its graph. And these are just the pins that the first run had carried over, no
matter where from: a graph that was read from a text has no pins of its own, a
layout by any engine keeps the pins that it was given, and it adds none. So the
second run lays out the very graph that the first one did.

That the text gives back the drawing rests on its numbers. Coordinates are
asked to be finite, because others are written as `null`: those of nodes and
routes, and also the two of the sheet, which is measured from them and may be
out of range where they are not. The widths of strokes need not be asked for:
one that is not finite is refused when the flowchart is read.

## Main definitions

* `Drawing.coordinates`: The numbers of a drawing but for widths of strokes.
* `Command.Stages`: The stages of a run.
* `Command.Follows`: A run that is given the text of another one.

## Theorems

* `Graph.pinsFrom_layout`: A layout leaves the pins that were carried over.
* `Command.deliver_eq_ok_iff`: A run that delivers something went through its
  stages.
* `Command.deliver_again`: The stages of the next run.
* `own_text_reproduces`: A run with its own text as the source of pins.
-/

namespace Flowchart

/-- The numbers of a drawing but for widths of strokes. -/
def Drawing.coordinates (d : Drawing) : List Float32 := d.graph.coordinates ++ d.bounds.singles

/-! ## Widths of strokes -/

/-- A number of a drawing is a coordinate or the width of a stroke. -/
theorem Drawing.mem_singles {d : Drawing} {x : Float32} (h : x ∈ d.singles) :
    x ∈ d.coordinates ∨ ∃ n ∈ d.graph.nodes, n.strokeWidth? = some x := by
  simp only [singles, Graph.singles, coordinates, Graph.coordinates, List.mem_append,
    List.mem_flatMap, Node.singles] at h ⊢
  rcases h with (⟨n, hn, hx | hx⟩ | he) | hb
  · exact Or.inl (Or.inl (Or.inl ⟨n, hn, hx⟩))
  · exact Or.inr ⟨n, hn, Option.mem_toList.mp hx⟩
  · exact Or.inl (Or.inl (Or.inr he))
  · exact Or.inl (Or.inr hb)

/-- Neither pins nor a layout change the style of a node. -/
theorem Node.SettledAs.strokeWidth?_eq {n n' : Node} (h : n.SettledAs n') :
    n'.strokeWidth? = n.strokeWidth? := by
  rcases h with ⟨position, size, rfl, _⟩
  rfl

theorem Graph.exists_strokeWidth?_pinsFrom {g older : Graph} {n' : Node}
    (hn' : n' ∈ (g.pinsFrom older).nodes) : ∃ n ∈ g.nodes, n'.strokeWidth? = n.strokeWidth? := by
  rw [nodes_pinsFrom] at hn'
  rcases List.mem_map.mp hn' with ⟨n, hn, rfl⟩
  refine ⟨n, hn, ?_⟩
  cases older.pin? n.id <;> rfl

/-! ## Pins of a drawing -/

namespace Graph

/-- There are no pins to be carried over from nothing. -/
theorem pinsFrom_empty (g : Graph) : g.pinsFrom .empty = g := by
  have hnodes : (g.pinsFrom .empty).nodes = g.nodes := List.map_id _
  exact congrArg (Graph.mk · g.edges) hnodes

/-- A layout leaves the pins that were carried over, so they can be taken from
    the drawing as well. -/
theorem pinsFrom_layout {g : Graph} (hnodup : (g.nodes.map Node.id).Nodup)
    (hfree : ∀ n ∈ g.nodes, n.pinned = false) (older : Graph) (engine : Engine)
    (options : Engine.Options) (grid : Grid) :
    g.pinsFrom ((g.pinsFrom older).layout engine options grid).graph = g.pinsFrom older := by
  have hwell : (g.pinsFrom older).WellPinned := WellPinned.pinsFrom hnodup hfree
  have hsettled := Layout.run_settled engine options grid (g.pinsFrom older)
  -- The search finds the same pin in both, id by id.
  have hsame : ∀ n ∈ g.nodes,
      ((g.pinsFrom older).layout engine options grid).graph.pin? n.id = older.pin? n.id := by
    intro n hn
    have hcarried : n.withPin (older.pin? n.id) ∈ (g.pinsFrom older).nodes := by
      rw [nodes_pinsFrom]
      exact List.mem_map_of_mem hn
    have hpin := hwell.pin?_of_settled hsettled hcarried
    rw [n.id_withPin, Node.pinnedPosition_withPin (hfree n hn)] at hpin
    exact hpin
  have hnodes : (g.pinsFrom ((g.pinsFrom older).layout engine options grid).graph).nodes =
      (g.pinsFrom older).nodes := by
    rw [nodes_pinsFrom, nodes_pinsFrom]
    exact List.map_congr_left fun n hn => by rw [hsame n hn]
  exact congrArg (Graph.mk · g.edges) hnodes

end Graph

/-! ## Stages of a run -/

theorem Config.graph_of_read {c : Config} {source : String} {diagram : Diagram}
    (h : c.read source = .ok diagram) :
    diagram.graph = Meaning.graph (Source.statements source) := by
  unfold read at h
  split at h
  · rename_i found hparse
    rw [← Except.ok.inj h]
    exact Diagram.graph_of_parse hparse
  · cases h

namespace Command

variable {engine : Engine} {place : Place} {args : Arguments}

theorem readText_eq_ok {disk : Disk} {path text : String} (h : disk.readText path = .ok text) :
    readText disk path = .ok text := by
  rw [readText, h]
  rfl

/-- A configuration that is named is used if its text can be. -/
theorem findConfig_eq_ok {path text : String} {c : Config}
    (htext : place.working.readText path = .ok text) (hcheck : checkConfig text = .ok c) :
    findConfig place (some path) = .ok c := by
  have hcontains : place.working.contains path = true := by
    rcases Row.bind_eq_ok_iff.mp htext with ⟨entry, hentry, _⟩
    rw [Disk.contains, hentry]
    rfl
  rw [findConfig, loadConfig, if_pos hcontains]
  refine Row.bind_eq_ok_iff.mpr ⟨text, readText_eq_ok htext, ?_⟩
  rw [hcheck]
  rfl

/-- The stages of a run that comes to a graph: its configuration, its text, what
    the text says, and the graph with the pins that are carried over. -/
structure Stages (place : Place) (args : Arguments) (c : Config) (source : String)
    (diagram : Diagram) (g : Graph) : Prop where
  config : Command.config place args = .ok c
  input : readText place.working args.input = .ok source
  reading : c.read source = .ok diagram
  pins : withPins place.working diagram.graph args.pins = .ok g

/-- A run that delivers something went through its stages. -/
theorem deliver_eq_ok_iff {delivery : Delivery} :
    deliver engine place args = .ok delivery ↔ ∃ c source diagram g,
      Stages place args c source diagram g ∧
        delivery = ⟨args.output, (c.draw engine g).toJson.pretty, diagram.warnings⟩ := by
  constructor
  · intro h
    -- Each stage that could fail did not.
    rcases Row.bind_eq_ok_iff.mp h with ⟨c, hc, h⟩
    rcases Row.bind_eq_ok_iff.mp h with ⟨source, hsource, h⟩
    rcases Row.bind_eq_ok_iff.mp h with ⟨diagram, hdiagram, h⟩
    rcases Row.bind_eq_ok_iff.mp h with ⟨g, hg, h⟩
    exact ⟨c, source, diagram, g, ⟨hc, hsource, hdiagram, hg⟩, (Except.ok.inj h).symm⟩
  · rintro ⟨c, source, diagram, g, hstages, rfl⟩
    refine Row.bind_eq_ok_iff.mpr ⟨c, hstages.config, ?_⟩
    refine Row.bind_eq_ok_iff.mpr ⟨source, hstages.input, ?_⟩
    refine Row.bind_eq_ok_iff.mpr ⟨diagram, hstages.reading, ?_⟩
    exact Row.bind_eq_ok_iff.mpr ⟨g, hstages.pins, rfl⟩

/-- The drawing of a run is what its stages come to. -/
theorem Stages.drawing_eq_ok {c : Config} {source : String} {diagram : Diagram} {g : Graph}
    (h : Stages place args c source diagram g) (engine : Engine) :
    drawing engine place args = .ok (c.draw engine g) := by
  rcases Row.bind_eq_ok_iff.mp h.config with ⟨found, hfound, hstrict⟩
  have hgraph : Source.graph source = .ok diagram.graph := by
    rw [← c.map_graph_read source, h.reading]
    rfl
  -- How strict the configuration is makes no difference to a layout.
  have hdraw : c.draw engine g = found.draw engine g := by
    rw [← Except.ok.inj hstrict]
    rfl
  rw [hdraw]
  refine Row.bind_eq_ok_iff.mpr ⟨found, hfound, ?_⟩
  refine Row.bind_eq_ok_iff.mpr ⟨source, h.input, ?_⟩
  refine Row.bind_eq_ok_iff.mpr ⟨diagram.graph, hgraph, ?_⟩
  exact Row.bind_eq_ok_iff.mpr ⟨g, h.pins, rfl⟩

/-- Carrying pins over from nowhere is carrying them over from an empty graph. -/
theorem exists_withPins_eq {disk : Disk} {g g' : Graph} {pins : Option String}
    (h : withPins disk g pins = .ok g') : ∃ older : Graph, g' = g.pinsFrom older := by
  cases pins with
  | none => exact ⟨.empty, by rw [g.pinsFrom_empty, Except.ok.inj h]⟩
  | some path =>
      rcases Row.bind_eq_ok_iff.mp h with ⟨older, _, holder⟩
      exact ⟨older, (Except.ok.inj holder).symm⟩

/-- The pins of a drawing are found in a file that holds its text. -/
theorem withPins_of_text {disk : Disk} {path : String} {d : Drawing}
    (hpath : readText disk path = .ok d.toJson.pretty) (hreads : ∀ x ∈ d.singles, Json.ReadsBack x)
    (g : Graph) : withPins disk g (some path) = .ok (g.pinsFrom d.graph) := by
  refine Row.bind_eq_ok_iff.mpr ⟨d.graph, ?_, rfl⟩
  refine Row.bind_eq_ok_iff.mpr ⟨_, hpath, ?_⟩
  rw [(Drawing.stores hreads).bind_parse?]
  rfl

/-- The numbers of a drawing are finite if its coordinates are. -/
theorem isFinite_of_coordinates {g older : Graph} {ss : List Statement} {options : Engine.Options}
    {grid : Grid} (hg : g = (Meaning.graph ss).pinsFrom older)
    (hfinite : ∀ x ∈ (g.layout engine options grid).coordinates, x.isFinite = true) :
    ∀ x ∈ (g.layout engine options grid).singles, x.isFinite = true := by
  intro x hx
  rcases Drawing.mem_singles hx with hx | ⟨n', hn', hwidth⟩
  · exact hfinite x hx
  · rcases Row.exists_left_of_mem (Layout.run_settled engine options grid g) hn' with
      ⟨m, hm, hsettled⟩
    rw [hg] at hm
    rcases Graph.exists_strokeWidth?_pinsFrom hm with ⟨n, hn, hsame⟩
    rw [hsettled.strokeWidth?_eq, hsame] at hwidth
    exact (Meaning.usable_strokeWidth? hn hwidth).1

/-- A run after another one: the flowchart and the configuration are the same,
    and the pins are taken from a file that holds a text. -/
structure Follows (place : Place) (args : Arguments) (text : String) (place' : Place)
    (again : Arguments) : Prop where
  input : readText place'.working again.input = readText place.working args.input
  config : config place' again = config place args
  pins : ∃ path, again.pins = some path ∧ place'.working.readText path = .ok text

/-- The run after delivers the same text. -/
theorem deliver_again {delivery : Delivery} {d : Drawing}
    (hdeliver : deliver engine place args = .ok delivery)
    (hdrawing : drawing engine place args = .ok d)
    (hfinite : ∀ x ∈ d.coordinates, x.isFinite = true)
    (hreads : ∀ x ∈ d.singles, x.isFinite = true → Json.ReadsBack x)
    {place' : Place} {again : Arguments}
    (hfollows : Follows place args delivery.text place' again) :
    deliver engine place' again = .ok { delivery with path := again.output } := by
  rcases deliver_eq_ok_iff.mp hdeliver with ⟨c, source, diagram, g, hstages, rfl⟩
  have hd := Except.ok.inj (hdrawing.symm.trans (hstages.drawing_eq_ok engine))
  have hmeaning := Config.graph_of_read hstages.reading
  rcases exists_withPins_eq hstages.pins with ⟨older, holder⟩
  rw [hmeaning] at holder
  -- Coordinates are finite by assumption, and what was read has no other numbers that are not.
  have hall : ∀ x ∈ d.singles, Json.ReadsBack x := by
    intro x hx
    refine hreads x hx ?_
    rw [hd] at hx hfinite
    exact isFinite_of_coordinates holder hfinite x hx
  -- The run after lays out the same graph.
  have hpinned : diagram.graph.pinsFrom d.graph = g := by
    rw [hd, holder, hmeaning]
    exact Graph.pinsFrom_layout (Meaning.nodup_map_id _) (fun _ hn => Meaning.pinned_eq_false hn)
      older engine c.options c.grid
  rcases hfollows.pins with ⟨path, hpath, htext⟩
  have hagain : withPins place'.working diagram.graph again.pins = .ok g := by
    rw [hpath, ← hpinned]
    refine withPins_of_text (readText_eq_ok ?_) hall diagram.graph
    rw [htext, hd]
  exact deliver_eq_ok_iff.mpr ⟨c, source, diagram, g, ⟨hfollows.config.trans hstages.config,
    hfollows.input.trans hstages.input, hstages.reading, hagain⟩, rfl⟩

theorem run_eq_ok_iff {working tree : Disk.Tree} {settings : Disk} {delivery : Delivery} :
    run engine working settings args = .ok (tree, delivery) ↔
      deliver engine ⟨working.look, settings⟩ args = .ok delivery ∧
        working.write delivery.path delivery.text.toUTF8 = .ok tree := by
  unfold run
  -- A run delivers first and writes then.
  rw [Row.bind_eq_ok_iff]
  constructor
  · rintro ⟨found, hfound, hwrite⟩
    split at hwrite
    · rename_i written hwritten
      rcases Prod.mk.inj (Except.ok.inj hwrite) with ⟨rfl, rfl⟩
      exact ⟨hfound, hwritten⟩
    · cases hwrite
  · rintro ⟨hdeliver, hwrite⟩
    refine ⟨delivery, hdeliver, ?_⟩
    rw [hwrite]
    rfl

end Command

/-- A run whose output is named as the source of pins for the next run writes
    the same text again, if the flowchart and the configuration are the same
    and its coordinates are finite. This holds for every engine and whatever
    pins the first run was given. All that is asked of numbers is that those of
    the drawing read back. In the folder that the first run leaves the next one
    finds the text, and it succeeds there. -/
theorem own_text_reproduces (engine : Engine) (working : Disk.Tree) (settings : Disk)
    (args : Arguments) {tree : Disk.Tree} {delivery : Command.Delivery} {d : Drawing}
    (hrun : Command.run engine working settings args = .ok (tree, delivery))
    (hdrawing : Command.drawing engine ⟨working.look, settings⟩ args = .ok d)
    (hfinite : ∀ x ∈ d.coordinates, x.isFinite = true)
    (hreads : ∀ x ∈ d.singles, x.isFinite = true → Json.ReadsBack x) :
    delivery.text = d.toJson.pretty ∧ tree.look.readText args.output = .ok delivery.text ∧
      (∀ (working' tree' : Disk.Tree) (settings' : Disk) (again : Arguments),
        Command.Follows ⟨working.look, settings⟩ args delivery.text
          ⟨working'.look, settings'⟩ again →
        working'.write again.output delivery.text.toUTF8 = .ok tree' →
        Command.run engine working' settings' again =
          .ok (tree', { delivery with path := again.output })) ∧
      ∀ (settings' : Disk) (again : Arguments),
        Command.Follows ⟨working.look, settings⟩ args delivery.text
          ⟨tree.look, settings'⟩ again →
        again.output = args.output →
        ∃ tree', Command.run engine tree settings' again = .ok (tree', delivery) ∧
          tree'.look.readText args.output = .ok delivery.text := by
  rcases Command.run_eq_ok_iff.mp hrun with ⟨hdeliver, hwrite⟩
  have hwritten := Command.map_deliver engine ⟨working.look, settings⟩ args
  rw [hdeliver, hdrawing] at hwritten
  rcases Prod.mk.inj (Except.ok.inj hwritten) with ⟨hpath, htext⟩
  rw [hpath] at hwrite
  -- Wherever the next run is started, it delivers what this one did.
  have hnext : ∀ (working' tree' : Disk.Tree) (settings' : Disk) (again : Arguments),
      Command.Follows ⟨working.look, settings⟩ args delivery.text ⟨working'.look, settings'⟩ again →
      working'.write again.output delivery.text.toUTF8 = .ok tree' →
      Command.run engine working' settings' again =
        .ok (tree', { delivery with path := again.output }) := by
    intro working' tree' settings' again hfollows hwrite'
    exact Command.run_eq_ok_iff.mpr
      ⟨Command.deliver_again hdeliver hdrawing hfinite hreads hfollows, hwrite'⟩
  refine ⟨htext, Disk.Tree.readText_write hwrite, hnext, ?_⟩
  intro settings' again hfollows houtput
  -- What was written once can be written again.
  rcases Disk.Tree.write_again hwrite delivery.text.toUTF8 with ⟨tree', hwrite'⟩
  rw [← houtput] at hwrite'
  have hrun' := hnext tree tree' settings' again hfollows hwrite'
  have hsame : ({ delivery with path := again.output } : Command.Delivery) = delivery := by
    rw [houtput, ← hpath]
  rw [hsame] at hrun'
  rw [houtput] at hwrite'
  exact ⟨tree', hrun', Disk.Tree.readText_write hwrite'⟩

/-- A pin that was carried over from an older drawing is carried over from the
    next one as well, while the older drawing also pinned a node that is gone. -/
theorem own_text_reproduces_carried :
    let older : Drawing :=
      ⟨⟨[(Node.named "A").pinAt ⟨50, 40⟩, (Node.named "Z").pinAt ⟨1, 2⟩], []⟩, ⟨9, 9⟩⟩
    let working : Disk.Tree :=
      ⟨[(["in.txt"], "A --> B\nstyle A stroke-width:2.5".toUTF8), (["c.toml"], "".toUTF8),
        (["old.json"], older.toJson.pretty.toUTF8)]⟩
    let settings : Disk := fun _ => .error .missing
    let engine : Engine := Engine.layered fun _ _ => .ok []
    let args : Arguments := ⟨"in.txt", "out.json", some "c.toml", "info", false, some "old.json"⟩
    let again : Arguments := { args with pins := some "out.json" }
    ∃ tree delivery d tree', Command.run engine working settings args = .ok (tree, delivery) ∧
      Command.drawing engine ⟨working.look, settings⟩ args = .ok d ∧
      d.graph.nodes.map Node.pinnedPosition = [some ⟨50, 40⟩, none] ∧
      (∀ x ∈ d.coordinates, x.isFinite = true) ∧
      (∀ x ∈ d.singles, x.isFinite = true → Json.ReadsBack x) ∧
      Command.Follows ⟨working.look, settings⟩ args delivery.text ⟨tree.look, settings⟩ again ∧
      Command.run engine tree settings again = .ok (tree', delivery) := by
  intro older working settings engine args again
  let source : String := "A --> B\nstyle A stroke-width:2.5"
  let styled : Node := { Node.named "A" with style := some { strokeWidth := some 2.5 } }
  let diagram : Diagram := ⟨⟨[styled, .named "B"], [.between "A" "B"]⟩, none, []⟩
  let g : Graph := ⟨[styled.pinAt ⟨50, 40⟩, .named "B"], [.between "A" "B"]⟩
  let c : Config := {}
  let d : Drawing := c.draw engine g
  let tree : Disk.Tree := working.put ["out.json"] d.toJson.pretty.toUTF8
  -- Both folders have the flowchart and the configuration.
  have hinput : ∀ t : Disk.Tree, t.file? ["in.txt"] = some source.toUTF8 →
      Command.readText t.look "in.txt" = .ok source := fun t ht =>
    Command.readText_eq_ok (Disk.Tree.readText_of_isName (by decide +kernel) ht)
  have hcheck : Command.checkConfig "" = .ok c := by decide +kernel
  have hconfig : ∀ t : Disk.Tree, t.file? ["c.toml"] = some "".toUTF8 →
      Command.findConfig ⟨t.look, settings⟩ (some "c.toml") = .ok c := fun t ht =>
    Command.findConfig_eq_ok (Disk.Tree.readText_of_isName (by decide +kernel) ht) hcheck
  have hc : Command.config ⟨working.look, settings⟩ args = .ok c := by
    rw [Command.config, hconfig working rfl]
    rfl
  have hsource := hinput working rfl
  have hdiagram : c.read source = .ok diagram := by decide +kernel
  have hg : Command.withPins working.look diagram.graph args.pins = .ok g := by
    have hpinned : diagram.graph.pinsFrom older.graph = g := by decide +kernel
    rw [← hpinned]
    have hold : working.look.readText "old.json" = .ok older.toJson.pretty :=
      Disk.Tree.readText_of_isName (by decide +kernel) rfl
    exact Command.withPins_of_text (Command.readText_eq_ok hold) (by decide +kernel) diagram.graph
  have hstages : Command.Stages ⟨working.look, settings⟩ args c source diagram g :=
    ⟨hc, hsource, hdiagram, hg⟩
  -- The first run goes through its stages and writes.
  have hdeliver : Command.deliver engine ⟨working.look, settings⟩ args =
      .ok ⟨"out.json", d.toJson.pretty, []⟩ :=
    Command.deliver_eq_ok_iff.mpr ⟨c, source, diagram, g, hstages, rfl⟩
  have hdrawing := hstages.drawing_eq_ok engine
  have hwrite : working.write "out.json" d.toJson.pretty.toUTF8 = .ok tree :=
    Disk.Tree.write_of_isName (by decide +kernel) (by decide +kernel)
  have hrun := Command.run_eq_ok_iff.mpr ⟨hdeliver, hwrite⟩
  have hfinite : ∀ x ∈ d.coordinates, x.isFinite = true := by decide +kernel
  have hreads : ∀ x ∈ d.singles, x.isFinite = true → Json.ReadsBack x := by decide +kernel
  -- The second one finds its configuration beside the drawing.
  have hagain : Command.config ⟨tree.look, settings⟩ again = .ok c := by
    rw [Command.config, hconfig tree (Disk.Tree.file?_put_of_ne (by decide))]
    rfl
  have hfollows : Command.Follows ⟨working.look, settings⟩ args d.toJson.pretty
      ⟨tree.look, settings⟩ again :=
    { input := (hinput tree (Disk.Tree.file?_put_of_ne (by decide))).trans hsource.symm
      config := hagain.trans hc.symm
      pins := ⟨"out.json", rfl, Disk.Tree.readText_write hwrite⟩ }
  rcases (own_text_reproduces engine working settings args hrun hdrawing hfinite hreads).2.2.2
    settings again hfollows rfl with ⟨tree', hnext, _⟩
  exact ⟨tree, _, d, tree', hrun, hdrawing, by decide +kernel, hfinite, hreads, hfollows, hnext⟩

end Flowchart
