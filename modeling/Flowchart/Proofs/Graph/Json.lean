import Flowchart.Graph.Json
import Flowchart.Proofs.Json.Compact

/-!
# Graphs Read Back

A graph that was written is read as the same graph, field for field. What a
record leaves out when it is written is what it takes for granted when it is
read: an absent field is not set, and a present one was. A style that chooses
nothing and a list of no points are present, and so they come back.

Only numbers can go wrong. `ReadsBack` is asked of the numbers of the graph at
hand, each by itself, and of no others. Ids need not be distinct, and colors
carry their own proof that their text is a color.

## Main definitions

* `Json.Stores`: A value can be written, and is read as something.
* `Graph.singles`, `Drawing.singles`: All numbers of a graph and a drawing.

## Theorems

* `fields?_present`: The fields of a record are found again, present or absent.
* `stores_record`: A record is read back if its fields are.
* `Node.stores`, `Edge.stores`, `Graph.stores`, `Drawing.stores`: Every part of
  a drawing is read back.
* `Stores.bind_parse?`, `Stores.bind_parse?_compact`: And so it is from its
  text.
-/

namespace Flowchart

namespace Json

/-- A value can be written, and is read as `a`. -/
structure Stores {α : Type} (v : Json) (read : Json → Option α) (a : α) : Prop where
  legible : v.Legible
  read : read v = some a

variable {α : Type}

/-! ## Records -/

/-- The members of the object that a record is written as. -/
def members (ms : List (String × Option Json)) : List (Option String × Json) :=
  (present ms).map fun (k, v) => (some k, v)

theorem valuesOf_cons (name key : String) (v : Json) (ms : List (Option String × Json)) :
    valuesOf name ((some key, v) :: ms) =
      if key = name then v :: valuesOf name ms else valuesOf name ms := by
  unfold valuesOf
  by_cases hkey : key = name
  · rw [if_pos hkey, List.filter_cons_of_pos (by rw [hkey]; exact beq_self_eq_true _)]
    rfl
  · have hneg : ¬(some key == some name) = true := fun heq => hkey (Option.some.inj (eq_of_beq heq))
    rw [if_neg hkey, List.filter_cons_of_neg]
    exact hneg

theorem valuesOf_of_not_mem {name : String} {ms : List (String × Option Json)}
    (h : name ∉ ms.map Prod.fst) : valuesOf name (members ms) = [] := by
  induction ms with
  | nil => rfl
  | cons m ms ih =>
      rcases m with ⟨key, value⟩
      rw [List.map_cons, List.mem_cons, not_or] at h
      cases value with
      | none => exact ih h.2
      | some v =>
          have hcons := valuesOf_cons name key v (members ms)
          rw [if_neg (Ne.symm h.1), ih h.2] at hcons
          exact hcons

/-- The value of a name is the one that was given for it, if one was. -/
theorem valuesOf_members {ms : List (String × Option Json)} (hnodup : (ms.map Prod.fst).Nodup)
    {m : String × Option Json} (hm : m ∈ ms) : valuesOf m.1 (members ms) = m.2.toList := by
  induction ms with
  | nil => cases hm
  | cons x ms ih =>
      rw [List.map_cons, List.nodup_cons] at hnodup
      rcases List.mem_cons.mp hm with rfl | hmem
      · -- The first field has the name, and no later one has.
        have hrest := valuesOf_of_not_mem hnodup.1
        rcases m with ⟨key, value⟩
        cases value with
        | none => exact hrest
        | some v =>
            have hcons := valuesOf_cons key key v (members ms)
            rw [if_pos rfl, hrest] at hcons
            exact hcons
      · have hrest := ih hnodup.2 hmem
        rcases x with ⟨key, value⟩
        cases value with
        | none => exact hrest
        | some v =>
            -- The name is found among the later fields, and the first one has another.
            have hkey : key ≠ m.1 := by
              intro hsame
              have hlater : m.1 ∈ ms.map Prod.fst := List.mem_map_of_mem hmem
              rw [← hsame] at hlater
              exact hnodup.1 hlater
            have hcons := valuesOf_cons m.1 key v (members ms)
            rw [if_neg hkey, hrest] at hcons
            exact hcons

/-- The fields of a record are found again, each present or absent as it was
    written. -/
theorem fields?_present {ms : List (String × Option Json)} (hnodup : (ms.map Prod.fst).Nodup) :
    (ofMembers (present ms)).fields? (ms.map Prod.fst) = some (ms.map Prod.snd) := by
  have hvalues : ∀ m ∈ ms, valuesOf m.1 (members ms) = m.2.toList :=
    fun m hm => valuesOf_members hnodup hm
  have hobject : ofMembers (present ms) = .object (members ms) := rfl
  rw [hobject, fields?, if_neg]
  · -- From here on the members do not change with the fields.
    generalize members ms = all at hvalues
    clear hnodup hobject
    induction ms with
    | nil => rfl
    | cons m ms ih =>
        have hm := hvalues m List.mem_cons_self
        rw [List.map_cons, List.mapM_cons, hm, ih fun x hx => hvalues x (List.mem_cons_of_mem m hx)]
        rcases m with ⟨key, value⟩
        cases value <;> rfl
  · -- Every member was written with its name.
    rw [members, List.any_map, List.any_eq_true]
    rintro ⟨_, _, hkey⟩
    exact Bool.false_ne_true hkey

/-- A record is legible if the fields that are present are. -/
theorem legible_present {ms : List (String × Option Json)}
    (h : ∀ m ∈ ms, ∀ v, m.2 = some v → v.Legible) : (ofMembers (present ms)).Legible := by
  refine .object ?_ ?_
  · intro m hm
    rcases List.mem_map.mp hm with ⟨_, _, rfl⟩
    rfl
  · intro m hm
    rcases List.mem_map.mp hm with ⟨⟨key, v⟩, hkv, rfl⟩
    rcases List.mem_filterMap.mp hkv with ⟨x, hx, hv⟩
    rcases Option.map_eq_some_iff.mp hv with ⟨w, hw, heq⟩
    rw [← (Prod.mk.inj heq).2]
    exact h x hx w hw

/-- A record is read back if it is read from fields as they were written. -/
theorem stores_record {α : Type} {read : Json → Option α} {a : α} (names : List String)
    (ms : List (String × Option Json)) (hnames : ms.map Prod.fst = names) (hnodup : names.Nodup)
    (hlegible : ∀ m ∈ ms, ∀ v, m.2 = some v → v.Legible)
    (hread : ∀ json : Json, json.fields? names = some (ms.map Prod.snd) → read json = some a) :
    Stores (ofMembers (present ms)) read a := by
  refine ⟨legible_present hlegible, hread _ ?_⟩
  rw [← hnames] at hnodup ⊢
  exact fields?_present hnodup

/-! ## Fields -/

theorem stores_text (s : String) : Stores (ofText s) text? s := ⟨.string s, rfl⟩

theorem stores_bool (b : Bool) : Stores (.bool b) bool? b := ⟨.bool b, rfl⟩

theorem stores_single {x : Float32} (h : ReadsBack x) : Stores (ofSingle x) single? x :=
  ⟨h.legible, h.single?⟩

variable {read : Json → Option α} {write : α → Json}

theorem stores_list {xs : List α} (h : ∀ x ∈ xs, Stores (write x) read x) :
    Stores (.array (xs.map write)) (list? read) xs := by
  refine ⟨.array ?_, ?_⟩
  · intro v hv
    rcases List.mem_map.mp hv with ⟨x, hx, rfl⟩
    exact (h x hx).legible
  · rw [list?]
    induction xs with
    | nil => rfl
    | cons x xs ih =>
        rw [List.map_cons, List.mapM_cons, (h x List.mem_cons_self).read,
          ih fun y hy => h y (List.mem_cons_of_mem x hy)]
        rfl

/-- A field that may be left out is read as it was, because no value that is
    written for it is a `null`. -/
theorem optional_map (hnull : read .null = none) {o : Option α}
    (h : ∀ a, o = some a → Stores (write a) read a) : optional read (o.map write) = some o := by
  cases o with
  | none => rfl
  | some a =>
      have hread := (h a rfl).read
      rw [Option.map_some]
      unfold optional
      split
      · rename_i heq
        cases heq
      · rename_i heq
        rw [Option.some.inj heq, hnull] at hread
        cases hread
      · rename_i heq
        -- What was written is no null, and so it is read.
        rw [← Option.some.inj heq, hread]
        rfl

theorem legible_map {o : Option α} (h : ∀ a, o = some a → Stores (write a) read a) :
    ∀ v, o.map write = some v → v.Legible := by
  intro v hv
  rcases Option.map_eq_some_iff.mp hv with ⟨a, ha, rfl⟩
  exact (h a ha).legible

theorem legible_some {v : Json} (h : v.Legible) : ∀ w, some v = some w → w.Legible := by
  intro w hw
  rw [← Option.some.inj hw]
  exact h

end Json

/-! ## Numbers -/

/-- The numbers of a point. -/
def Point.singles (p : Point) : List Float32 := [p.x, p.y]

/-- The numbers of a size. -/
def Size.singles (s : Size) : List Float32 := [s.width, s.height]

/-- The coordinates of a node: its position and its size. -/
def Node.coordinates (n : Node) : List Float32 :=
  n.position.toList.flatMap Point.singles ++ n.size.toList.flatMap Size.singles

/-- The width of the stroke of a node, if it has one of its own. -/
def Node.strokeWidth? (n : Node) : Option Float32 := n.style.bind Style.strokeWidth

/-- The numbers of a node. -/
def Node.singles (n : Node) : List Float32 := n.coordinates ++ n.strokeWidth?.toList

/-- The numbers of an edge. -/
def Edge.singles (e : Edge) : List Float32 :=
  e.points.toList.flatMap fun ps => ps.flatMap Point.singles

/-- The coordinates of a graph. -/
def Graph.coordinates (g : Graph) : List Float32 :=
  g.nodes.flatMap Node.coordinates ++ g.edges.flatMap Edge.singles

/-- The numbers of a graph. -/
def Graph.singles (g : Graph) : List Float32 :=
  g.nodes.flatMap Node.singles ++ g.edges.flatMap Edge.singles

/-- The numbers of a drawing. -/
def Drawing.singles (d : Drawing) : List Float32 := d.graph.singles ++ d.bounds.singles

/-! ## Parts of a graph -/

open Json

theorem Point.stores {p : Point} (h : ∀ x ∈ p.singles, ReadsBack x) :
    Stores p.toJson ofJson? p := by
  have hx := stores_single (h p.x List.mem_cons_self)
  have hy := stores_single (h p.y (List.mem_cons_of_mem _ List.mem_cons_self))
  refine stores_record ["x", "y"] [("x", some (ofSingle p.x)), ("y", some (ofSingle p.y))] rfl
    (by decide) ?_ ?_
  · simp only [List.forall_mem_cons]
    exact ⟨legible_some hx.legible, legible_some hy.legible, List.forall_mem_nil _⟩
  · intro json hfields
    rw [ofJson?, hfields]
    simp only [List.map_cons, List.map_nil, bind, Option.bind, required, hx.read, hy.read, pure]

theorem Size.stores {s : Size} (h : ∀ x ∈ s.singles, ReadsBack x) : Stores s.toJson ofJson? s := by
  have hwidth := stores_single (h s.width List.mem_cons_self)
  have hheight := stores_single (h s.height (List.mem_cons_of_mem _ List.mem_cons_self))
  refine stores_record ["width", "height"]
    [("width", some (ofSingle s.width)), ("height", some (ofSingle s.height))] rfl (by decide) ?_ ?_
  · simp only [List.forall_mem_cons]
    exact ⟨legible_some hwidth.legible, legible_some hheight.legible, List.forall_mem_nil _⟩
  · intro json hfields
    rw [ofJson?, hfields]
    simp only [List.map_cons, List.map_nil, bind, Option.bind, required, hwidth.read, hheight.read,
      pure]

/-- A color is read back, because its text was checked when it was made. -/
theorem Color.stores (c : Color) : Stores c.toJson ofJson? c := by
  refine ⟨.string c.css, ?_⟩
  simp only [ofJson?, toJson, ofText, text?, bind, Option.bind, parse_css]

theorem Shape.stores (s : Shape) : Stores (ofText s.text) ofJson? s := by
  refine ⟨.string _, ?_⟩
  cases s <;> rfl

theorem Line.stores (l : Line) : Stores (ofText l.text) ofJson? l := by
  refine ⟨.string _, ?_⟩
  cases l <;> rfl

theorem Style.stores {s : Style} (h : ∀ x, s.strokeWidth = some x → ReadsBack x) :
    Stores s.toJson ofJson? s := by
  have hcolor : ∀ (o : Option Color) (c : Color), o = some c → Stores c.toJson Color.ofJson? c :=
    fun _ c _ => c.stores
  have hwidth : ∀ x, s.strokeWidth = some x → Stores (ofSingle x) single? x :=
    fun x hx => stores_single (h x hx)
  -- Each of the three may be left out, and none is written as a null.
  have hfill' := optional_map rfl (hcolor s.fill)
  have hstroke' := optional_map rfl (hcolor s.stroke)
  have hwidth' := optional_map rfl hwidth
  refine stores_record ["fill", "stroke", "strokeWidth"] _ rfl (by decide) ?_ ?_
  · simp only [List.forall_mem_cons]
    exact ⟨legible_map (hcolor s.fill), legible_map (hcolor s.stroke), legible_map hwidth,
      List.forall_mem_nil _⟩
  · intro json hfields
    rw [ofJson?, hfields]
    simp only [List.map_cons, List.map_nil, bind, Option.bind, hfill', hstroke', hwidth', pure]

theorem Node.stores {n : Node} (h : ∀ x ∈ n.singles, ReadsBack x) : Stores n.toJson ofJson? n := by
  -- The numbers of each part are among those of the node.
  have hposition : ∀ p, n.position = some p → Stores p.toJson Point.ofJson? p := by
    intro p hp
    refine Point.stores fun x hx => h x ?_
    simp only [singles, coordinates, hp, Option.toList, List.flatMap_cons, List.mem_append]
    exact Or.inl (Or.inl (Or.inl hx))
  have hsize : ∀ s, n.size = some s → Stores s.toJson Size.ofJson? s := by
    intro s hs
    refine Size.stores fun x hx => h x ?_
    simp only [singles, coordinates, hs, Option.toList, List.flatMap_cons, List.mem_append]
    exact Or.inl (Or.inr (Or.inl hx))
  have hstyle : ∀ s, n.style = some s → Stores s.toJson Style.ofJson? s := by
    intro s hs
    refine Style.stores fun x hx => h x ?_
    simp only [singles, strokeWidth?, hs, Option.bind_some, hx, Option.toList, List.mem_append]
    exact Or.inr List.mem_cons_self
  have hposition' := optional_map rfl hposition
  have hsize' := optional_map rfl hsize
  have hstyle' := optional_map rfl hstyle
  refine stores_record ["id", "label", "shape", "position", "size", "style", "pinned"] _ rfl
    (by decide) ?_ ?_
  · simp only [List.forall_mem_cons]
    exact ⟨legible_some (.string n.id), legible_some (.string n.label),
      legible_some n.shape.stores.legible, legible_map hposition, legible_map hsize,
      legible_map hstyle, legible_some (.bool n.pinned), List.forall_mem_nil _⟩
  · intro json hfields
    rw [ofJson?, hfields]
    simp only [List.map_cons, List.map_nil, bind, Option.bind, required, withDefault,
      (stores_text n.id).read, (stores_text n.label).read, n.shape.stores.read, hposition', hsize',
      hstyle', (stores_bool n.pinned).read, pure]

theorem Edge.stores {e : Edge} (h : ∀ x ∈ e.singles, ReadsBack x) : Stores e.toJson ofJson? e := by
  have hlabel : ∀ s, e.label = some s → Stores (ofText s) text? s := fun s _ => stores_text s
  -- Only the points have numbers.
  have hpoints : ∀ ps, e.points = some ps →
      Stores (.array (ps.map Point.toJson)) (list? Point.ofJson?) ps := by
    intro ps hps
    refine stores_list fun p hp => Point.stores fun x hx => h x ?_
    simp only [singles, hps, Option.toList, List.flatMap_cons, List.flatMap_nil, List.append_nil]
    exact List.mem_flatMap_of_mem hp hx
  have hlabel' := optional_map rfl hlabel
  have hpoints' := optional_map rfl hpoints
  refine stores_record ["id", "from", "to", "label", "type", "points"] _ rfl (by decide) ?_ ?_
  · simp only [List.forall_mem_cons]
    exact ⟨legible_some (.string e.id), legible_some (.string e.source),
      legible_some (.string e.target), legible_map hlabel, legible_some e.line.stores.legible,
      legible_map hpoints, List.forall_mem_nil _⟩
  · intro json hfields
    rw [ofJson?, hfields]
    simp only [List.map_cons, List.map_nil, bind, Option.bind, required, withDefault,
      (stores_text e.id).read, (stores_text e.source).read, (stores_text e.target).read, hlabel',
      e.line.stores.read, hpoints', pure]

/-! ## Graphs and drawings -/

theorem Graph.stores {g : Graph} (h : ∀ x ∈ g.singles, ReadsBack x) :
    Stores g.toJson ofJson? g := by
  have hnodes : Stores (.array (g.nodes.map Node.toJson)) (list? Node.ofJson?) g.nodes :=
    stores_list fun n hn => Node.stores fun x hx =>
      h x (List.mem_append_left _ (List.mem_flatMap_of_mem hn hx))
  have hedges : Stores (.array (g.edges.map Edge.toJson)) (list? Edge.ofJson?) g.edges :=
    stores_list fun e he => Edge.stores fun x hx =>
      h x (List.mem_append_right _ (List.mem_flatMap_of_mem he hx))
  refine stores_record ["nodes", "edges"]
    [("nodes", some (.array (g.nodes.map Node.toJson))),
      ("edges", some (.array (g.edges.map Edge.toJson)))] rfl (by decide) ?_ ?_
  · simp only [List.forall_mem_cons]
    exact ⟨legible_some hnodes.legible, legible_some hedges.legible, List.forall_mem_nil _⟩
  · intro json hfields
    rw [ofJson?, hfields]
    simp only [List.map_cons, List.map_nil, bind, Option.bind, withDefault, hnodes.read,
      hedges.read, pure]

theorem Drawing.stores {d : Drawing} (h : ∀ x ∈ d.singles, ReadsBack x) :
    Stores d.toJson ofJson? d := by
  have hgraph : Stores d.graph.toJson Graph.ofJson? d.graph :=
    Graph.stores fun x hx => h x (List.mem_append_left _ hx)
  have hbounds : Stores d.bounds.toJson Size.ofJson? d.bounds :=
    Size.stores fun x hx => h x (List.mem_append_right _ hx)
  refine stores_record ["graph", "bounds"]
    [("graph", some d.graph.toJson), ("bounds", some d.bounds.toJson)] rfl (by decide) ?_ ?_
  · simp only [List.forall_mem_cons]
    exact ⟨legible_some hgraph.legible, legible_some hbounds.legible, List.forall_mem_nil _⟩
  · intro json hfields
    rw [ofJson?, hfields]
    simp only [List.map_cons, List.map_nil, bind, Option.bind, required, hgraph.read, hbounds.read,
      pure]

namespace Json

variable {α : Type} {v : Json} {read : Json → Option α} {a : α}

/-- What can be written and read is read from its text. -/
theorem Stores.bind_parse? (h : Stores v read a) : (parse? v.pretty).bind read = some a := by
  rw [parse?_pretty h.legible, Option.bind_some, h.read]

/-- The same holds of its text on one line. -/
theorem Stores.bind_parse?_compact (h : Stores v read a) :
    (parse? v.compact).bind read = some a := by
  rw [parse?_compact h.legible, Option.bind_some, h.read]

end Json

end Flowchart
