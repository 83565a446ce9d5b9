import Flowchart.Diagram.Basic

/-!
# Readings

What a text has to say does not hang on how strictly it is read. A pass takes a
collector through the very loop that changes the draft, and a style is put
together between one remark and the next, so this is a fact about each of its
steps. Here the two are told apart and without a pass: all that a draft gets
from a line is its statement, and all that a collector gets is its remarks.

`Pass.Took` ties a pass to both. It holds of one remark, of the properties of a
directive, of a line, and then, by induction, of all lines of a text. What is
left is the collector alone. No remark on a line is an error, so it never makes
a reading fail, and in the end it has every remark or none.

## Main definitions

* `Source.Line.statement?`, `Source.Line.remarks`: What there is in a line.
* `Draft.apply`: The draft after a statement.
* `Collector.emitAll`, `Collector.drops`: Many remarks, and those that get lost.
* `Pass.Took`: A pass has taken in statements and remarks.
* `Reading.ofSource?`: What a text has to say.

## Theorems

* `finish_emitAll_new`: What many remarks come to, errors among them or not.
* `took_style`, `took_readLine`, `took_foldl_readLine`: What a pass takes in.
* `parse_eq`: A diagram is what the text has to say, and only a strict one has
  its remarks.
* `map_discarded_ofSource?`: A lenient reading tells of the same remarks.
-/

namespace Flowchart

/-- The remark on a property that is refused. -/
def Property.remark? (location : Location) (p : Property) : Option Diagnostic :=
  match p.style? with
  | .ok _ => none
  | .error reason => some (.invalidProperty p.key p.value reason location)

namespace Style

/-- The style after a property, which counts only if it is accepted. -/
def lay (style : Style) (p : Property) : Style :=
  match p.style? with
  | .ok top => style.overlay top
  | .error _ => style

/-- The style that properties set together, later ones over earlier ones. -/
def ofProperties (ps : List Property) : Style := ps.foldl lay .empty

end Style

/-- The draft after a statement. -/
def Draft.apply (d : Draft) : Statement → Draft
  | .declare id bracket => d.declare id bracket
  | .connect c => d.connect c
  | .restyle id ps => d.restyle id (.ofProperties ps)

namespace Source.Line

/-- The statement that a line is, if some form reads it. -/
def statement? (line : Line) : Option Statement :=
  (Statement.ofLine? line.text.toList).map Prod.snd

/-- The remarks on a line. -/
def remarks (line : Line) : List Diagnostic :=
  match line.statement? with
  | none => [.unrecognizedLine line]
  | some (.restyle _ ps) => ps.filterMap (·.remark? line.location)
  | some _ => []

end Source.Line

/-- The remark that was dropped in a step. -/
def Step.discarded? : Step → Option Diagnostic
  | .discarded d => some d
  | _ => none

/-- The remarks that were dropped among the steps of a reading. -/
def Trace.discarded (steps : List Step) : List Diagnostic := steps.filterMap Step.discarded?

theorem Trace.discarded_append (steps later : List Step) :
    discarded (steps ++ later) = discarded steps ++ discarded later :=
  List.filterMap_append

/-! ## Collecting -/

namespace Collector

/-- Whether a remark gets lost. -/
def drops (c : Collector) (d : Diagnostic) : Bool := !d.severity.isError && !c.keepsWarnings

/-- The collector after remarks. -/
def emitAll (c : Collector) (ds : List Diagnostic) : Collector :=
  ds.foldl (fun c d => (c.emit d).1) c

theorem emit_fst (c : Collector) (d : Diagnostic) :
    (c.emit d).1 =
      ⟨c.diagnostics ++ [d].filter (!c.drops ·), c.keepsWarnings,
        c.hasErrors || d.severity.isError⟩ := by
  rcases c with ⟨ds, keeps, errors⟩
  unfold emit drops
  cases hseverity : d.severity.isError <;> cases keeps <;> simp [hseverity]

theorem discarded_emit_snd (c : Collector) (d : Diagnostic) :
    Trace.discarded (c.emit d).2 = [d].filter c.drops := by
  unfold emit drops
  cases hseverity : d.severity.isError <;> cases c.keepsWarnings <;>
    simp [Trace.discarded, Step.discarded?, hseverity]

theorem emitAll_eq (c : Collector) (ds : List Diagnostic) :
    c.emitAll ds =
      ⟨c.diagnostics ++ ds.filter (!c.drops ·), c.keepsWarnings,
        c.hasErrors || ds.any (·.severity.isError)⟩ := by
  induction ds generalizing c with
  | nil => simp [emitAll]
  | cons d ds ih =>
      have hdrops : (c.emit d).1.drops = c.drops := by
        rw [emit_fst]
        rfl
      rw [emitAll, List.foldl_cons, ← emitAll, ih, hdrops, emit_fst, List.append_assoc,
        ← List.filter_append, List.singleton_append, List.any_cons, Bool.or_assoc]

theorem emitAll_append (c : Collector) (ds later : List Diagnostic) :
    c.emitAll (ds ++ later) = (c.emitAll ds).emitAll later :=
  List.foldl_append

theorem drops_emitAll (c : Collector) (ds : List Diagnostic) : (c.emitAll ds).drops = c.drops := by
  rw [emitAll_eq]
  rfl

theorem drops_new (strict : Bool) {d : Diagnostic} (h : d.severity.isError = false) :
    (new strict).drops d = !strict := by
  rw [drops, h]
  rfl

/-- Warnings get lost all together or not at all. -/
theorem filter_drops_new (strict : Bool) {ds : List Diagnostic}
    (h : ∀ d ∈ ds, d.severity.isError = false) :
    ds.filter (new strict).drops = if strict then [] else ds := by
  cases strict with
  | true =>
      refine List.filter_eq_nil_iff.mpr fun d hd => ?_
      rw [drops_new true (h d hd)]
      exact Bool.false_ne_true
  | false => exact List.filter_eq_self.mpr fun d hd => drops_new false (h d hd)

/-- What remarks come to. An error among them makes the reading fail; without
    one, a strict collector has all of them and a lenient one has none. -/
theorem finish_emitAll_new (strict : Bool) (ds : List Diagnostic) :
    ((new strict).emitAll ds).finish =
      if ds.any (·.severity.isError) then
        .error ⟨(ds.filter (!(new strict).drops ·)).mergeSort fun a b =>
          a.severity.isError || !b.severity.isError⟩
      else .ok (if strict then ds else []) := by
  -- Whether there was an error is known from the remarks, whatever is kept of them.
  rw [emitAll_eq, finish]
  cases herrors : ds.any (·.severity.isError) with
  | true => rfl
  | false =>
      have hwarning : ∀ d ∈ ds, d.severity.isError = false := fun d hd =>
        Bool.eq_false_iff.mpr (List.any_eq_false.mp herrors d hd)
      -- Without an error only warnings can be dropped: none of them by a strict collector, and all
      -- of them by a lenient one.
      refine congrArg Except.ok ((List.nil_append _).trans ?_)
      cases strict with
      | true =>
          refine List.filter_eq_self.mpr fun d hd => ?_
          rw [drops_new true (hwarning d hd)]
          rfl
      | false =>
          refine List.filter_eq_nil_iff.mpr fun d hd => ?_
          rw [drops_new false (hwarning d hd)]
          exact Bool.false_ne_true

end Collector

/-! ## Passing over lines -/

namespace Pass

/-- A pass has become another one by taking in statements and remarks. The
    statements went to the draft and the remarks to the collector, and what the
    collector dropped was told. -/
structure Took (ss : List Statement) (ds : List Diagnostic) (p p' : Pass) : Prop where
  draft : p'.draft = ss.foldl Draft.apply p.draft
  collector : p'.collector = p.collector.emitAll ds
  discarded : Trace.discarded p'.log = Trace.discarded p.log ++ ds.filter p.collector.drops

namespace Took

variable {ss ss' : List Statement} {ds ds' : List Diagnostic} {p p' p'' : Pass}

theorem refl (p : Pass) : Took [] [] p p := ⟨rfl, rfl, (List.append_nil _).symm⟩

theorem trans (h : Took ss ds p p') (h' : Took ss' ds' p' p'') :
    Took (ss ++ ss') (ds ++ ds') p p'' := by
  refine ⟨?_, ?_, ?_⟩
  · rw [h'.draft, h.draft, List.foldl_append]
  · rw [h'.collector, h.collector, Collector.emitAll_append]
  · rw [h'.discarded, h.discarded, h.collector, Collector.drops_emitAll, List.append_assoc,
      ← List.filter_append]

end Took

theorem took_emit (p : Pass) (d : Diagnostic) : Took [] [d] p (p.emit d) := by
  refine ⟨rfl, rfl, ?_⟩
  rw [emit, Trace.discarded_append, Collector.discarded_emit_snd]

theorem took_tell (p : Pass) {step : Step} (h : step.discarded? = none) :
    Took [] [] p (p.tell step) := by
  refine ⟨rfl, rfl, ?_⟩
  rw [tell, Trace.discarded_append, Trace.discarded, Trace.discarded,
    List.filterMap_cons_none h]
  rfl

theorem took_enter (p : Pass) {s : Statement} {change : Draft → Draft}
    (h : change p.draft = p.draft.apply s) : Took [s] [] p (p.enter s change) := by
  refine ⟨h, rfl, ?_⟩
  rw [enter, Trace.discarded_append]
  congr 1
  rw [Trace.discarded, List.filterMap_map]
  exact List.filterMap_eq_nil_iff.mpr fun _ _ => rfl

/-- The properties of a directive make the style that the accepted ones set, and
    each refused one is remarked on. The draft is not touched. -/
theorem took_style (p : Pass) (location : Location) (under : Style) (ps : List Property) :
    (p.style location under ps).1 = ps.foldl Style.lay under ∧
      Took [] (ps.filterMap (·.remark? location)) p (p.style location under ps).2 := by
  -- By induction on the properties, for any pass that they find and any style that was made so far.
  induction ps generalizing p under with
  | nil => exact ⟨rfl, .refl p⟩
  | cons q qs ih =>
      rw [style, List.foldl_cons, Style.lay]
      cases hstyle : q.style? with
      | ok top =>
          rw [List.filterMap_cons_none (by rw [Property.remark?, hstyle])]
          exact ih p (under.overlay top)
      | error reason =>
          rw [List.filterMap_cons_some (by rw [Property.remark?, hstyle])]
          -- The remark comes first, and the other properties are read after it.
          rcases ih (p.emit (.invalidProperty q.key q.value reason location)) under with
            ⟨hstyle, htook⟩
          exact ⟨hstyle, (p.took_emit _).trans htook⟩

/-- A line gives its statement to the draft and its remarks to the collector. -/
theorem took_readLine (p : Pass) (line : Source.Line) :
    Took line.statement?.toList line.remarks p (p.readLine line) := by
  unfold readLine Source.Line.remarks Source.Line.statement?
  -- Every line is told about first. One that is not recognized leaves a remark, and any other one
  -- enters the draft.
  cases Statement.ofLine? line.text.toList with
  | none => exact (p.took_tell rfl).trans (took_emit _ _)
  | some found =>
      rcases found with ⟨form, s⟩
      have htold : Took [] [] p (p.tell (.matched form line.text)) := p.took_tell rfl
      cases s with
      | declare id bracket => exact htold.trans (took_enter _ rfl)
      | connect c => exact htold.trans (took_enter _ rfl)
      | restyle id ps =>
          -- The directive remarks on its properties before the style that is left of them is
          -- entered.
          rcases hstyled : (p.tell (.matched form line.text)).style line.location .empty ps with
            ⟨style, p'⟩
          rcases took_style _ line.location .empty ps with ⟨hstyle, htook⟩
          rw [hstyled] at hstyle htook
          have hentered : Took [.restyle id ps] [] p'
              (p'.enter (.restyle id ps) (·.restyle id style)) :=
            p'.took_enter (congrArg _ hstyle)
          have hall := (htold.trans htook).trans hentered
          rw [List.nil_append, List.nil_append, List.append_nil] at hall
          dsimp only
          rw [hstyled]
          exact hall

theorem took_foldl_readLine (p : Pass) (lines : List Source.Line) :
    Took (lines.filterMap Source.Line.statement?) (lines.flatMap Source.Line.remarks) p
      (lines.foldl readLine p) := by
  induction lines generalizing p with
  | nil => exact .refl p
  | cons line lines ih =>
      have hall := (p.took_readLine line).trans (ih (p.readLine line))
      rw [List.filterMap_cons, List.flatMap_cons, List.foldl_cons]
      cases hread : line.statement? with
      | none => rwa [hread] at hall
      | some s => rwa [hread] at hall

end Pass

/-! ## Texts -/

/-- A remark on a line is a warning. -/
theorem Source.Line.isError_of_mem_remarks {line : Line} {d : Diagnostic} (h : d ∈ line.remarks) :
    d.severity.isError = false := by
  unfold remarks at h
  split at h
  · rw [List.mem_singleton.mp h]
    rfl
  · rcases List.mem_filterMap.mp h with ⟨p, _, hremark⟩
    unfold Property.remark? at hremark
    split at hremark
    · cases hremark
    · cases hremark
      rfl
  · exact absurd h List.not_mem_nil

/-- What a text has to say. -/
structure Reading where
  draft : Draft
  direction : Option Direction
  remarks : List Diagnostic

/-- What a text has to say, unless it is blank. -/
def Reading.ofSource? (source : String) : Except ParseError Reading :=
  if source.toList.all Text.isBlank then .error ⟨[.emptyInput]⟩
  else
    let (direction, body) := Source.stripHeader (Source.lines source)
    .ok ⟨(body.filterMap Source.Line.statement?).foldl Draft.apply .empty, direction,
      body.flatMap Source.Line.remarks⟩

/-- The lines of a text give a pass all that there is in them, and the collector
    of the pass never fails. -/
theorem Pass.foldl_readLine_start (strict : Bool) (lines : List Source.Line) :
    (lines.foldl readLine (start strict lines)).draft =
        (lines.filterMap Source.Line.statement?).foldl Draft.apply .empty ∧
      (lines.foldl readLine (start strict lines)).collector.finish =
        .ok (if strict then lines.flatMap Source.Line.remarks else []) ∧
      Trace.discarded (lines.foldl readLine (start strict lines)).log =
        if strict then [] else lines.flatMap Source.Line.remarks := by
  -- Draft, collector and log after the lines are those of the one fold.
  have htook := (start strict lines).took_foldl_readLine lines
  -- None of the remarks is an error, so that nothing fails.
  have hwarning : ∀ d ∈ lines.flatMap Source.Line.remarks, d.severity.isError = false := by
    intro d hd
    rcases List.mem_flatMap.mp hd with ⟨line, _, hline⟩
    exact Source.Line.isError_of_mem_remarks hline
  refine ⟨htook.draft, ?_, ?_⟩
  · rw [htook.collector]
    refine (Collector.finish_emitAll_new strict _).trans (if_neg ?_)
    rw [Bool.not_eq_true, List.any_eq_false]
    exact fun d hd => Bool.eq_false_iff.mp (hwarning d hd)
  · rw [htook.discarded]
    exact Collector.filter_drops_new strict hwarning

/-- A diagram is what the text has to say. The strictness of its reading shows in
    the warnings alone. -/
theorem Diagram.parse_eq (strict : Bool) (source : String) :
    parse strict source =
      (Reading.ofSource? source).map fun r =>
        ⟨r.draft.graph, r.direction, if strict then r.remarks else []⟩ := by
  unfold parse read? Reading.ofSource?
  split
  · rfl
  · rcases hstrip : Source.stripHeader (Source.lines source) with ⟨direction, body⟩
    rcases Pass.foldl_readLine_start strict body with ⟨hdraft, hfinish, _⟩
    dsimp only
    rw [hdraft, hfinish]
    rfl

/-- A reading tells of the remarks that it drops, which are all of them unless it
    is strict. -/
theorem Trace.map_discarded_ofSource? (strict : Bool) (source : String) :
    (ofSource? strict source).map discarded =
      (Reading.ofSource? source).map fun r => if strict then [] else r.remarks := by
  unfold ofSource? Diagram.read? Reading.ofSource?
  split
  · rfl
  · rcases hstrip : Source.stripHeader (Source.lines source) with ⟨direction, body⟩
    rcases Pass.foldl_readLine_start strict body with ⟨_, hfinish, hdiscarded⟩
    dsimp only
    rw [hfinish]
    dsimp only [bind, Except.bind, pure, Except.pure, Except.map]
    rw [discarded_append, hdiscarded]
    exact congrArg Except.ok (List.append_nil _)

end Flowchart
