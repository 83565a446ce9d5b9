import Flowchart.Proofs.Statement.Agreement

/-!
# Writing Statements

Declarations and edges can be written as well as read. The text of a statement
is not unique: any gaps may stand around the arrow and around the label of an
edge, and the label may stand next to the arrow or after the target. These
choices are a `Manner`, and whatever they are, reading the text gives the
statement back.

What can be written is what can be read. A label with the mark that closes its
bracket, or with a pipe, would end early, and a label with blanks at its ends
would lose them, so neither comes out of any line. `print_read` says both at
once: reading inverts writing, and writing leaves out nothing that was read.

Of the eight forms just one has to be followed through a text that was written,
because all forms that read a line agree.

## Main definitions

* `Gap`, `Manner`: The choices left when a statement is written.
* `Statement.Printable`: The statements that can be written.
* `Statement.print`: The text of a statement.

## Theorems

* `edge?_print`: The text of an edge is taken apart where it was put together.
* `read?_print`: A form reads the text of a statement.
* `printable_of_read?`: What a form reads can be written, unless it is a style.
* `print_read`: Reading and writing are inverse to each other.
-/

namespace Flowchart

/-- Blanks between two tokens of a line, in any number. -/
structure Gap where
  chars : List Char
  blank : ∀ c ∈ chars, c = ' ' ∨ c = '\t'

/-- The choices that are left when an edge is written. -/
structure Manner where
  beforeArrow : Gap
  afterArrow : Gap
  /-- The gaps around the pipes of the label. -/
  beforeLabel : Gap
  afterLabel : Gap
  /-- The gaps between the label and its pipes. -/
  beforeText : Gap
  afterText : Gap
  /-- Whether the label stands next to the arrow, or after the target. -/
  early : Bool

/-- The arrow of a line. -/
def Line.token : Line → List Char
  | arrow => Form.solidArrow
  | dashed => Form.dashedArrow
  | dotted => Form.dottedLine

/-- The form that reads every edge with a line. -/
def Line.form : Line → Form
  | arrow => .mixedEdge
  | dashed => .dashedEdge
  | dotted => .dottedLink

namespace Manner

/-- The text between the pipes of a label. -/
def text (m : Manner) (label : String) : List Char :=
  m.beforeText.chars ++ (label.toList ++ m.afterText.chars)

/-- A label with its pipes. -/
def pipe (m : Manner) (label : String) : List Char := '|' :: (m.text label ++ ['|'])

/-- The target and the label of an edge, which follow its arrow. -/
def ending (m : Manner) (target : Endpoint) : Option String → List Char
  | none => target.print
  | some label =>
      if m.early then
        m.beforeLabel.chars ++ (m.pipe label ++ (m.afterLabel.chars ++ target.print))
      else target.print ++ (m.beforeLabel.chars ++ (m.pipe label ++ m.afterLabel.chars))

end Manner

namespace Connection

/-- An edge that can be written. -/
def Printable (c : Connection) : Prop :=
  c.source.Printable ∧ c.target.Printable ∧
    ∀ label, c.label = some label → label ≠ "" ∧ Text.trimmed label = label ∧ '|' ∉ label.toList

/-- The text of an edge. -/
def print (c : Connection) (m : Manner) : List Char :=
  c.source.print ++ (m.beforeArrow.chars ++
    (c.line.token ++ (m.afterArrow.chars ++ m.ending c.target c.label)))

end Connection

namespace Statement

open Source (skipGap isGap)

/-- Whether a statement is a style, which is not written. -/
def isStyle : Statement → Bool
  | restyle _ _ => true
  | _ => false

/-- A statement that can be written. -/
def Printable : Statement → Prop
  | declare id b => IsId id ∧ b.Printable
  | connect c => c.Printable
  | restyle _ _ => False

/-- The text of a statement. -/
def print (m : Manner) : Statement → List Char
  | declare id b => id.toList ++ b.print
  | connect c => c.print m
  | restyle _ _ => []

/-! ## Gaps -/

theorem isBlank_of_mem_gap {g : Gap} {c : Char} (h : c ∈ g.chars) : Text.isBlank c = true := by
  rcases g.blank c h with rfl | rfl <;> rfl

theorem skipGap_append (g : Gap) (cs : List Char) : skipGap (g.chars ++ cs) = skipGap cs :=
  List.dropWhile_append_of_pos fun c hc => (isGap_iff c).mpr (g.blank c hc)

/-- A gap ends an endpoint, and an empty one leaves it to what follows. -/
theorem endsEndpoint_append (g : Gap) {cs : List Char} (h : EndsEndpoint cs) :
    EndsEndpoint (g.chars ++ cs) := by
  intro c hc
  cases hg : g.chars with
  | nil =>
      rw [hg, List.nil_append] at hc
      exact h c hc
  | cons d ds =>
      have hd : d = ' ' ∨ d = '\t' := g.blank d (by rw [hg]; exact List.mem_cons_self)
      rw [hg, List.cons_append, List.head?_cons, Option.some.injEq] at hc
      rw [← hc]
      rcases hd with rfl | rfl <;> decide

theorem endsEndpoint_token (line : Line) (cs : List Char) : EndsEndpoint (line.token ++ cs) := by
  intro c hc
  cases line <;> rw [← Option.some.inj hc] <;> decide

theorem skipGap_token (line : Line) (cs : List Char) :
    skipGap (line.token ++ cs) = line.token ++ cs := by
  refine skipGap_of_head? fun c hc => ?_
  cases line <;> rw [← Option.some.inj hc] <;> decide

/-- An endpoint starts with neither a gap nor a pipe. -/
theorem head?_print_endpoint {e : Endpoint} (h : e.Printable) (cs : List Char) :
    ∃ c, (e.print ++ cs).head? = some c ∧ isIdChar c = true := by
  rcases h with ⟨⟨hne, hid⟩, _⟩
  cases hchars : e.id.toList with
  | nil => exact absurd (String.toList_eq_nil_iff.mp hchars) hne
  | cons c tail =>
      refine ⟨c, ?_, hid c ?_⟩
      · rw [Endpoint.print, hchars]
        rfl
      · rw [hchars]
        exact List.mem_cons_self

theorem skipGap_print {e : Endpoint} (h : e.Printable) (cs : List Char) :
    skipGap (e.print ++ cs) = e.print ++ cs := by
  refine skipGap_of_head? fun c hc => ?_
  rcases head?_print_endpoint h cs with ⟨d, hd, hid⟩
  rw [hd, Option.some.injEq] at hc
  rw [← hc]
  exact isGap_of_isIdChar hid

theorem pipe?_eq_none {cs : List Char} (h : cs.head? ≠ some '|') : pipe? cs = none := by
  cases hread : pipe? cs with
  | none => rfl
  | some found =>
      simp only [pipe?, Option.bind_eq_bind, Option.bind_eq_some_iff] at hread
      rcases hread with ⟨rest, htoken, _⟩
      rw [(token?_eq_some_iff _ _ _).mp htoken] at h
      exact absurd rfl h

theorem pipe?_print_endpoint {e : Endpoint} (h : e.Printable) (cs : List Char) :
    pipe? (e.print ++ cs) = none := by
  refine pipe?_eq_none fun hhead => ?_
  rcases head?_print_endpoint h cs with ⟨c, hc, hid⟩
  rw [hc, Option.some.injEq] at hhead
  rw [hhead] at hid
  exact absurd hid (by decide)

/-- Behind a gap an endpoint is found, and no label. -/
theorem endpoint?_gap_print (g : Gap) {e : Endpoint} (h : e.Printable) {rest : List Char}
    (hrest : EndsEndpoint rest) :
    endpoint? (skipGap (g.chars ++ (e.print ++ rest))) = some (e, rest) := by
  rw [skipGap_append, skipGap_print h]
  exact endpoint?_print h hrest

theorem pipe?_gap_print (g : Gap) {e : Endpoint} (h : e.Printable) (cs : List Char) :
    pipe? (skipGap (g.chars ++ (e.print ++ cs))) = none := by
  rw [skipGap_append, skipGap_print h]
  exact pipe?_print_endpoint h cs

/-! ## Labels -/

/-- A label is read up to the first pipe behind it. -/
theorem pipe?_eq_some_iff (cs text rest : List Char) :
    pipe? cs = some (text, rest) ↔ cs = '|' :: (text ++ '|' :: rest) ∧ '|' ∉ text := by
  simp only [pipe?, Option.bind_eq_bind, Option.bind_eq_some_iff]
  constructor
  · rintro ⟨tail, htoken, huntil⟩
    rcases until?_eq_some (List.cons_ne_nil '|' []) huntil with ⟨rfl, hinside⟩
    refine ⟨(token?_eq_some_iff _ _ _).mp htoken, fun hmem => hinside ?_⟩
    rcases List.append_of_mem hmem with ⟨before, after, rfl⟩
    exact ⟨before, after, by simp only [List.append_assoc, List.singleton_append]⟩
  · rintro ⟨rfl, htext⟩
    exact ⟨text ++ '|' :: rest, (token?_eq_some_iff _ _ _).mpr rfl, until?_char rest htext⟩

theorem pipe?_print (m : Manner) {label : String} (h : '|' ∉ label.toList) (rest : List Char) :
    pipe? (m.pipe label ++ rest) = some (m.text label, rest) := by
  have hgap : ∀ g : Gap, '|' ∉ g.chars := fun g hg => absurd (g.blank '|' hg) (by decide)
  have htext : '|' ∉ m.text label := by
    intro hmem
    rcases List.mem_append.mp hmem with hbefore | hmem
    · exact hgap _ hbefore
    · rcases List.mem_append.mp hmem with hlabel | hafter
      · exact h hlabel
      · exact hgap _ hafter
  refine (pipe?_eq_some_iff _ _ _).mpr ⟨?_, htext⟩
  simp only [Manner.pipe, List.cons_append, List.append_assoc, List.nil_append]

/-- The gaps between a label and its pipes are trimmed away. -/
theorem trim_text (m : Manner) {label : String} (h : Text.trimmed label = label) :
    Text.trim (m.text label) = label.toList := by
  rw [Manner.text, Text.trim_blank_append _ fun _ hc => isBlank_of_mem_gap hc,
    Text.trim_append_blank _ fun _ hc => isBlank_of_mem_gap hc]
  have htrim := congrArg String.toList h
  rw [Text.trimmed, String.toList_ofList] at htrim
  exact htrim

/-- The one label that was written is the label of the edge, in either place. -/
theorem label_eq_some (m : Manner) {label : String} (hne : label ≠ "")
    (htrim : Text.trimmed label = label) {e : EdgeText}
    (htext : e.early.or e.late = some (m.text label)) : e.label = some label := by
  rw [EdgeText.label, htext, Option.map_some, trim_text m htrim]
  cases hchars : label.toList with
  | nil => exact absurd (String.toList_eq_nil_iff.mp hchars) hne
  | cons c cs =>
      dsimp only
      rw [← hchars, String.ofList_toList]

/-! ## Edges -/

section edge

variable {arrow cs tail after behind rest text : List Char} {source target : Endpoint}

theorem edge?_of_bare (hsource : endpoint? cs = some (source, tail))
    (harrow : token? arrow (skipGap tail) = some after) (hearly : pipe? (skipGap after) = none)
    (htarget : endpoint? (skipGap after) = some (target, rest))
    (hlate : pipe? (skipGap rest) = none) :
    edge? arrow cs = some (⟨source, target, none, none⟩, rest) := by
  simp only [edge?, hsource, harrow, hearly, htarget, hlate, Option.bind_eq_bind, Option.bind_some,
    Option.pure_def]

theorem edge?_of_early (hsource : endpoint? cs = some (source, tail))
    (harrow : token? arrow (skipGap tail) = some after)
    (hearly : pipe? (skipGap after) = some (text, behind))
    (htarget : endpoint? (skipGap behind) = some (target, rest))
    (hlate : pipe? (skipGap rest) = none) :
    edge? arrow cs = some (⟨source, target, some text, none⟩, rest) := by
  simp only [edge?, hsource, harrow, hearly, htarget, hlate, Option.bind_eq_bind, Option.bind_some,
    Option.pure_def]

theorem edge?_of_late (hsource : endpoint? cs = some (source, tail))
    (harrow : token? arrow (skipGap tail) = some after) (hearly : pipe? (skipGap after) = none)
    (htarget : endpoint? (skipGap after) = some (target, behind))
    (hlate : pipe? (skipGap behind) = some (text, rest)) :
    edge? arrow cs = some (⟨source, target, none, some text⟩, rest) := by
  simp only [edge?, hsource, harrow, hearly, htarget, hlate, Option.bind_eq_bind, Option.bind_some,
    Option.pure_def]

end edge

theorem endsEndpoint_nil : EndsEndpoint [] := by
  intro c hc
  exact absurd hc (by simp only [List.head?_nil, reduceCtorEq, not_false_eq_true])

theorem endsEndpoint_pipe (m : Manner) (label : String) (cs : List Char) :
    EndsEndpoint (m.pipe label ++ cs) := by
  intro c hc
  rw [← Option.some.inj hc]
  decide

/-- The text of an edge is taken apart where it was put together, and at most a
    gap is left. -/
theorem edge?_print {c : Connection} (h : c.Printable) (m : Manner) :
    ∃ e rest, edge? c.line.token (c.print m) = some (e, rest) ∧
      (e.source = c.source ∧ e.target = c.target ∧ e.label = c.label) ∧
      ∀ x ∈ rest, Text.isBlank x = true := by
  rcases h with ⟨hsource, htarget, hlabel⟩
  have hstart := endpoint?_print hsource (endsEndpoint_append m.beforeArrow
    (endsEndpoint_token c.line (m.afterArrow.chars ++ m.ending c.target c.label)))
  have harrow : token? c.line.token
      (skipGap (m.beforeArrow.chars ++
        (c.line.token ++ (m.afterArrow.chars ++ m.ending c.target c.label)))) =
      some (m.afterArrow.chars ++ m.ending c.target c.label) := by
    rw [skipGap_append, skipGap_token, token?_eq_some_iff]
  -- Where the target comes last, it is read to the end of the text.
  have hlast : ∀ g : Gap,
      endpoint? (skipGap (g.chars ++ c.target.print)) = some (c.target, []) := by
    intro g
    have hread := endpoint?_gap_print g htarget endsEndpoint_nil
    rw [List.append_nil] at hread
    exact hread
  rw [Connection.print]
  cases hcase : c.label with
  | none =>
      -- Without a label the target follows the arrow.
      have hearly := pipe?_gap_print m.afterArrow htarget []
      rw [List.append_nil] at hearly
      rw [hcase, Manner.ending] at hstart harrow
      refine ⟨⟨c.source, c.target, none, none⟩, [], ?_, ⟨rfl, rfl, rfl⟩, by simp⟩
      exact edge?_of_bare hstart harrow hearly (hlast m.afterArrow) rfl
  | some label =>
      rcases hlabel label hcase with ⟨hne, htrim, hpipe⟩
      by_cases hplace : m.early = true
      · -- The gap behind the arrow runs on into the one before the label.
        have hearly : pipe? (skipGap (m.afterArrow.chars ++ (m.beforeLabel.chars ++
            (m.pipe label ++ (m.afterLabel.chars ++ c.target.print))))) =
            some (m.text label, m.afterLabel.chars ++ c.target.print) := by
          rw [skipGap_append, skipGap_append]
          exact pipe?_print m hpipe _
        rw [hcase, Manner.ending, if_pos hplace] at hstart harrow
        refine ⟨⟨c.source, c.target, some (m.text label), none⟩, [], ?_,
          ⟨rfl, rfl, label_eq_some m hne htrim rfl⟩, by simp⟩
        rw [Manner.ending, if_pos hplace]
        exact edge?_of_early hstart harrow hearly (hlast m.afterLabel) rfl
      · -- The target stands between the arrow and the label.
        have hends := endsEndpoint_append m.beforeLabel
          (endsEndpoint_pipe m label m.afterLabel.chars)
        have hearly := pipe?_gap_print m.afterArrow htarget
          (m.beforeLabel.chars ++ (m.pipe label ++ m.afterLabel.chars))
        have hend := endpoint?_gap_print m.afterArrow htarget hends
        have hlate : pipe? (skipGap (m.beforeLabel.chars ++
            (m.pipe label ++ m.afterLabel.chars))) = some (m.text label, m.afterLabel.chars) := by
          rw [skipGap_append]
          exact pipe?_print m hpipe _
        rw [hcase, Manner.ending, if_neg hplace] at hstart harrow
        refine ⟨⟨c.source, c.target, none, some (m.text label)⟩, m.afterLabel.chars, ?_,
          ⟨rfl, rfl, label_eq_some m hne htrim rfl⟩, fun x hx => isBlank_of_mem_gap hx⟩
        rw [Manner.ending, if_neg hplace]
        exact edge?_of_late hstart harrow hearly hend hlate

/-! ## Statements -/

/-- Some form reads the text of a statement. -/
theorem read?_print {s : Statement} (h : s.Printable) (m : Manner) :
    ∃ form : Form, form.read? (s.print m) = some s := by
  -- A declaration is read by its own form, and an edge by the one of its line.
  cases s with
  | restyle id ps => exact False.elim h
  | declare id b =>
      refine ⟨.nodeDeclaration, ?_⟩
      rcases h with ⟨hid, hb⟩
      have hread := id?_print hid hb []
      have hbracket := bracket?_print hb []
      rw [List.append_nil] at hread hbracket
      simp only [print, Form.read?, Form.declaration?, hread, hbracket, Option.bind_eq_bind,
        Option.bind_some, Option.pure_def, whole, List.all_nil, if_true]
  | connect c =>
      refine ⟨c.line.form, ?_⟩
      rcases edge?_print h m with ⟨e, rest, hread, ⟨hsource, htarget, hlabel⟩, hblank⟩
      have hwhole : whole (edge? c.line.token (c.print m)) = some e :=
        (whole_eq_some_iff _ e).mpr ⟨rest, hread, hblank⟩
      have htakes : c.line.form.takes e = true := by cases c.line <;> rfl
      have hform : c.line.form.read? (c.print m) =
          c.line.form.edge? c.line (edge? c.line.token (c.print m)) := by cases c.line <;> rfl
      rw [print, hform, Form.edge?, hwhole]
      simp only [Option.bind_eq_bind, Option.bind_some, if_pos htakes, hsource, htarget, hlabel,
        Option.pure_def]

theorem ofLine?_print {s : Statement} (h : s.Printable) (m : Manner) :
    (ofLine? (s.print m)).map Prod.snd = some s :=
  (ofLine?_eq_some_iff _ s).mpr (read?_print h m)

/-- The ends of an edge that was read can be written, and its labels hold no
    pipe. -/
theorem printable_of_edge? {arrow cs rest : List Char} {e : EdgeText}
    (h : edge? arrow cs = some (e, rest)) :
    e.source.Printable ∧ e.target.Printable ∧
      ∀ text, e.early.or e.late = some text → '|' ∉ text := by
  unfold edge? at h
  simp only [Option.bind_eq_bind, Option.bind_eq_some_iff, Option.pure_def, Option.some.injEq,
    Prod.mk.injEq] at h
  rcases h with ⟨⟨source, _⟩, hsource, after, _, ⟨target, behind⟩, htarget, rfl, _⟩
  refine ⟨printable_of_endpoint? hsource, printable_of_endpoint? htarget, fun text htext => ?_⟩
  -- The text of either label was read up to a pipe.
  cases hearly : pipe? (skipGap after) with
  | some found =>
      rw [hearly] at htext
      rw [← Option.some.inj htext]
      exact ((pipe?_eq_some_iff _ _ _).mp hearly).2
  | none =>
      cases hlate : pipe? (skipGap behind) with
      | some found =>
          rw [hearly, hlate] at htext
          rw [← Option.some.inj htext]
          exact ((pipe?_eq_some_iff _ _ _).mp hlate).2
      | none =>
          rw [hearly, hlate] at htext
          exact absurd htext (by simp only [Option.or_none, reduceCtorEq, not_false_eq_true])

/-- The label of an edge is what is left of a text after trimming, if that is
    anything. -/
theorem label_of_eq_some {e : EdgeText} {label : String} (h : e.label = some label) :
    ∃ text, e.early.or e.late = some text ∧ label = String.ofList (Text.trim text) ∧
      label ≠ "" := by
  unfold EdgeText.label at h
  cases htext : e.early.or e.late with
  | none =>
      rw [htext] at h
      exact absurd h (by simp only [Option.map_none, reduceCtorEq, not_false_eq_true])
  | some text =>
      rw [htext, Option.map_some] at h
      refine ⟨text, rfl, ?_⟩
      -- A label that trims to nothing is none.
      cases htrim : Text.trim text with
      | nil =>
          rw [htrim] at h
          exact absurd h (by simp only [reduceCtorEq, not_false_eq_true])
      | cons c cs =>
          rw [htrim] at h
          have hlabel : String.ofList (c :: cs) = label := Option.some.inj h
          refine ⟨hlabel.symm, fun hempty => ?_⟩
          rw [hempty] at hlabel
          exact absurd (congrArg String.toList hlabel) (by simp)

/-- What a form reads can be written, unless it is a style. -/
theorem printable_of_read? {form : Form} {cs : List Char} {s : Statement}
    (h : form.read? cs = some s) (hstyle : s.isStyle = false) : s.Printable := by
  -- The statement starts in one of three ways, and what is printed of it was read there.
  cases starts_of_read? h with
  | declaration hend _ =>
      have hprintable := printable_of_endpoint? hend
      exact ⟨hprintable.1, hprintable.2 _ rfl⟩
  | edge _ _ _ _ hedge =>
      rcases printable_of_edge? hedge with ⟨hsource, htarget, hpipe⟩
      refine ⟨hsource, htarget, fun label hlabel => ?_⟩
      rcases label_of_eq_some hlabel with ⟨text, htext, rfl, hne⟩
      refine ⟨hne, ?_, ?_⟩
      · rw [Text.trimmed, String.toList_ofList, Text.trim_trim]
      · rw [String.toList_ofList]
        exact fun hmem => hpipe text htext ((Text.trim_isInfix text).subset hmem)
  | style _ _ _ hread =>
      simp only [style?, Option.bind_eq_bind, Option.bind_eq_some_iff] at hread
      rcases hread with ⟨_, _, _, _, ⟨id, _⟩, _, body, _, hs⟩
      split at hs
      · exact absurd hs (by simp only [reduceCtorEq, not_false_eq_true])
      · rw [← Option.some.inj hs] at hstyle
        exact absurd hstyle (by simp only [isStyle, Bool.true_eq_false, not_false_eq_true])

/-- Reading and writing are inverse to each other. A declaration or an edge that
    can be written is read as it was, in whatever manner it is written; and what
    a line says can be written, so that it is read again from its own text. -/
theorem print_read :
    (∀ (s : Statement) (m : Manner), s.Printable → (ofLine? (s.print m)).map Prod.snd = some s) ∧
      ∀ (cs : List Char) (form : Form) (s : Statement), ofLine? cs = some (form, s) →
        s.isStyle = false →
          s.Printable ∧ ∀ m : Manner, (ofLine? (s.print m)).map Prod.snd = some s := by
  refine ⟨fun s m h => ofLine?_print h m, ?_⟩
  intro cs form s hline hstyle
  have hprintable := printable_of_read? (read?_of_ofLine? hline) hstyle
  exact ⟨hprintable, fun m => ofLine?_print hprintable m⟩

/-- Labels that look like arrows, pipes and brackets, and a single bracket that
    is written as a double one. -/
theorem print_read_marks :
    let s : Statement := .connect ⟨⟨"A", some ⟨.diamond, "x --> |y"⟩⟩,
      ⟨"b_1", some ⟨.rectangle, "[c] ((d))"⟩⟩, .dotted, some "is ]]"⟩
    let tight : Gap := ⟨[], List.forall_mem_nil _⟩
    let wide : Gap := ⟨[' ', '\t'], by simp⟩
    let m : Manner := ⟨wide, tight, wide, tight, tight, wide, false⟩
    let line : List Char := "A[x] -->B".toList
    let t : Statement := .connect ⟨⟨"A", some ⟨.rectangle, "x"⟩⟩, ⟨"B", none⟩, .arrow, none⟩
    s.Printable ∧
      s.print m = "A\x7b x --> |y \x7d \t-.-b_1[[ [c] ((d)) ]] \t|is ]] \t|".toList ∧
      (ofLine? (s.print m)).map Prod.snd = some s ∧
      ofLine? line = some (.mixedEdge, t) ∧ t.isStyle = false ∧
      (ofLine? (t.print m)).map Prod.snd = some t := by
  intro s tight wide m line t
  have hbracket : ∀ b : Bracket, ∀ marks ∈ b.shape.marks?, b.Tidy → ¬marks.2 <:+: b.label.toList →
      b.Printable := fun b marks hmarks htidy hlabel => ⟨htidy, marks.1, marks.2, hmarks, hlabel⟩
  -- No label holds the mark that closes its own bracket.
  have hs : s.Printable := by
    refine ⟨⟨by decide, ?_⟩, ⟨by decide, ?_⟩, ?_⟩
    · rintro b ⟨⟩
      exact hbracket _ _ rfl rfl (by decide)
    · rintro b ⟨⟩
      exact hbracket _ _ rfl rfl (by decide)
    · rintro label ⟨⟩
      exact ⟨by decide, rfl, by decide⟩
  have hline : ofLine? line = some (.mixedEdge, t) := by decide +kernel
  exact ⟨hs, by decide +kernel, print_read.1 s m hs, hline, rfl,
    (print_read.2 line .mixedEdge t hline rfl).2 m⟩

end Statement

end Flowchart
