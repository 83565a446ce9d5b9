import Flowchart.Proofs.Diagram.Noise

/-!
# Colors in Styles

Which colors a style line hands on to its node.

The body of a style is cut at its commas, and each part is a property. A color may
hold commas itself, for the older functions of the notation separate their arguments
by them, and the cut does not look for parentheses. So the question whether a color
comes through is one about commas and nothing else. Without one, the body is a single
property whatever the color is made of, since the key ends at the first colon.

For the other direction there is no need to know what becomes of the parts. Every
value that was ever read stands between two commas and holds none, so no color of a
diagram holds one, wherever it comes from; and a comma is no blank, so trimming does
not take it from the text of a color.

## Main definitions

* `Paint`: Fill or stroke.
* `Paint.directive`: The line that gives a node a color.
* `Node.painted`: The node that such a line describes.

## Theorems

* `Statement.atCommas_eq_splitOn`: Bodies are cut at each comma.
* `Statement.not_mem_of_ofLine?`: No value of a property holds a comma.
* `Diagram.not_mem_css`: No color of a diagram does.
* `Diagram.parse_of_line`: How a text of one line is read.
* `Diagram.parse_directive`: A color without a comma comes through.
* `style_carries_color`: Which colors come through, and which do not.
* `style_loses_color`: Some do not.
-/

namespace Flowchart

/-- Which of its two colors a style sets. -/
inductive Paint where
  | fill
  | stroke

namespace Paint

/-- The key of a color. -/
def key : Paint → String
  | fill => "fill"
  | stroke => "stroke"

/-- The color of a style. -/
def of : Paint → Style → Option Color
  | fill, style => style.fill
  | stroke, style => style.stroke

/-- The style that sets nothing but a color. -/
def alone : Paint → Color → Style
  | fill, color => { fill := some color }
  | stroke, color => { stroke := some color }

/-- The line that gives a node a color. -/
def directive (paint : Paint) (id text : String) : String :=
  "style " ++ id ++ " " ++ paint.key ++ ":" ++ text

end Paint

/-- The node that is a plain rectangle of one color. -/
def Node.painted (paint : Paint) (id : String) (color : Color) : Node :=
  { Node.named id with style := some (paint.alone color) }

/-! ## Commas -/

namespace Statement

theorem atCommas_eq_splitOn (cs : List Char) : atCommas cs = cs.splitOn ',' := by
  induction cs with
  | nil => rfl
  | cons c cs ih =>
      rw [atCommas, ih, List.splitOn_cons_eq_if_modifyHead]
      by_cases hc : c = ','
      · rw [if_pos hc, if_pos (beq_iff_eq.mpr hc)]
      · rw [if_neg hc, if_neg (fun h => hc (beq_iff_eq.mp h))]
        cases hsplit : cs.splitOn ',' with
        | nil => exact absurd hsplit (List.splitOn_ne_nil ',' cs)
        | cons part parts => rfl

/-- No property holds a comma, as each stands between two of them. -/
theorem not_mem_of_mem_properties {body : List Char} {p : Property} (h : p ∈ properties body) :
    ',' ∉ p.value.toList := by
  rcases List.mem_map.mp h with ⟨raw, hraw, rfl⟩
  rcases List.mem_map.mp (List.mem_filter.mp hraw).1 with ⟨part, hpart, rfl⟩
  rw [atCommas_eq_splitOn] at hpart
  have hcomma : ',' ∉ Text.trim part :=
    fun hmem => Source.not_mem_of_mem_splitOn hpart ((Text.trim_isInfix part).subset hmem)
  unfold property
  split
  · rename_i key value huntil
    -- The value is what follows the first colon of its part.
    have hcut := (until?_eq_some (List.cons_ne_nil ':' []) huntil).1
    rw [String.toList_ofList]
    intro hmem
    apply hcomma
    rw [hcut]
    exact List.mem_append_right _ (List.mem_append_right _ ((Text.trim_isInfix value).subset hmem))
  · exact List.not_mem_nil

/-- A body without a comma is one property. -/
theorem properties_of_not_mem {body : List Char} (hcomma : ',' ∉ body)
    (hne : Text.trim body ≠ []) : properties body = [property (Text.trim body)] := by
  have hkept : (!(Text.trim body).isEmpty) = true := by
    rw [Bool.not_eq_true', List.isEmpty_eq_false_iff]
    exact hne
  rw [properties, atCommas_eq_splitOn, List.splitOn_eq_singleton hcomma, List.map_singleton,
    List.filter_cons_of_pos (by exact hkept), List.filter_nil, List.map_singleton]

theorem property_append {key : List Char} (value : List Char) (hkey : ':' ∉ key) :
    property (key ++ ':' :: value) =
      ⟨String.ofList (Text.trim key), String.ofList (Text.trim value)⟩ := by
  rw [property, until?_char value hkey]

/-! ## Style lines -/

theorem gap?_blank {cs : List Char} (h : ∀ c, cs.head? = some c → Source.isGap c = false) :
    gap? (' ' :: cs) = some cs := by
  have hskip : Source.skipGap (' ' :: cs) = cs := skipGap_of_head? h
  rw [gap?, hskip]
  exact if_pos (Nat.lt_succ_self _)

theorem style?_append {id : String} {body : List Char} (hid : IsId id) (hne : body ≠ [])
    (hhead : ∀ c, body.head? = some c → Source.isGap c = false) :
    style? (styleWord ++ ' ' :: (id.toList ++ ' ' :: body)) =
      some (.restyle id (properties body)) := by
  have hword : token? styleWord (styleWord ++ ' ' :: (id.toList ++ ' ' :: body)) =
      some (' ' :: (id.toList ++ ' ' :: body)) := (token?_eq_some_iff _ _ _).mpr rfl
  -- An id starts with no blank, so that the gap before it is one blank.
  have hgap : gap? (' ' :: (id.toList ++ ' ' :: body)) = some (id.toList ++ ' ' :: body) := by
    refine gap?_blank fun c hc => isGap_of_isIdChar (hid.2 c ?_)
    rw [List.head?_append_of_ne_nil _ (fun h => hid.1 (String.toList_eq_nil_iff.mp h))] at hc
    exact List.mem_of_mem_head? hc
  have hname : id? (id.toList ++ ' ' :: body) = some (id, ' ' :: body) := by
    refine (id?_eq_some_iff _ _ _).mpr ⟨rfl, hid, fun c hc => ?_⟩
    rw [← Option.some.inj hc]
    rfl
  have hbody : body.isEmpty = false := List.isEmpty_eq_false_iff.mpr hne
  -- Keyword, gap, id, gap: each token ends where the next one starts.
  simp only [style?, Option.bind_eq_bind, hword, Option.bind_some, hgap, hname, gap?_blank hhead,
    hbody, Bool.false_eq_true, if_false, Option.pure_def]

/-- What a style sets was cut out of the line between two commas. -/
theorem exists_properties_of_ofLine? {cs : List Char} {form : Form} {id : String}
    {ps : List Property} (h : ofLine? cs = some (form, .restyle id ps)) :
    ∃ body, ps = properties body := by
  have hread := read?_of_ofLine? h
  -- Forms with an arrow read edges, and of the two others one reads declarations.
  cases harrow : form.arrow? with
  | some found =>
      rcases exists_edge?_of_read? harrow hread with ⟨_, _, _, _, hedge⟩
      cases hedge
  | none =>
      cases form with
      | nodeDeclaration =>
          rcases exists_of_declaration? hread with ⟨_, _, _, _, _, _, _, hdeclare⟩
          cases hdeclare
      | styleDirective =>
          simp only [Form.read?, style?, Option.bind_eq_bind, Option.bind_eq_some_iff] at hread
          rcases hread with ⟨_, _, _, _, ⟨name, rest⟩, _, body, _, hstyle⟩
          split at hstyle
          · cases hstyle
          · cases hstyle
            exact ⟨body, rfl⟩
      | bracketedEdge | labelledTargetEdge | plainEdge | mixedEdge | dashedEdge | dottedLink =>
          cases harrow

theorem not_mem_of_ofLine? {cs : List Char} {form : Form} {s : Statement} {m : Mention}
    {p : Property} (h : ofLine? cs = some (form, s)) (hm : m ∈ s.mentions)
    (hp : p ∈ m.properties) : ',' ∉ p.value.toList := by
  cases s with
  | declare id bracket =>
      rw [List.mem_singleton.mp hm] at hp
      exact absurd hp List.not_mem_nil
  | connect c => rcases List.mem_pair.mp hm with rfl | rfl <;> exact absurd hp List.not_mem_nil
  | restyle id ps =>
      rw [List.mem_singleton.mp hm] at hp
      rcases exists_properties_of_ofLine? h with ⟨body, rfl⟩
      exact not_mem_of_mem_properties hp

end Statement

/-! ## Colors of a diagram -/

theorem Color.css_of_parse {text : String} {color : Color} (h : parse text = .ok color) :
    color.css = Text.trimmed text := by
  unfold parse at h
  split at h
  · rw [← Except.ok.inj h]
  · cases h

/-- A color that is chosen is one of the values. -/
theorem Meaning.exists_property {paint : Paint} {ps : List Property} {color : Color}
    (h : paint.of (choices ps) = some color) : ∃ p ∈ ps, Color.parse p.value = .ok color := by
  have hoption : ∀ p : Property, (Color.parse p.value).toOption = some color →
      Color.parse p.value = .ok color := by
    intro p hp
    cases hparse : Color.parse p.value with
    | error refusal => rw [hparse] at hp; cases hp
    | ok found => rw [hparse] at hp; rw [Option.some.inj hp]
  -- The last color that was accepted is the color of some property.
  cases paint with
  | fill =>
      rcases List.mem_filterMap.mp (List.mem_of_getLast? h) with ⟨p, hp, hfill⟩
      exact ⟨p, hp, hoption p (Option.ite_none_right_eq_some.mp hfill).2⟩
  | stroke =>
      rcases List.mem_filterMap.mp (List.mem_of_getLast? h) with ⟨p, hp, hstroke⟩
      exact ⟨p, hp, hoption p (Option.ite_none_right_eq_some.mp hstroke).2⟩

/-- No color of a node holds a comma, whatever was read. -/
theorem Diagram.not_mem_css {strict : Bool} {source : String} {d : Diagram} {n : Node}
    {paint : Paint} {color : Color} (h : parse strict source = .ok d) (hn : n ∈ d.graph.nodes)
    (hcolor : n.style.bind paint.of = some color) : ',' ∉ color.css.toList := by
  rw [graph_of_parse h] at hn
  rcases List.mem_map.mp hn with ⟨id, _, rfl⟩
  rcases Option.bind_eq_some_iff.mp hcolor with ⟨style, hstyle, hof⟩
  dsimp only [Meaning.node, Meaning.style?] at hstyle
  split at hstyle
  · cases hstyle
  rw [← Option.some.inj hstyle] at hof
  rcases Meaning.exists_property hof with ⟨p, hp, hparse⟩
  -- The property is in the statement of one of the lines.
  rcases List.mem_flatMap.mp hp with ⟨m, hm, hpm⟩
  rcases List.mem_flatMap.mp (List.mem_filter.mp hm).1 with ⟨s, hs, hms⟩
  rcases List.mem_filterMap.mp hs with ⟨line, _, hread⟩
  rcases Option.map_eq_some_iff.mp hread with ⟨⟨form, s⟩, hsaid, rfl⟩
  have hcomma := Statement.not_mem_of_ofLine? hsaid hms hpm
  rw [Color.css_of_parse hparse, Text.trimmed, String.toList_ofList]
  exact fun hmem => hcomma ((Text.trim_isInfix _).subset hmem)

/-! ## Texts of one line -/

namespace Source

/-- A text without a line feed that says something is one line. -/
theorem exists_lines_eq {source : String} (hfeed : '\n' ∉ source.toList)
    (hspeaks : Speaks (Text.trim source.toList)) :
    ∃ line, lines source = [line] ∧ line.text.toList = Text.trim source.toList := by
  refine List.map_eq_singleton_iff.mp ?_
  rw [map_text_lines, speech, said, physicalLines, List.splitOn_eq_singleton hfeed,
    List.map_singleton, List.filter_cons_of_pos (by exact decide_eq_true hspeaks), List.filter_nil]

/-- A line that is a statement is no header. -/
theorem stripHeader_of_read {line : Line} {found : Form × Statement} (rest : List Line)
    (h : Statement.ofLine? line.text.toList = some found) :
    stripHeader (line :: rest) = (none, line :: rest) := by
  rcases stripHeader_cases (line :: rest) with ⟨hnone, _⟩ | ⟨first, _, d, hlines, hheader, _⟩
  · exact hnone
  · cases hlines
    rw [ofLine?_of_declares (declares_of_header? hheader)] at h
    cases h

end Source

/-- A text of one line without oversights is read as its statement. -/
theorem Diagram.parse_of_line {source : String} {line : Source.Line} {form : Form}
    {s : Statement} (hlines : Source.lines source = [line])
    (hread : Statement.ofLine? line.text.toList = some (form, s)) (hquiet : line.oversights = []) :
    parse true source = .ok ⟨(Draft.empty.apply s).graph, none, []⟩ := by
  have hstrip := Source.stripHeader_of_read [] hread
  -- A blank text has no statements, and this one has one.
  have hblank : source.toList.all Text.isBlank = false := by
    rw [← Bool.not_eq_true]
    intro hall
    have hnone := Source.statements_of_blank hall
    rw [Source.statements, hlines, hstrip, List.filterMap_cons_some (by rw [hread]; rfl)] at hnone
    cases hnone
  cases hsource : Reading.ofSource? source with
  | error e =>
      rw [Reading.ofSource?, hblank] at hsource
      cases hsource
  | ok r =>
      have hsilent : r.remarks = [] := by
        have hreports := Reading.reports_remarks hsource
        rw [Source.oversights, hlines, hstrip, List.flatMap_singleton, hquiet] at hreports
        exact List.forall₂_nil_left_iff.mp hreports
      rw [parse_eq, hsource, Except.map, if_pos rfl, hsilent]
      rw [Reading.ofSource?, hblank, hlines, hstrip] at hsource
      cases hsource
      simp only [List.filterMap_cons, List.filterMap_nil, Source.Line.statement?, hread,
        Option.map_some, List.foldl_cons, List.foldl_nil]

/-! ## Directives -/

namespace Paint

theorem toList_directive (paint : Paint) (id text : String) :
    (paint.directive id text).toList =
      (Statement.styleWord ++ ' ' :: (id.toList ++ ' ' :: paint.key.toList)) ++
        ':' :: text.toList := by
  simp only [directive, String.toList_append, List.append_assoc, List.cons_append]
  rfl

theorem not_mem_directive (paint : Paint) {id text : String} (hid : Statement.IsId id)
    (hfeed : '\n' ∉ text.toList) : '\n' ∉ (paint.directive id text).toList := by
  have hname : '\n' ∉ id.toList := fun hmem => absurd (hid.2 _ hmem) (by decide)
  have hkey : '\n' ∉ paint.key.toList := by
    cases paint <;> decide
  simp only [toList_directive, Statement.styleWord, List.mem_append, List.mem_cons, hname, hkey,
    hfeed, or_false]
  decide

/-- Of a directive, only blanks behind the color are trimmed away. -/
theorem trim_directive (paint : Paint) (id text : String) :
    Text.trim (paint.directive id text).toList =
      Statement.styleWord ++ ' ' :: (id.toList ++ ' ' ::
        (paint.key.toList ++ ':' :: Text.trimRight text.toList)) := by
  rw [toList_directive, Text.trim_append_cons _ _ rfl]
  · simp only [List.append_assoc, List.cons_append]
  · rintro c ⟨⟩
    rfl

theorem style?_eq (paint : Paint) {value : String} {color : Color}
    (h : Color.parse value = .ok color) :
    Property.style? ⟨paint.key, value⟩ = .ok (paint.alone color) := by
  cases paint <;> simp only [Property.style?, key, Property.color?, h] <;> rfl

theorem ofProperties_eq (paint : Paint) {value : String} {color : Color}
    (h : Color.parse value = .ok color) :
    Style.ofProperties [⟨paint.key, value⟩] = paint.alone color := by
  simp only [Style.ofProperties, Style.lay, List.foldl_cons, List.foldl_nil, paint.style?_eq h]
  cases paint <;> rfl

theorem trim_property (paint : Paint) (text : List Char) :
    Text.trim (paint.key.toList ++ ':' :: text) =
      paint.key.toList ++ ':' :: Text.trimRight text := by
  refine Text.trim_append_cons text ?_ rfl
  cases paint <;> rintro c ⟨⟩ <;> rfl

/-- A directive is read as a style of one property, unless a comma cuts it. -/
theorem read?_directive (paint : Paint) {id text : String} (hid : Statement.IsId id)
    (hcomma : ',' ∉ text.toList) :
    Form.read? .styleDirective (Text.trim (paint.directive id text).toList) =
      some (.restyle id [⟨paint.key, Text.trimmed text⟩]) := by
  have hkey : ':' ∉ paint.key.toList ∧ ',' ∉ paint.key.toList ∧
      String.ofList (Text.trim paint.key.toList) = paint.key := by
    cases paint <;> decide
  have hright : ',' ∉ Text.trimRight text.toList :=
    fun hmem => hcomma ((Text.trimRight_isPrefix _).subset hmem)
  -- Neither the key nor the color has a comma, and so the body is one property.
  have hbody : ',' ∉ paint.key.toList ++ ':' :: Text.trimRight text.toList := by
    rw [List.mem_append, List.mem_cons]
    rintro (h | h | h)
    · exact hkey.2.1 h
    · exact absurd h (by decide)
    · exact hright h
  rw [trim_directive, Form.read?, Statement.style?_append hid,
    Statement.properties_of_not_mem hbody, trim_property, Statement.property_append _ hkey.1,
    hkey.2.2, Text.trim_trimRight, Text.trim_trimRight, Text.trimmed]
  · rw [trim_property]
    exact List.append_ne_nil_of_right_ne_nil _ (List.cons_ne_nil _ _)
  · exact List.append_ne_nil_of_right_ne_nil _ (List.cons_ne_nil _ _)
  · cases paint <;> rintro c ⟨⟩ <;> rfl

end Paint

/-- A directive whose color has no comma is read as it should be, in full. -/
theorem Diagram.parse_directive (paint : Paint) {id text : String} {color : Color}
    (hid : Statement.IsId id) (hfeed : '\n' ∉ text.toList) (hcolor : Color.parse text = .ok color)
    (hcomma : ',' ∉ text.toList) :
    parse true (paint.directive id text) = .ok ⟨⟨[.painted paint id color], []⟩, none, []⟩ := by
  -- The value is trimmed before it is read, and is the same color then.
  have hvalue : Color.parse (Text.trimmed text) = .ok color := by
    rw [← Color.css_of_parse hcolor]
    exact color.parse_css
  have hspeaks : Source.Speaks (Text.trim (paint.directive id text).toList) := by
    rw [paint.trim_directive]
    refine ⟨List.cons_ne_nil _ _, fun hcomment => ?_⟩
    exact absurd (List.cons_prefix_cons.mp hcomment).1 (by decide)
  rcases Source.exists_lines_eq (paint.not_mem_directive hid hfeed) hspeaks with
    ⟨line, hlines, htext⟩
  have hread := paint.read?_directive hid hcomma
  rw [← htext] at hread
  rcases Option.map_eq_some_iff.mp ((Statement.ofLine?_eq_some_iff _ _).mpr ⟨_, hread⟩) with
    ⟨⟨form, _⟩, hsaid, rfl⟩
  -- Its one property is accepted, so there is nothing to remark.
  have hquiet : line.oversights = [] := by
    have hkept : Property.isRefused ⟨paint.key, Text.trimmed text⟩ = false := by
      rw [← Bool.not_eq_true, Property.isRefused_iff, paint.style?_eq hvalue]
      rintro ⟨reason, ⟨⟩⟩
    rw [Source.Line.oversights, hsaid]
    simp only [List.filter_cons, hkept, Bool.false_eq_true, if_false, List.filter_nil,
      List.map_nil]
  rw [parse_of_line hlines hsaid hquiet, Draft.apply, paint.ofProperties_eq hvalue]
  cases paint <;> rfl

/-- A directive with a color that holds no comma gives a plain node of that color, and
    there is nothing to remark. With a comma in it no node receives the color, in a
    strict reading or a lenient one, as properties are cut at each comma. -/
theorem style_carries_color (paint : Paint) {id text : String} {color : Color}
    (hid : Statement.IsId id) (hfeed : '\n' ∉ text.toList) (hcolor : Color.parse text = .ok color) :
    color.css = Text.trimmed text ∧
      (',' ∉ text.toList → Diagram.parse true (paint.directive id text) =
        .ok ⟨⟨[.painted paint id color], []⟩, none, []⟩) ∧
      (',' ∈ text.toList → ∀ strict d, Diagram.parse strict (paint.directive id text) = .ok d →
        ∀ n ∈ d.graph.nodes, n.style.bind paint.of ≠ some color) := by
  have hcss := Color.css_of_parse hcolor
  refine ⟨hcss, Diagram.parse_directive paint hid hfeed hcolor,
    fun hcomma strict d hparse n hn hpainted => ?_⟩
  refine Diagram.not_mem_css hparse hn hpainted ?_
  rw [hcss, Text.trimmed, String.toList_ofList]
  exact Text.mem_trim hcomma rfl

/-- A function whose arguments are separated by blanks is carried through, a return at
    the end of the line apart. -/
theorem style_carries_color_blanks :
    let text := "  RGB(255 0 0 / 50%)\r"
    Statement.IsId "A_1" ∧ '\n' ∉ text.toList ∧ ',' ∉ text.toList ∧
      ∃ color, Color.parse text = .ok color ∧ color.css = "RGB(255 0 0 / 50%)" ∧
        Diagram.parse true (Paint.stroke.directive "A_1" text) =
          .ok ⟨⟨[.painted .stroke "A_1" color], []⟩, none, []⟩ := by
  intro text
  have hid : Statement.IsId "A_1" := by decide
  have hfeed : '\n' ∉ text.toList := by decide
  have hcomma : ',' ∉ text.toList := by decide
  have hok : (Color.parse text).isOk = true := by decide +kernel
  refine ⟨hid, hfeed, hcomma, ?_⟩
  cases hcolor : Color.parse text with
  | error refusal => rw [hcolor] at hok; cases hok
  | ok color =>
      rcases style_carries_color .stroke hid hfeed hcolor with ⟨hcss, hread, _⟩
      refine ⟨color, rfl, hcss.trans ?_, hread hcomma⟩
      decide

/-- Where commas separate them, the color is taken apart, although it is one. -/
theorem style_loses_color :
    ¬ ∀ (paint : Paint) (id text : String) (color : Color), Statement.IsId id →
      '\n' ∉ text.toList → Color.parse text = .ok color →
      ∃ d, Diagram.parse true (paint.directive id text) = .ok d ∧ d.warnings = [] ∧
        ∃ n ∈ d.graph.nodes, n.id = id ∧ n.style.bind paint.of = some color := by
  intro h
  have hok : (Color.parse "rgb(0, 0, 0)").isOk = true := by decide +kernel
  -- Three parts are refused, so that a reading without warnings is impossible.
  have hcount : (Diagram.parse true (Paint.fill.directive "A" "rgb(0, 0, 0)")).map
      (fun d => d.warnings.length) = .ok 3 := by
    decide +kernel
  cases hcolor : Color.parse "rgb(0, 0, 0)" with
  | error refusal => rw [hcolor] at hok; cases hok
  | ok color =>
      rcases h .fill "A" _ color (by decide) (by decide) hcolor with ⟨d, hparse, hsilent, _⟩
      rw [hparse, Except.map, hsilent] at hcount
      cases hcount

end Flowchart
