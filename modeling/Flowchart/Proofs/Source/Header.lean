import Flowchart.Proofs.Statement.Agreement

/-!
# What a Header Says

A header is told here by its parts, written one after the other: a word that
announces a flowchart, a gap, the name of a direction, and an ending with at
most one semicolon. The reader works the other way round. It takes the longest
run of letters and asks only then whether it is a word that it knows, so the
two agree because no part of a header can run on into the next: a gap holds no
letter, and neither does an ending.

A header is never a statement as well. Both of its words could be ids, but what
follows the first one is a gap and a letter, where a declaration has a bracket
and an edge its arrow; and neither word is the keyword of a style.

## Main definitions

* `Direction.names`: The words for a direction.
* `Source.HeaderParts`: A header, taken apart.
* `Source.Declares`: A text is a header for a direction.

## Theorems

* `header?_eq_some_iff`: A header is read exactly from the text of one.
* `read?_of_declares`: No form reads a statement from a header.
* `header_exact`: Both, and what follows for the lines of a text.
-/

namespace Flowchart

/-- The words for a direction, in capital letters. -/
def Direction.names : Direction → List String
  | topDown => ["TD", "TB"]
  | bottomUp => ["BT"]
  | leftRight => ["LR"]
  | rightLeft => ["RL"]

namespace Source

/-- The words that announce a flowchart, in small letters. -/
def headerWords : List String := ["graph", "flowchart"]

/-- The parts of a header, in the order in which they are written. -/
structure HeaderParts where
  word : List Char
  gap : List Char
  name : List Char
  before : List Char
  mark : List Char
  behind : List Char

namespace HeaderParts

/-- The parts, written one after the other. -/
def text (p : HeaderParts) : List Char :=
  p.word ++ (p.gap ++ (p.name ++ (p.before ++ (p.mark ++ p.behind))))

/-- The parts are those of a header for a direction. The case of its words does
    not count, and the only gap that must be there is the first. -/
structure Declare (p : HeaderParts) (d : Direction) : Prop where
  word : String.ofList (p.word.map Char.toLower) ∈ headerWords
  gap : p.gap ≠ [] ∧ ∀ c ∈ p.gap, isGap c = true
  name : String.ofList (p.name.map Char.toUpper) ∈ d.names
  before : ∀ c ∈ p.before, isGap c = true
  mark : p.mark = [] ∨ p.mark = [';']
  behind : ∀ c ∈ p.behind, isGap c = true

end HeaderParts

/-- A text is a header for a direction. -/
def Declares (cs : List Char) (d : Direction) : Prop :=
  ∃ p : HeaderParts, cs = p.text ∧ p.Declare d

/-! ## Words -/

theorem isAlpha_of_toLower {c : Char} (h : c.toLower.isAlpha = true) : c.isAlpha = true := by
  unfold Char.toLower at h
  split at h
  · rename_i hupper
    have hletter : c.isUpper = true := decide_eq_true hupper
    exact Bool.or_eq_true_iff.mpr (Or.inl hletter)
  · exact h

theorem isAlpha_of_toUpper {c : Char} (h : c.toUpper.isAlpha = true) : c.isAlpha = true := by
  unfold Char.toUpper at h
  split at h
  · rename_i hlower
    have hletter : c.isLower = true :=
      Bool.and_eq_true_iff.mpr ⟨decide_eq_true hlower.1, decide_eq_true hlower.2⟩
    exact Bool.or_eq_true_iff.mpr (Or.inr hletter)
  · exact h

/-- A change of case makes a word of letters from letters alone. -/
theorem isAlpha_of_map {change : Char → Char} {word : List Char} {words : List String}
    (hchange : ∀ c, (change c).isAlpha = true → c.isAlpha = true)
    (hwords : words.all (fun w => w.toList.all Char.isAlpha) = true)
    (h : String.ofList (word.map change) ∈ words) : ∀ c ∈ word, c.isAlpha = true := by
  intro c hc
  have hletters := List.all_eq_true.mp hwords _ h
  refine hchange c (List.all_eq_true.mp hletters _ ?_)
  rw [String.toList_ofList]
  exact List.mem_map_of_mem hc

theorem isAlpha_of_word {word : List Char}
    (h : String.ofList (word.map Char.toLower) ∈ headerWords) : ∀ c ∈ word, c.isAlpha = true :=
  isAlpha_of_map (fun _ => isAlpha_of_toLower) (by decide) h

theorem isAlpha_of_name {name : List Char} {d : Direction}
    (h : String.ofList (name.map Char.toUpper) ∈ d.names) : ∀ c ∈ name, c.isAlpha = true :=
  isAlpha_of_map (fun _ => isAlpha_of_toUpper) (by cases d <;> decide) h

theorem isHeaderWord_iff (word : List Char) :
    isHeaderWord word = true ↔ String.ofList (word.map Char.toLower) ∈ headerWords := by
  have hword : ∀ w : String, word.map Char.toLower = w.toList ↔
      String.ofList (word.map Char.toLower) = w := by
    intro w
    rw [← String.toList_inj, String.toList_ofList]
  simp only [isHeaderWord, headerWords, Bool.or_eq_true, beq_iff_eq, hword, List.mem_cons,
    List.not_mem_nil, or_false]

theorem ofToken?_eq_some_iff (token : String) (d : Direction) :
    Direction.ofToken? token = some d ↔
      String.ofList (token.toList.map Char.toUpper) ∈ d.names := by
  unfold Direction.ofToken?
  generalize String.ofList (token.toList.map Char.toUpper) = name
  split
  case h_6 htd htb hbt hlr hrl =>
    refine iff_of_false (by simp only [reduceCtorEq, not_false_eq_true]) fun hmem => ?_
    cases d <;> simp only [Direction.names, List.mem_cons, List.not_mem_nil, or_false] at hmem
    · exact hmem.elim htd htb
    · exact hbt hmem
    · exact hlr hmem
    · exact hrl hmem
  all_goals cases d <;> decide

/-! ## Gaps and endings -/

theorem isAlpha_of_isGap {c : Char} (h : isGap c = true) : c.isAlpha = false := by
  rcases (Statement.isGap_iff c).mp h with rfl | rfl <;> rfl

/-- A text gets shorter without the gap it starts with exactly if it starts
    with one. -/
theorem length_skipGap_lt_iff (cs : List Char) :
    (skipGap cs).length < cs.length ↔ cs.takeWhile isGap ≠ [] := by
  have hlength := congrArg List.length (List.takeWhile_append_dropWhile (p := isGap) (l := cs))
  rw [List.length_append] at hlength
  rw [skipGap, ← List.length_pos_iff]
  omega

theorem endsHeader_iff (cs : List Char) :
    endsHeader cs = true ↔ ∃ before mark behind, cs = before ++ (mark ++ behind) ∧
      (∀ c ∈ before, isGap c = true) ∧ (mark = [] ∨ mark = [';']) ∧
      ∀ c ∈ behind, isGap c = true := by
  have hgap : ∀ xs : List Char, (∀ c ∈ xs.takeWhile isGap, isGap c = true) :=
    fun xs c hc => List.mem_takeWhile_imp hc
  have hcut : ∀ xs : List Char, xs = xs.takeWhile isGap ++ skipGap xs :=
    fun xs => List.takeWhile_append_dropWhile.symm
  constructor
  · intro h
    unfold endsHeader at h
    split at h
    · -- There is a semicolon behind the gap, or nothing at all.
      rename_i rest hrest
      refine ⟨cs.takeWhile isGap, [';'], rest, ?_, hgap cs, Or.inr rfl, ?_⟩
      · rw [List.singleton_append, ← hrest]
        exact hcut cs
      · exact List.dropWhile_eq_nil_iff.mp (List.isEmpty_iff.mp h)
    · refine ⟨cs, [], [], (List.append_nil cs).symm, ?_, Or.inl rfl, List.forall_mem_nil _⟩
      exact List.dropWhile_eq_nil_iff.mp (List.isEmpty_iff.mp h)
  · rintro ⟨before, mark, behind, rfl, hbefore, rfl | rfl, hbehind⟩
    · have hnil : skipGap (before ++ ([] ++ behind)) = [] := by
        rw [List.nil_append, skipGap, List.dropWhile_append_of_pos hbefore]
        exact List.dropWhile_eq_nil_iff.mpr hbehind
      rw [endsHeader, hnil]
      rfl
    · have hmark : skipGap (before ++ ([';'] ++ behind)) = ';' :: behind := by
        rw [skipGap, List.dropWhile_append_of_pos hbefore]
        rfl
      rw [endsHeader, hmark]
      exact List.isEmpty_iff.mpr (List.dropWhile_eq_nil_iff.mpr hbehind)

/-! ## Headers -/

/-- An ending holds no letter, so the name before it is read in full. -/
theorem isAlpha_head?_ending {before mark behind : List Char}
    (hbefore : ∀ c ∈ before, isGap c = true) (hmark : mark = [] ∨ mark = [';'])
    (hbehind : ∀ c ∈ behind, isGap c = true) {c : Char}
    (hc : (before ++ (mark ++ behind)).head? = some c) : c.isAlpha = false := by
  have hmem := List.mem_of_mem_head? hc
  simp only [List.mem_append] at hmem
  rcases hmem with hc | hc | hc
  · exact isAlpha_of_isGap (hbefore c hc)
  · rcases hmark with rfl | rfl
    · exact absurd hc List.not_mem_nil
    · rw [List.mem_singleton.mp hc]
      rfl
  · exact isAlpha_of_isGap (hbehind c hc)

theorem declares_of_header? {cs : List Char} {d : Direction} (h : header? cs = some d) :
    Declares cs d := by
  unfold header? at h
  dsimp only at h
  split at h
  · rename_i hword
    split at h
    · rename_i found hname
      split at h
      · rename_i hend
        rw [Option.some.injEq] at h
        subst h
        rw [isHeaderWord_iff, length_skipGap_lt_iff] at hword
        rw [ofToken?_eq_some_iff, String.toList_ofList] at hname
        rcases (endsHeader_iff _).mp hend with
          ⟨before, mark, behind, hending, hbefore, hmark, hbehind⟩
        -- The text is what was taken from it, run after run.
        refine ⟨⟨cs.takeWhile Char.isAlpha, (cs.dropWhile Char.isAlpha).takeWhile isGap,
          (skipGap (cs.dropWhile Char.isAlpha)).takeWhile Char.isAlpha, before, mark, behind⟩, ?_,
          hword.1, ⟨hword.2, fun c hc => List.mem_takeWhile_imp hc⟩, hname, hbefore, hmark, hbehind⟩
        rw [HeaderParts.text, ← hending, List.takeWhile_append_dropWhile, skipGap,
          List.takeWhile_append_dropWhile, List.takeWhile_append_dropWhile]
      · exact absurd h (by simp only [reduceCtorEq, not_false_eq_true])
    · exact absurd h (by simp only [reduceCtorEq, not_false_eq_true])
  · exact absurd h (by simp only [reduceCtorEq, not_false_eq_true])

theorem name_ne_nil {name : List Char} {d : Direction}
    (h : String.ofList (name.map Char.toUpper) ∈ d.names) : name ≠ [] := by
  rintro rfl
  revert h
  cases d <;> decide

/-- A gap ends at the name of a direction. -/
theorem isGap_head?_name {name : List Char} {d : Direction}
    (h : String.ofList (name.map Char.toUpper) ∈ d.names) (rest : List Char) {c : Char}
    (hc : (name ++ rest).head? = some c) : isGap c = false := by
  rw [List.head?_append_of_ne_nil name (name_ne_nil h)] at hc
  have halpha := isAlpha_of_name h c (List.mem_of_mem_head? hc)
  cases hgap : isGap c with
  | false => rfl
  | true => rw [isAlpha_of_isGap hgap] at halpha; exact absurd halpha Bool.false_ne_true

/-- A word ends at the gap behind it. -/
theorem isAlpha_head?_gap {gap : List Char} (h : gap ≠ [] ∧ ∀ c ∈ gap, isGap c = true)
    (rest : List Char) {c : Char} (hc : (gap ++ rest).head? = some c) : c.isAlpha = false := by
  rw [List.head?_append_of_ne_nil gap h.1] at hc
  exact isAlpha_of_isGap (h.2 c (List.mem_of_mem_head? hc))

/-- The parts of a header are read one after the other, each in full and no
    further. -/
theorem header?_append {word gap name ending : List Char} {d : Direction}
    (hword : String.ofList (word.map Char.toLower) ∈ headerWords)
    (hgap : gap ≠ [] ∧ ∀ c ∈ gap, isGap c = true)
    (hname : String.ofList (name.map Char.toUpper) ∈ d.names)
    (hstop : ∀ c, ending.head? = some c → c.isAlpha = false) (hends : endsHeader ending = true) :
    header? (word ++ (gap ++ (name ++ ending))) = some d := by
  -- Each run of letters or blanks stops where the next part starts.
  have hwordStop : ∀ c, (gap ++ (name ++ ending)).head? = some c → c.isAlpha = false :=
    fun c hc => isAlpha_head?_gap hgap _ hc
  have hskip : skipGap (gap ++ (name ++ ending)) = name ++ ending :=
    Text.dropWhile_append_stop hgap.2 fun c hc => isGap_head?_name hname _ hc
  have hshort : (name ++ ending).length < (gap ++ (name ++ ending)).length := by
    have hpos := List.length_pos_iff.mpr hgap.1
    simp only [List.length_append]
    omega
  have hfound : Direction.ofToken? (String.ofList name) = some d := by
    rw [ofToken?_eq_some_iff, String.toList_ofList]
    exact hname
  unfold header?
  dsimp only
  rw [Text.takeWhile_append_stop (isAlpha_of_word hword) hwordStop,
    Text.dropWhile_append_stop (isAlpha_of_word hword) hwordStop, hskip,
    if_pos ⟨(isHeaderWord_iff word).mpr hword, hshort⟩,
    Text.takeWhile_append_stop (isAlpha_of_name hname) hstop,
    Text.dropWhile_append_stop (isAlpha_of_name hname) hstop, hfound]
  dsimp only
  rw [if_pos hends]

theorem header?_of_declares {cs : List Char} {d : Direction} (h : Declares cs d) :
    header? cs = some d := by
  rcases h with ⟨⟨word, gap, name, before, mark, behind⟩, rfl, hword, hgap, hname, hbefore, hmark,
    hbehind⟩
  refine header?_append hword hgap hname
    (fun c hc => isAlpha_head?_ending hbefore hmark hbehind hc) ?_
  exact (endsHeader_iff _).mpr ⟨before, mark, behind, rfl, hbefore, hmark, hbehind⟩

/-- A header is read exactly from the text of one. -/
theorem header?_eq_some_iff (cs : List Char) (d : Direction) :
    header? cs = some d ↔ Declares cs d :=
  ⟨declares_of_header?, header?_of_declares⟩

/-! ## Headers and statements -/

/-- The word of a header is read as an id that nothing belongs to. -/
theorem endpoint?_header {word gap : List Char} (rest : List Char)
    (hword : String.ofList (word.map Char.toLower) ∈ headerWords)
    (hgap : gap ≠ [] ∧ ∀ c ∈ gap, isGap c = true) :
    Statement.endpoint? (word ++ (gap ++ rest)) =
      some (⟨String.ofList word, none⟩, gap ++ rest) := by
  have hhead : ∀ c, (gap ++ rest).head? = some c →
      isIdChar c = false ∧ c ∉ Statement.bracketHeads := by
    intro c hc
    rw [List.head?_append_of_ne_nil gap hgap.1] at hc
    rcases (Statement.isGap_iff c).mp (hgap.2 c (List.mem_of_mem_head? hc)) with
      rfl | rfl <;> decide
  have hid : Statement.IsId (String.ofList word) := by
    refine ⟨fun hempty => ?_, fun c hc => ?_⟩
    · rw [← String.toList_inj, String.toList_ofList] at hempty
      rw [hempty] at hword
      exact absurd hword (by decide)
    · rw [String.toList_ofList] at hc
      rw [isIdChar, Char.isAlphanum, isAlpha_of_word hword c hc, Bool.true_or, Bool.true_or]
  -- The id ends at the gap, and no bracket starts there.
  have hread : Statement.id? (word ++ (gap ++ rest)) = some (String.ofList word, gap ++ rest) := by
    refine (Statement.id?_eq_some_iff _ _ _).mpr ⟨?_, hid, fun c hc => (hhead c hc).1⟩
    rw [String.toList_ofList]
  have hnone : Statement.bracket? (gap ++ rest) = none :=
    Statement.bracket?_eq_none fun c hc => (hhead c hc).2
  simp only [Statement.endpoint?, hread, hnone, Option.bind_eq_bind, Option.bind_some,
    Option.pure_def]

/-- No form reads a statement from a header. Behind its first word stands
    neither a bracket nor an arrow, and that word is no keyword. -/
theorem read?_of_declares {cs : List Char} {d : Direction} (h : Declares cs d) (form : Form) :
    form.read? cs = none := by
  rcases h with ⟨⟨word, gap, name, before, mark, behind⟩, rfl, hword, hgap, hname, _⟩
  dsimp only at hword hgap hname
  rw [HeaderParts.text]
  dsimp only
  have hend := endpoint?_header (name ++ (before ++ (mark ++ behind))) hword hgap
  have hskip : skipGap (gap ++ (name ++ (before ++ (mark ++ behind)))) =
      name ++ (before ++ (mark ++ behind)) :=
    Text.dropWhile_append_stop hgap.2 fun c hc => isGap_head?_name hname _ hc
  cases hread : form.read? (word ++ (gap ++ (name ++ (before ++ (mark ++ behind))))) with
  | none => rfl
  | some s =>
      -- Whatever is read starts like a declaration, an edge or a style.
      cases Statement.starts_of_read? hread with
      | declaration hend' _ =>
          simp only [hend, Option.some.injEq, Prod.mk.injEq, Endpoint.mk.injEq, reduceCtorEq,
            and_false, false_and] at hend'
      | edge harrow hend' harrowText _ _ =>
          simp only [hend, Option.some.injEq, Prod.mk.injEq] at hend'
          rw [← hend'.2, hskip] at harrowText
          -- An arrow starts with no letter.
          have hhead := congrArg List.head? harrowText
          rw [Statement.head?_arrow harrow,
            List.head?_append_of_ne_nil name (name_ne_nil hname)] at hhead
          exact absurd (isAlpha_of_name hname '-' (List.mem_of_mem_head? hhead)) (by decide)
      | style hend' _ _ _ =>
          simp only [hend, Option.some.injEq, Prod.mk.injEq, Endpoint.mk.injEq, and_true] at hend'
          have hstyle : word = "style".toList := by
            rw [← hend'.1, String.toList_ofList]
          rw [hstyle] at hword
          exact absurd hword (by decide)

theorem ofLine?_of_declares {cs : List Char} {d : Direction} (h : Declares cs d) :
    Statement.ofLine? cs = none := by
  rw [Statement.ofLine?, List.findSome?_eq_none_iff]
  intro form _
  rw [read?_of_declares h form]
  rfl

/-- What is taken from the lines of a text is one header that stands first, or
    nothing. -/
theorem stripHeader_cases (lines : List Line) :
    (stripHeader lines = (none, lines) ∧
        ∀ first, lines.head? = some first → header? first.text.toList = none) ∨
      ∃ first rest d, lines = first :: rest ∧ header? first.text.toList = some d ∧
        stripHeader lines = (some d, rest) := by
  cases lines with
  | nil =>
      refine Or.inl ⟨rfl, fun first h => ?_⟩
      exact absurd h (by simp only [List.head?_nil, reduceCtorEq, not_false_eq_true])
  | cons first rest =>
      cases hheader : header? first.text.toList with
      | none =>
          refine Or.inl ⟨by rw [stripHeader, hheader], fun line h => ?_⟩
          rw [← Option.some.inj h]
          exact hheader
      | some d => exact Or.inr ⟨first, rest, d, rfl, hheader, by rw [stripHeader, hheader]⟩

theorem stripHeader_subset (lines : List Line) : (stripHeader lines).2 ⊆ lines := by
  rcases stripHeader_cases lines with ⟨hnone, _⟩ | ⟨first, rest, d, hlines, _, hstrip⟩
  · rw [hnone]
    exact List.Subset.refl lines
  · rw [hstrip, hlines]
    exact List.subset_cons_self first rest

/-- Headers are recognized exactly, and no statement is read from one. So what
    is taken from the lines of a text is at most the first of them, and only if
    it says nothing about nodes, edges or styles. -/
theorem header_exact :
    (∀ (cs : List Char) (d : Direction), header? cs = some d ↔ Declares cs d) ∧
      (∀ (cs : List Char) (d : Direction), header? cs = some d → Statement.ofLine? cs = none) ∧
      ∀ lines : List Line, (stripHeader lines = (none, lines) ∧
          ∀ first d, lines.head? = some first → ¬Declares first.text.toList d) ∨
        ∃ first rest d, lines = first :: rest ∧ stripHeader lines = (some d, rest) ∧
          Declares first.text.toList d ∧ Statement.ofLine? first.text.toList = none := by
  refine ⟨header?_eq_some_iff, fun cs d h => ofLine?_of_declares (declares_of_header? h), ?_⟩
  intro lines
  rcases stripHeader_cases lines with ⟨hnone, hfirst⟩ | ⟨first, rest, d, hlines, hheader, hstrip⟩
  · -- A line that declares is read as a header, and the first line was not.
    refine Or.inl ⟨hnone, fun first d hhead hdeclares => ?_⟩
    have hnot := hfirst first hhead
    rw [header?_of_declares hdeclares] at hnot
    exact absurd hnot (by simp only [reduceCtorEq, not_false_eq_true])
  · have hdeclares := declares_of_header? hheader
    exact Or.inr ⟨first, rest, d, hlines, hstrip, hdeclares, ofLine?_of_declares hdeclares⟩

/-- A header in mixed case, with tabs and a semicolon that stands apart. -/
theorem header_exact_mixed :
    header? "FlowChart\t rL ;\t".toList = some .rightLeft ∧
      Statement.ofLine? "FlowChart\t rL ;\t".toList = none :=
  have hread : header? "FlowChart\t rL ;\t".toList = some .rightLeft := by decide +kernel
  ⟨hread, header_exact.2.1 _ _ hread⟩

end Source

end Flowchart
