import Flowchart.Proofs.Text.Run
import Flowchart.Source.Line
import Mathlib.Data.String.Basic

/-!
# Where Lines Stand

A line keeps a number, a column and a span of bytes beside its text, and each
of them is counted by its own rule while the text is read. Here they are all
said of one thing, the characters before the line: their bytes, their line
feeds, and how many of them stand after the last line feed.

The text is read with the ending of each line still on it. It is easier to see
it cut at the line feeds and nothing else, as `physicalLines` does; the carriage
returns are then blanks like any others, and trimming takes them away.
`lines_eq_linesOf` says that both give the same lines, and the rest follows the
physical lines from the first to the last.

## Main definitions

* `Span.Selects`: A span marks a text within a source.
* `Source.physicalLines`: The source cut at each line feed.
* `Source.Speaks`: A trimmed line says something.
* `Source.Line.Stands`: Where a line stands, told by what is before it.
* `Source.linesOf`: The significant lines among physical ones.

## Theorems

* `selects_of_append`: A span of whole characters selects them.
* `lines_eq_linesOf`: Lines are read from physical lines.
* `map_numbered_lines`: Which lines are significant, and their numbers.
* `exists_stands`: Every line stands where its location says.
* `pairwise_lines`: No two lines overlap, and they stand in order.
-/

namespace Flowchart

/-- A span marks a text within a source. Both of its ends lie between
    characters of the source, and the bytes between them are those of the
    text. -/
structure Span.Selects (s : Span) (source text : String) : Prop where
  ordered : s.start ≤ s.stop
  inside : s.stop ≤ source.utf8ByteSize
  valid_start : String.Pos.Raw.IsValid source ⟨s.start⟩
  valid_stop : String.Pos.Raw.IsValid source ⟨s.stop⟩
  bytes : source.toUTF8.extract s.start s.stop = text.toUTF8

namespace Text

theorem byteLength_append (cs ds : List Char) :
    byteLength (cs ++ ds) = byteLength cs + byteLength ds := by
  induction cs with
  | nil => exact (Nat.zero_add _).symm
  | cons c cs ih => rw [List.cons_append, byteLength, byteLength, ih, Nat.add_assoc]

theorem utf8ByteSize_ofList (cs : List Char) : (String.ofList cs).utf8ByteSize = byteLength cs := by
  rw [String.utf8ByteSize_ofList]
  induction cs with
  | nil => rfl
  | cons c cs ih => rw [String.utf8Len_cons, byteLength, ih, Nat.add_comm]

/-- A text is its indent, what is left after trimming, and blanks. -/
theorem exists_indent_trim (cs : List Char) :
    ∃ post, cs = cs.takeWhile isBlank ++ (trim cs ++ post) := by
  rcases trimRight_isPrefix (trimLeft cs) with ⟨post, hright⟩
  refine ⟨post, ?_⟩
  rw [trim, hright, trimLeft, List.takeWhile_append_dropWhile]

end Text

/-- The span of characters that stand in a source selects them. -/
theorem Span.selects_of_append {source : String} {before text after : List Char}
    (h : source.toList = before ++ (text ++ after)) :
    Span.Selects ⟨Text.byteLength before, Text.byteLength (before ++ text)⟩ source
      (String.ofList text) := by
  have hsource : source = String.ofList before ++ (String.ofList text ++ String.ofList after) := by
    rw [← String.toList_inj, h]
    simp only [String.toList_append, String.toList_ofList]
  have hstart : (⟨Text.byteLength before⟩ : String.Pos.Raw) = (String.ofList before).rawEndPos := by
    rw [← Text.utf8ByteSize_ofList]
    rfl
  have hstop : (⟨Text.byteLength (before ++ text)⟩ : String.Pos.Raw) =
      (String.ofList before ++ String.ofList text).rawEndPos := by
    rw [← String.ofList_append, ← Text.utf8ByteSize_ofList]
    rfl
  have hbefore : Text.byteLength before = (String.ofList before).toUTF8.size :=
    (Text.utf8ByteSize_ofList before).symm
  have htext : Text.byteLength text = (String.ofList text).toUTF8.size :=
    (Text.utf8ByteSize_ofList text).symm
  -- Both ends lie between two characters, and the bytes between them are those of the text.
  have hvalidStop : String.Pos.Raw.IsValid source ⟨Text.byteLength (before ++ text)⟩ := by
    rw [hsource, ← String.append_assoc]
    exact (String.Pos.Raw.isValid_of_eq_rawEndPos hstop).append_right _
  refine ⟨?_, hvalidStop.le_utf8ByteSize, ?_, hvalidStop, ?_⟩
  · rw [Text.byteLength_append]
    exact Nat.le_add_right _ _
  · rw [hsource]
    exact (String.Pos.Raw.isValid_of_eq_rawEndPos hstart).append_right _
  · have hbytes : source.toUTF8 = (String.ofList before).toUTF8 ++
        ((String.ofList text).toUTF8 ++ (String.ofList after).toUTF8) := by
      rw [hsource]
      exact String.toByteArray_append.trans (congrArg _ String.toByteArray_append)
    have hcut := ByteArray.extract_append_size_add (a := (String.ofList before).toUTF8)
      (b := (String.ofList text).toUTF8 ++ (String.ofList after).toUTF8) (i := 0)
      (j := (String.ofList text).toUTF8.size)
    rw [hbytes, Text.byteLength_append, hbefore, htext]
    rw [Nat.add_zero] at hcut
    rw [hcut]
    exact ByteArray.extract_append_eq_left rfl

namespace Source

/-! ## Physical lines -/

/-- The source cut at each line feed. -/
def physicalLines (source : String) : List (List Char) := source.toList.splitOn '\n'

/-- A trimmed line says something: it is not empty, and it is no comment. -/
def Speaks (text : List Char) : Prop := text ≠ [] ∧ ¬"%%".toList <+: text

instance (text : List Char) : Decidable (Speaks text) := inferInstanceAs (Decidable (_ ∧ _))

theorem isSilent_eq_false_iff (text : List Char) : isSilent text = false ↔ Speaks text := by
  unfold isSilent Speaks
  split
  · simp
  · simp
  · rename_i hnil hcomment
    simp only [true_iff]
    refine ⟨hnil, ?_⟩
    rintro ⟨rest, rfl⟩
    exact hcomment rest rfl

/-- The characters after the last line feed. -/
def sinceLineFeed (cs : List Char) : List Char := (cs.reverse.takeWhile (· ≠ '\n')).reverse

/-- A line stands in a source between the characters before it and those after
    it. Its place is told by the ones before: its span starts after their bytes,
    its number counts their line feeds, and its column the characters since the
    last of these. -/
structure Line.Stands (l : Line) (source : String) (before after : List Char) : Prop where
  text : source.toList = before ++ (l.text.toList ++ after)
  start : l.location.span.start = Text.byteLength before
  stop : l.location.span.stop = Text.byteLength (before ++ l.text.toList)
  line : l.location.line = before.count '\n' + 1
  column : l.location.column = (sinceLineFeed before).length + 1

/-- The line that a physical one is if it says something. -/
def located (number offset : Nat) (l : List Char) : Line :=
  ⟨String.ofList (Text.trim l), ⟨number, (l.takeWhile Text.isBlank).length + 1,
    ⟨offset + Text.byteLength (l.takeWhile Text.isBlank),
      offset + Text.byteLength (l.takeWhile Text.isBlank) + Text.byteLength (Text.trim l)⟩⟩⟩

/-- The significant lines among physical ones, of which the first has the given
    number and offset. The line feed after each takes one byte. -/
def linesOf : Nat → Nat → List (List Char) → List Line
  | _, _, [] => []
  | number, offset, l :: ls =>
      let rest := linesOf (number + 1) (offset + Text.byteLength l + 1) ls
      if Speaks (Text.trim l) then located number offset l :: rest else rest

/-! ## Reading physical lines -/

theorem isBlank_of_isLineEnd {c : Char} (h : isLineEnd c = true) : Text.isBlank c = true := by
  rw [isLineEnd, Bool.or_eq_true, beq_iff_eq, beq_iff_eq] at h
  rcases h with rfl | rfl <;> rfl

/-- The ending of a line is blank, so trimming does not see it. -/
theorem exists_ending (l : List Char) :
    ∃ ending, l = content l ++ ending ∧ ∀ c ∈ ending, Text.isBlank c = true := by
  rcases Text.exists_dropRightWhile isLineEnd l with ⟨ending, hl, hending⟩
  exact ⟨ending, hl, fun c hc => isBlank_of_isLineEnd (hending c hc)⟩

theorem trim_content (l : List Char) : Text.trim (content l) = Text.trim l := by
  rcases exists_ending l with ⟨ending, hl, hblank⟩
  rw [← Text.trim_append_blank (content l) hblank, ← hl]

/-- A line that says something has its indent before its ending. -/
theorem takeWhile_content {l : List Char} (h : Text.trim l ≠ []) :
    (content l).takeWhile Text.isBlank = l.takeWhile Text.isBlank := by
  rcases exists_ending l with ⟨ending, hl, _⟩
  have hlonger : (content l).takeWhile Text.isBlank ≠ content l := by
    intro hall
    rw [List.takeWhile_eq_self_iff, ← List.dropWhile_eq_nil_iff] at hall
    rw [← trim_content, Text.trim, Text.trimLeft, hall] at h
    exact h rfl
  have htake : (content l ++ ending).takeWhile Text.isBlank =
      (content l).takeWhile Text.isBlank := by
    rw [List.takeWhile_append, if_neg]
    exact fun hlength => hlonger ((List.takeWhile_prefix _).eq_of_length hlength)
  rw [← hl] at htake
  exact htake.symm

theorem line?_eq (number offset : Nat) (l : List Char) :
    line? number offset l =
      if Speaks (Text.trim l) then some (located number offset l) else none := by
  unfold line?
  dsimp only
  rw [trim_content]
  -- The line is silent, or its text starts after the indent.
  cases hsilent : isSilent (Text.trim l) with
  | true =>
      rw [if_pos rfl, if_neg]
      rw [← isSilent_eq_false_iff, hsilent]
      exact Bool.noConfusion
  | false =>
      have hspeaks := (isSilent_eq_false_iff _).mp hsilent
      rw [if_neg Bool.false_ne_true, if_pos hspeaks, takeWhile_content hspeaks.1]
      rfl

/-- Physical lines with their line feeds put back. The last line has none, and
    where it is empty there is no such line. -/
def terminated : List (List Char) → List (List Char)
  | [] => []
  | [l] => if l = [] then [] else [l]
  | l :: l' :: ls => (l ++ ['\n']) :: terminated (l' :: ls)

theorem terminated_cons {l : List Char} {ls : List (List Char)} (h : ls ≠ []) :
    terminated (l :: ls) = (l ++ ['\n']) :: terminated ls := by
  cases ls with
  | nil => exact absurd rfl h
  | cons l' ls => rfl

/-- One more character at the head of the first line. -/
theorem terminated_modifyHead (c : Char) {ls : List (List Char)} (h : ls ≠ []) :
    terminated (ls.modifyHead (List.cons c)) =
      match terminated ls with
      | [] => [[c]]
      | raw :: raws => (c :: raw) :: raws := by
  cases ls with
  | nil => exact absurd rfl h
  | cons l ls =>
      cases ls with
      | nil => cases l <;> rfl
      | cons l' ls => rfl

theorem rawLines_eq_terminated (cs : List Char) :
    rawLines cs = terminated (cs.splitOn '\n') := by
  induction cs with
  | nil => rfl
  | cons c cs ih =>
      have hne := List.splitOn_ne_nil '\n' cs
      rw [rawLines, List.splitOn_cons_eq_if_modifyHead]
      by_cases hc : c = '\n'
      · rw [if_pos hc, if_pos (beq_iff_eq.mpr hc), terminated_cons hne, ih, hc]
        rfl
      · rw [if_neg hc, if_neg (fun h => hc (beq_iff_eq.mp h)), ih]
        exact (terminated_modifyHead c hne).symm

/-- A line feed at the end of a line is no part of its text. -/
theorem line?_append_lineFeed (number offset : Nat) (l : List Char) :
    line? number offset (l ++ ['\n']) = line? number offset l := by
  have hcontent : content (l ++ ['\n']) = content l := by
    rw [content, content, Text.dropRightWhile, List.reverse_append]
    rfl
  rw [line?, line?, hcontent]

theorem linesFrom_terminated (number offset : Nat) (ls : List (List Char)) :
    linesFrom number offset (terminated ls) = linesOf number offset ls := by
  induction ls generalizing number offset with
  | nil => rfl
  | cons l ls ih =>
      -- The last line has no line feed behind it, and is no line if it is empty.
      cases ls with
      | nil =>
          rw [terminated, linesOf]
          by_cases hl : l = []
          · rw [if_pos hl, hl, if_neg (by decide)]
            rfl
          · rw [if_neg hl, linesFrom, line?_eq]
            by_cases hspeaks : Speaks (Text.trim l)
            · rw [if_pos hspeaks, if_pos hspeaks]
              rfl
            · rw [if_neg hspeaks, if_neg hspeaks]
              rfl
      | cons l' ls =>
          have hlength : Text.byteLength (l ++ ['\n']) = Text.byteLength l + 1 := by
            rw [Text.byteLength_append]
            rfl
          rw [terminated_cons (List.cons_ne_nil l' ls), linesFrom, linesOf, line?_append_lineFeed,
            line?_eq, hlength, ← Nat.add_assoc, ih]
          by_cases hspeaks : Speaks (Text.trim l)
          · rw [if_pos hspeaks, if_pos hspeaks]
          · rw [if_neg hspeaks, if_neg hspeaks]

/-- The significant lines of a source are those among its physical lines. -/
theorem lines_eq_linesOf (source : String) :
    lines source = linesOf 1 0 (physicalLines source) := by
  rw [lines, rawLines_eq_terminated, linesFrom_terminated, physicalLines]

/-! ## Texts and numbers -/

/-- The text of a line with its number. -/
def Line.numbered (l : Line) : List Char × Nat := (l.text.toList, l.location.line)

theorem map_numbered_linesOf (number offset : Nat) (ls : List (List Char)) :
    (linesOf number offset ls).map Line.numbered =
      ((ls.map Text.trim).zipIdx number).filter fun p => Speaks p.1 := by
  induction ls generalizing number offset with
  | nil => rfl
  | cons l ls ih =>
      have hhead : (located number offset l).numbered = (Text.trim l, number) := by
        rw [Line.numbered, located, String.toList_ofList]
      rw [linesOf, List.map_cons, List.zipIdx_cons, List.filter_cons]
      by_cases hspeaks : Speaks (Text.trim l)
      · rw [if_pos hspeaks, if_pos (decide_eq_true hspeaks), List.map_cons, hhead, ih]
      · rw [if_neg hspeaks, if_neg (by rw [decide_eq_true_eq]; exact hspeaks), ih]

/-- The significant lines are the physical ones that say something, in their
    order and with their numbers. -/
theorem map_numbered_lines (source : String) :
    (lines source).map Line.numbered =
      (((physicalLines source).map Text.trim).zipIdx 1).filter fun p => Speaks p.1 := by
  rw [lines_eq_linesOf, map_numbered_linesOf]

/-! ## Places -/

theorem not_mem_of_mem_splitOn {α : Type} [DecidableEq α] {x : α} {xs l : List α}
    (h : l ∈ xs.splitOn x) : x ∉ l := by
  induction xs generalizing l with
  | nil =>
      rw [List.splitOn_nil, List.mem_singleton] at h
      rw [h]
      exact List.not_mem_nil
  | cons y ys ih =>
      rw [List.splitOn_cons_eq_if_modifyHead] at h
      split at h
      · rcases List.mem_cons.mp h with rfl | h
        · exact List.not_mem_nil
        · exact ih h
      · rename_i hy
        -- The new element is put before the first part, and it is no cut.
        cases hsplit : ys.splitOn x with
        | nil => exact absurd hsplit (List.splitOn_ne_nil x ys)
        | cons first rest =>
            rw [hsplit] at ih h
            rcases List.mem_cons.mp h with rfl | h
            · intro hmem
              rcases List.mem_cons.mp hmem with hhead | hmem
              · exact hy (beq_iff_eq.mpr hhead.symm)
              · exact ih List.mem_cons_self hmem
            · exact ih (List.mem_cons_of_mem first h)

theorem sinceLineFeed_append {cs : List Char} (before : List Char) (h : '\n' ∉ cs) :
    sinceLineFeed (before ++ cs) = sinceLineFeed before ++ cs := by
  have hcs : ∀ c ∈ cs.reverse, decide (c ≠ '\n') = true := by
    intro c hc
    rw [decide_eq_true_eq]
    rintro rfl
    exact h (List.mem_reverse.mp hc)
  rw [sinceLineFeed, List.reverse_append, List.takeWhile_append_of_pos hcs, List.reverse_append,
    List.reverse_reverse, sinceLineFeed]

theorem sinceLineFeed_lineFeed (before : List Char) : sinceLineFeed (before ++ ['\n']) = [] := by
  rw [sinceLineFeed, List.reverse_append]
  rfl

/-- A physical line with the given number and offset starts behind these
    characters. -/
structure Opens (before : List Char) (number offset : Nat) : Prop where
  offset : offset = Text.byteLength before
  number : number = before.count '\n' + 1
  fresh : sinceLineFeed before = []

theorem Opens.next {before l : List Char} {number offset : Nat} (h : Opens before number offset)
    (hl : '\n' ∉ l) :
    Opens (before ++ (l ++ ['\n'])) (number + 1) (offset + Text.byteLength l + 1) := by
  refine ⟨?_, ?_, ?_⟩
  · rw [Text.byteLength_append, Text.byteLength_append, h.offset, Nat.add_assoc]
    rfl
  · rw [List.count_append, List.count_append, List.count_eq_zero_of_not_mem hl, h.number,
      Nat.zero_add]
    rfl
  · rw [← List.append_assoc]
    exact sinceLineFeed_lineFeed _

theorem Opens.stands {source : String} {before l rest : List Char} {number offset : Nat}
    (h : Opens before number offset) (hsource : source.toList = before ++ (l ++ rest))
    (hl : '\n' ∉ l) :
    ∃ before after, (located number offset l).Stands source before after := by
  rcases Text.exists_indent_trim l with ⟨post, hcut⟩
  have hindent : '\n' ∉ l.takeWhile Text.isBlank :=
    fun hmem => hl ((List.takeWhile_prefix Text.isBlank).subset hmem)
  refine ⟨before ++ l.takeWhile Text.isBlank, post ++ rest, ?_⟩
  -- The indent is the only thing between the line feed before and the text.
  constructor
  · rw [hsource, located, String.toList_ofList]
    conv_lhs => rw [hcut]
    simp only [List.append_assoc]
  · rw [located, Text.byteLength_append, h.offset]
  · rw [located, String.toList_ofList, Text.byteLength_append, Text.byteLength_append, h.offset]
  · rw [located, List.count_append, List.count_eq_zero_of_not_mem hindent, h.number, Nat.add_zero]
  · rw [located, sinceLineFeed_append _ hindent, h.fresh, List.nil_append]

theorem exists_stands_of_mem_linesOf {source : String} {before : List Char} {number offset : Nat}
    {ls : List (List Char)} (h : Opens before number offset)
    (hsource : source.toList = before ++ ['\n'].intercalate ls) (hls : ∀ l ∈ ls, '\n' ∉ l)
    {line : Line} (hline : line ∈ linesOf number offset ls) :
    ∃ before after, line.Stands source before after := by
  induction ls generalizing before number offset with
  | nil => exact absurd hline List.not_mem_nil
  | cons l ls ih =>
      rw [List.forall_mem_cons] at hls
      -- Either the line is the first one, or it stands among the others.
      have hcases : line = located number offset l ∨
          line ∈ linesOf (number + 1) (offset + Text.byteLength l + 1) ls := by
        rw [linesOf] at hline
        split at hline
        · exact List.mem_cons.mp hline
        · exact Or.inr hline
      -- Behind any line but the last there is a line feed.
      cases ls with
      | nil =>
          rcases hcases with rfl | hrest
          · have hlast : source.toList = before ++ (l ++ []) := by
              rw [hsource, List.append_nil, List.intercalate_singleton]
            exact h.stands hlast hls.1
          · exact absurd hrest List.not_mem_nil
      | cons l' ls =>
          rw [List.intercalate_cons_cons] at hsource
          rcases hcases with rfl | hrest
          · rw [List.append_assoc] at hsource
            exact h.stands hsource hls.1
          · refine ih (h.next hls.1) ?_ hls.2 hrest
            rw [hsource, List.append_assoc before]

/-- Every significant line stands in the source where its location says. -/
theorem exists_stands {source : String} {line : Line} (h : line ∈ lines source) :
    ∃ before after, line.Stands source before after := by
  have hopens : Opens [] 1 0 := ⟨rfl, rfl, rfl⟩
  have hsource : source.toList = [] ++ ['\n'].intercalate (physicalLines source) :=
    (List.intercalate_splitOn '\n').symm
  rw [lines_eq_linesOf] at h
  exact exists_stands_of_mem_linesOf hopens hsource (fun l hl => not_mem_of_mem_splitOn hl) h

/-- The span of a line selects the text of the line. -/
theorem Line.Stands.selects {l : Line} {source : String} {before after : List Char}
    (h : l.Stands source before after) : l.location.span.Selects source l.text := by
  have hselects := Span.selects_of_append h.text
  rw [← h.start, ← h.stop, String.ofList_toList] at hselects
  exact hselects

/-! ## Spans one after the other -/

theorem start_mem_linesOf {number offset : Nat} {ls : List (List Char)} {line : Line}
    (h : line ∈ linesOf number offset ls) : offset ≤ line.location.span.start := by
  induction ls generalizing number offset with
  | nil => exact absurd h List.not_mem_nil
  | cons l ls ih =>
      rw [linesOf] at h
      split at h
      · rcases List.mem_cons.mp h with rfl | h
        · exact Nat.le_add_right _ _
        · exact Nat.le_trans (by rw [Nat.add_assoc]; exact Nat.le_add_right _ _) (ih h)
      · exact Nat.le_trans (by rw [Nat.add_assoc]; exact Nat.le_add_right _ _) (ih h)

theorem stop_located_le (number offset : Nat) (l : List Char) :
    (located number offset l).location.span.stop ≤ offset + Text.byteLength l := by
  rcases Text.exists_indent_trim l with ⟨post, hcut⟩
  have hlength := congrArg Text.byteLength hcut
  rw [Text.byteLength_append, Text.byteLength_append] at hlength
  rw [located]
  dsimp only
  omega

theorem pairwise_linesOf (number offset : Nat) (ls : List (List Char)) :
    (linesOf number offset ls).Pairwise fun a b =>
      a.location.span.stop < b.location.span.start := by
  induction ls generalizing number offset with
  | nil => exact List.Pairwise.nil
  | cons l ls ih =>
      rw [linesOf]
      split
      · refine List.pairwise_cons.mpr ⟨fun line hline => ?_, ih _ _⟩
        exact Nat.lt_of_le_of_lt (stop_located_le number offset l) (start_mem_linesOf hline)
      · exact ih _ _

/-- No two lines overlap, and they stand in the order in which they are read:
    there is a line feed between each and the next. -/
theorem pairwise_lines (source : String) :
    (lines source).Pairwise fun a b => a.location.span.stop < b.location.span.start := by
  rw [lines_eq_linesOf]
  exact pairwise_linesOf 1 0 _

end Source

end Flowchart
