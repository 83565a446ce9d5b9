import Flowchart.Proofs.Statement.Label
import Flowchart.Proofs.Text.Run
import Mathlib.Data.List.Infix

/-!
# Tokens of a Line

What each reader of a token takes from the head of a line, said from both
sides: what a text must look like for the reader to take just this much, and
what is known about what a reader took. A reader is never given more than one
chance. It takes the longest id, the text up to the first closing mark and
every gap, so a text that was put together from tokens is taken apart in the
same places only if none of them can run on into the next.

Two conditions keep them apart. A label holds its own closing mark nowhere, and
what follows an endpoint starts with a character that neither an id nor a
bracket can start with, which is what `EndsEndpoint` says.

## Main definitions

* `IsId`: A text that is taken as an id.
* `EndsEndpoint`: A text that cannot be read as more of an endpoint.
* `Shape.marks?`: The marks around the label of a shape that can be written.
* `Bracket.Printable`, `Bracket.print`: A bracket, and how it is written.
* `Endpoint.Printable`, `Endpoint.print`: An endpoint, and how it is written.

## Theorems

* `token?_eq_some_iff`, `id?_eq_some_iff`: What is taken as a token or an id.
* `until?_append`, `until?_eq_some`: The text up to a mark is the text up to
  the first one.
* `bracket?_print`, `printable_of_bracket?`: A bracket is read as it was
  written, and what is read can be written.
* `endpoint?_print`, `printable_of_endpoint?`: The same for an endpoint.
-/

namespace Flowchart

namespace Statement

open Source (skipGap isGap)

/-! ## Marks -/

theorem token?_eq_some_iff (token cs rest : List Char) :
    token? token cs = some rest ↔ cs = token ++ rest := by
  unfold token?
  constructor
  · intro h
    split at h
    · rename_i hpre
      rcases List.isPrefixOf_iff_prefix.mp hpre with ⟨tail, rfl⟩
      simp only [List.drop_left, Option.some.injEq] at h
      rw [h]
    · exact absurd h (by simp only [reduceCtorEq, not_false_eq_true])
  · intro h
    have hpre : token.isPrefixOf cs = true := by
      rw [List.isPrefixOf_iff_prefix, h]
      exact List.prefix_append token rest
    rw [if_pos hpre, h, List.drop_left]

theorem until?_nil {stop : List Char} (h : stop ≠ []) : until? stop [] = none := by
  cases stop with
  | nil => exact absurd rfl h
  | cons c stop => rfl

/-- A mark that starts nowhere before is found where it stands. -/
theorem until?_append {stop text : List Char} (rest : List Char)
    (hfirst : ∀ v, v <:+ text → v ≠ [] → ¬stop <+: v ++ (stop ++ rest)) (hne : stop ≠ []) :
    until? stop (text ++ (stop ++ rest)) = some (text, rest) := by
  induction text with
  | nil =>
      -- The mark itself is at the head.
      cases stop with
      | nil => exact absurd rfl hne
      | cons c stop =>
          have hpre : (c :: stop).isPrefixOf (c :: stop ++ rest) = true := by
            rw [List.isPrefixOf_iff_prefix]
            exact List.prefix_append _ _
          rw [List.nil_append, List.cons_append, until?, ← List.cons_append, if_pos hpre,
            List.drop_left]
  | cons c text ih =>
      have hnot : ¬stop.isPrefixOf (c :: (text ++ (stop ++ rest))) = true := by
        rw [List.isPrefixOf_iff_prefix]
        exact hfirst (c :: text) List.suffix_rfl (List.cons_ne_nil c text)
      have hrest := ih fun v hv => hfirst v (hv.trans (List.suffix_cons c text))
      rw [List.cons_append, until?, if_neg hnot, hrest]
      rfl

/-- What was read up to a mark does not hold the mark. -/
theorem until?_eq_some {stop cs text rest : List Char} (hne : stop ≠ [])
    (h : until? stop cs = some (text, rest)) : cs = text ++ (stop ++ rest) ∧ ¬stop <:+: text := by
  induction cs generalizing text with
  | nil =>
      rw [until?_nil hne] at h
      exact absurd h (by simp only [reduceCtorEq, not_false_eq_true])
  | cons c cs ih =>
      rw [until?] at h
      split at h
      · rename_i hpre
        -- The mark is at the head, and the text before it is empty.
        rcases List.isPrefixOf_iff_prefix.mp hpre with ⟨tail, htail⟩
        rw [← htail, List.drop_left] at h
        simp only [Option.some.injEq, Prod.mk.injEq] at h
        rcases h with ⟨rfl, rfl⟩
        refine ⟨htail.symm, fun hinside => hne (List.eq_nil_of_infix_nil hinside)⟩
      · rename_i hpre
        rcases Option.map_eq_some_iff.mp h with ⟨⟨text', rest'⟩, hread, heq⟩
        simp only [Prod.mk.injEq] at heq
        rcases heq with ⟨rfl, rfl⟩
        rcases ih hread with ⟨hcs, hinside⟩
        refine ⟨by rw [hcs]; rfl, fun hmore => ?_⟩
        -- The mark would have been found at the head, or later on.
        rcases List.infix_cons_iff.mp hmore with hhead | hlater
        · apply hpre
          rw [List.isPrefixOf_iff_prefix, hcs]
          exact hhead.trans (List.prefix_append (c :: text') (stop ++ rest'))
        · exact hinside hlater

/-- Without a blank of its own a mark cannot begin in a text and end behind the
    blank after it. -/
theorem prefix_of_blank_not_mem {stop text more : List Char} (hblank : ' ' ∉ stop)
    (h : stop <+: text ++ ' ' :: more) : stop <+: text := by
  rcases List.prefix_or_prefix_of_prefix h (List.prefix_append text (' ' :: more)) with
    hpre | ⟨tail, rfl⟩
  · exact hpre
  · rw [List.prefix_append_right_inj] at h
    cases tail with
    | nil =>
        rw [List.append_nil]
    | cons c tail =>
        rw [List.cons_prefix_cons] at h
        rw [h.1] at hblank
        exact absurd (List.mem_append_right text List.mem_cons_self) hblank

/-- A label between two blanks ends at the mark behind them. -/
theorem until?_label {stop label : List Char} (rest : List Char) (hblank : ' ' ∉ stop)
    (hne : stop ≠ []) (hlabel : ¬stop <:+: label) :
    until? stop (' ' :: (label ++ ' ' :: (stop ++ rest))) =
      some (' ' :: (label ++ [' ']), rest) := by
  have hfirst : ∀ v, v <:+ ' ' :: label ++ [' '] → v ≠ [] → ¬stop <+: v ++ (stop ++ rest) := by
    intro v hv hv0 hstop
    rcases List.suffix_concat_iff.mp hv with hnil | ⟨w, rfl, hw⟩
    · exact hv0 hnil
    · -- What is left of the label ends with the blank, so the mark lies before it.
      rw [List.append_assoc, List.singleton_append] at hstop
      have hpre := prefix_of_blank_not_mem hblank hstop
      rcases List.suffix_cons_iff.mp hw with rfl | hsuffix
      · -- The first blank is no part of the mark either.
        cases stop with
        | nil => exact hne rfl
        | cons c stop =>
            rw [List.cons_prefix_cons] at hpre
            rw [hpre.1] at hblank
            exact hblank List.mem_cons_self
      · exact hlabel (hpre.isInfix.trans hsuffix.isInfix)
  have hread := until?_append rest hfirst hne
  simp only [List.cons_append, List.append_assoc, List.nil_append] at hread
  exact hread

/-- A text without a character is read up to that character. -/
theorem until?_char {c : Char} {text : List Char} (rest : List Char) (h : c ∉ text) :
    until? [c] (text ++ c :: rest) = some (text, rest) := by
  refine until?_append rest ?_ (List.cons_ne_nil c [])
  intro v hv hv0 hstop
  cases v with
  | nil => exact hv0 rfl
  | cons d v =>
      rw [List.cons_append, List.cons_prefix_cons] at hstop
      rw [hstop.1] at h
      exact h (hv.subset List.mem_cons_self)

/-! ## Gaps and ids -/

theorem isGap_iff (c : Char) : isGap c = true ↔ c = ' ' ∨ c = '\t' := by
  rw [isGap, Bool.or_eq_true, beq_iff_eq, beq_iff_eq]

theorem isGap_of_isIdChar {c : Char} (h : isIdChar c = true) : isGap c = false := by
  cases hgap : isGap c with
  | false => rfl
  | true => rcases (isGap_iff c).mp hgap with rfl | rfl <;> exact absurd h (by decide)

/-- A text that is taken as an id: a word that is not empty. -/
def IsId (id : String) : Prop := id ≠ "" ∧ ∀ c ∈ id.toList, isIdChar c = true

instance (id : String) : Decidable (IsId id) :=
  decidable_of_iff (id ≠ "" ∧ id.toList.all isIdChar = true) (and_congr_right' List.all_eq_true)

theorem id?_eq_some_iff (cs rest : List Char) (id : String) :
    id? cs = some (id, rest) ↔ cs = id.toList ++ rest ∧ IsId id ∧
      ∀ c, rest.head? = some c → isIdChar c = false := by
  unfold id?
  dsimp only
  constructor
  · intro h
    split at h
    · exact absurd h (by simp only [reduceCtorEq, not_false_eq_true])
    · rename_i hne
      simp only [Option.some.injEq, Prod.mk.injEq] at h
      rcases h with ⟨rfl, rfl⟩
      rw [String.toList_ofList]
      -- The id is the longest run of its characters, so that it is not empty and stops at another
      -- one.
      refine ⟨List.takeWhile_append_dropWhile.symm, ⟨?_, ?_⟩, ?_⟩
      · intro hempty
        apply hne
        rw [List.isEmpty_iff, ← String.toList_ofList (l := List.takeWhile isIdChar cs), hempty]
        rfl
      · rw [String.toList_ofList]
        exact fun c hc => List.mem_takeWhile_imp hc
      · exact fun c hc => Text.head?_dropWhile_eq_false hc
  · rintro ⟨rfl, ⟨hne, hid⟩, hrest⟩
    rw [Text.takeWhile_append_stop hid hrest, Text.dropWhile_append_stop hid hrest,
      String.ofList_toList, if_neg]
    rw [List.isEmpty_iff]
    exact fun hnil => hne (String.toList_eq_nil_iff.mp hnil)

end Statement

/-! ## Brackets -/

/-- The marks before and after the label of a shape. Two shapes have no bracket
    of their own. -/
def Shape.marks? : Shape → Option (List Char × List Char)
  | rectangle => some (['[', '['], [']', ']'])
  | circle => some (['(', '('], [')', ')'])
  | diamond => some (['\x7b'], ['\x7d'])
  | rounded | stadium => none

namespace Bracket

/-- A bracket that can be written: its shape has marks, and its label holds
    neither the closing one nor blanks at its ends. -/
def Printable (b : Bracket) : Prop :=
  b.Tidy ∧ ∃ opening closing, b.shape.marks? = some (opening, closing) ∧
    ¬closing <:+: b.label.toList

/-- The text of a bracket, with one blank on each side of the label. -/
def print (b : Bracket) : List Char :=
  match b.shape.marks? with
  | some (opening, closing) => opening ++ ' ' :: (b.label.toList ++ ' ' :: closing)
  | none => []

end Bracket

namespace Statement

/-- The label that is read is what stands between the blanks. -/
theorem ofList_trim_label {b : Bracket} (h : b.Tidy) :
    String.ofList (Text.trim (' ' :: (b.label.toList ++ [' ']))) = b.label := by
  have hblank : ∀ c ∈ [' '], Text.isBlank c = true := by
    intro c hc
    rw [List.mem_singleton.mp hc]
    rfl
  have hleft := Text.trim_blank_append (b.label.toList ++ [' ']) hblank
  rw [List.singleton_append] at hleft
  rw [hleft, Text.trim_append_blank b.label.toList hblank]
  exact h

/-- A bracket is read by the first mark that fits and the label up to the next
    one. -/
theorem bracket?_of_marks {cs label rest : List Char} {opening closing : List Char} {shape : Shape}
    (hmarks : shape.marks? = some (opening, closing))
    (hread : until? closing cs = some (label, rest)) :
    bracket? (opening ++ cs) = some (⟨shape, String.ofList (Text.trim label)⟩, rest) := by
  cases shape with
  | rectangle =>
      simp only [Shape.marks?, Option.some.injEq, Prod.mk.injEq] at hmarks
      rcases hmarks with ⟨rfl, rfl⟩
      have htoken : token? ['[', '['] (['[', '['] ++ cs) = some cs := rfl
      simp only [bracket?, brackets, List.findSome?_cons, htoken, hread, Option.bind_eq_bind,
        Option.bind_some, Option.pure_def]
  | circle =>
      simp only [Shape.marks?, Option.some.injEq, Prod.mk.injEq] at hmarks
      rcases hmarks with ⟨rfl, rfl⟩
      have htoken : token? ['(', '('] (['(', '('] ++ cs) = some cs := rfl
      -- The marks that are tried before do not fit.
      have hdouble : token? ['[', '['] (['(', '('] ++ cs) = none := rfl
      have hsingle : token? ['['] (['(', '('] ++ cs) = none := rfl
      simp only [bracket?, brackets, List.findSome?_cons, htoken, hdouble, hsingle, hread,
        Option.bind_eq_bind, Option.bind_some, Option.bind_none, Option.pure_def]
  | diamond =>
      simp only [Shape.marks?, Option.some.injEq, Prod.mk.injEq] at hmarks
      rcases hmarks with ⟨rfl, rfl⟩
      have htoken : token? ['\x7b'] (['\x7b'] ++ cs) = some cs := rfl
      have hdouble : token? ['[', '['] (['\x7b'] ++ cs) = none := rfl
      have hsingle : token? ['['] (['\x7b'] ++ cs) = none := rfl
      have hcircle : token? ['(', '('] (['\x7b'] ++ cs) = none := rfl
      simp only [bracket?, brackets, List.findSome?_cons, htoken, hdouble, hsingle, hcircle, hread,
        Option.bind_eq_bind, Option.bind_some, Option.bind_none, Option.pure_def]
  | rounded => exact absurd hmarks (by simp only [Shape.marks?, reduceCtorEq, not_false_eq_true])
  | stadium => exact absurd hmarks (by simp only [Shape.marks?, reduceCtorEq, not_false_eq_true])

theorem closing_of_marks? {shape : Shape} {opening closing : List Char}
    (h : shape.marks? = some (opening, closing)) : ' ' ∉ closing ∧ closing ≠ [] := by
  cases shape <;> simp only [Shape.marks?, Option.some.injEq, Prod.mk.injEq, reduceCtorEq] at h <;>
    rcases h with ⟨_, rfl⟩ <;> decide

/-- A bracket is read as it was written. -/
theorem bracket?_print {b : Bracket} (h : b.Printable) (rest : List Char) :
    bracket? (b.print ++ rest) = some (b, rest) := by
  rcases h with ⟨htidy, opening, closing, hmarks, hlabel⟩
  rcases closing_of_marks? hmarks with ⟨hblank, hne⟩
  have hread := until?_label rest hblank hne hlabel
  have hbracket := bracket?_of_marks hmarks hread
  rw [ofList_trim_label htidy] at hbracket
  have htext : b.print ++ rest =
      opening ++ ' ' :: (b.label.toList ++ ' ' :: (closing ++ rest)) := by
    simp only [Bracket.print, hmarks, List.append_assoc, List.cons_append]
  rw [htext]
  exact hbracket

/-- The characters that a bracket may start with. -/
def bracketHeads : List Char := ['[', '(', '\x7b']

theorem bracket?_eq_none {cs : List Char} (h : ∀ c, cs.head? = some c → c ∉ bracketHeads) :
    bracket? cs = none := by
  cases hread : bracket? cs with
  | none => rfl
  | some found =>
      rcases List.exists_of_findSome?_eq_some hread with ⟨⟨opening, closing, shape⟩, hmem, hentry⟩
      simp only [Option.bind_eq_bind, Option.bind_eq_some_iff] at hentry
      rcases hentry with ⟨rest, htoken, _⟩
      rw [token?_eq_some_iff] at htoken
      -- Every opening mark starts with one of the heads.
      have hheads : ∀ entry ∈ brackets, entry.1.head?.any (bracketHeads.contains ·) = true := by
        decide
      rcases (Option.any_eq_true _ _).mp (hheads _ hmem) with ⟨c, hc, hhead⟩
      refine absurd (List.contains_iff_mem.mp hhead) (h c ?_)
      rw [htoken, List.head?_append, hc, Option.some_or]

/-- What was read as a bracket can be written as one, though perhaps with other
    marks. -/
theorem printable_of_bracket? {cs rest : List Char} {b : Bracket}
    (h : bracket? cs = some (b, rest)) : b.Printable := by
  refine ⟨tidy_of_bracket? h, ?_⟩
  rcases List.exists_of_findSome?_eq_some h with ⟨⟨opening, closing, shape⟩, hmem, hread⟩
  simp only [Option.bind_eq_bind, Option.bind_eq_some_iff, Option.pure_def, Option.some.injEq,
    Prod.mk.injEq] at hread
  rcases hread with ⟨tail, _, ⟨label, rest'⟩, huntil, rfl, _⟩
  -- A single mark that the label lacks is part of the double one that is written.
  have hmarks : ∀ entry ∈ brackets, entry.2.1 ≠ [] ∧ ∃ marks ∈ entry.2.2.marks?,
      entry.2.1 <:+: marks.2 := by decide
  rcases hmarks _ hmem with ⟨hne, ⟨opening', closing'⟩, hshape, hinside⟩
  refine ⟨opening', closing', hshape, fun hlabel => ?_⟩
  rw [String.toList_ofList] at hlabel
  exact (until?_eq_some hne huntil).2 ((hinside.trans hlabel).trans (Text.trim_isInfix label))

/-! ## Endpoints -/

/-- The text cannot be read as more of an endpoint. -/
def EndsEndpoint (cs : List Char) : Prop :=
  ∀ c, cs.head? = some c → isIdChar c = false ∧ c ∉ bracketHeads

end Statement

namespace Endpoint

/-- An endpoint that can be written. -/
def Printable (e : Endpoint) : Prop :=
  Statement.IsId e.id ∧ ∀ b, e.bracket = some b → b.Printable

/-- The text of an endpoint. -/
def print (e : Endpoint) : List Char :=
  e.id.toList ++ match e.bracket with
    | some b => b.print
    | none => []

end Endpoint

namespace Statement

theorem head?_print_bracket {b : Bracket} (h : b.Printable) (rest : List Char) :
    ∃ c ∈ bracketHeads, (b.print ++ rest).head? = some c := by
  rcases h with ⟨_, opening, closing, hmarks, _⟩
  rw [Bracket.print, hmarks]
  rcases b with ⟨shape, label⟩
  cases shape <;>
    simp only [Shape.marks?, Option.some.injEq, Prod.mk.injEq, reduceCtorEq] at hmarks <;>
    rcases hmarks with ⟨rfl, rfl⟩ <;> exact ⟨_, by decide, rfl⟩

/-- An id ends where its bracket starts. -/
theorem id?_print {id : String} {b : Bracket} (hid : IsId id) (hb : b.Printable)
    (rest : List Char) : id? (id.toList ++ (b.print ++ rest)) = some (id, b.print ++ rest) := by
  refine (id?_eq_some_iff _ _ id).mpr ⟨rfl, hid, fun c hc => ?_⟩
  rcases head?_print_bracket hb rest with ⟨d, hd, hhead⟩
  rw [hhead, Option.some.injEq] at hc
  rw [← hc]
  simp only [bracketHeads, List.mem_cons, List.not_mem_nil, or_false] at hd
  rcases hd with rfl | rfl | rfl <;> rfl

/-- An endpoint is read as it was written. -/
theorem endpoint?_print {e : Endpoint} (h : e.Printable) {rest : List Char}
    (hrest : EndsEndpoint rest) : endpoint? (e.print ++ rest) = some (e, rest) := by
  rcases e with ⟨id, bracket⟩
  rcases h with ⟨hid, hbracket⟩
  cases bracket with
  | none =>
      have hread : id? (id.toList ++ rest) = some (id, rest) :=
        (id?_eq_some_iff _ rest id).mpr ⟨rfl, hid, fun c hc => (hrest c hc).1⟩
      -- What follows an id that stands alone starts no bracket.
      have hnone : bracket? rest = none := bracket?_eq_none fun c hc => (hrest c hc).2
      simp only [Endpoint.print, List.append_nil, endpoint?, hread, hnone, Option.bind_eq_bind,
        Option.bind_some, Option.pure_def]
  | some b =>
      have hb : b.Printable := hbracket b rfl
      have hread := id?_print hid hb rest
      simp only [Endpoint.print, List.append_assoc, endpoint?, hread, bracket?_print hb,
        Option.bind_eq_bind, Option.bind_some, Option.pure_def]

/-- What was read as an endpoint can be written as one. -/
theorem printable_of_endpoint? {cs rest : List Char} {e : Endpoint}
    (h : endpoint? cs = some (e, rest)) : e.Printable := by
  simp only [endpoint?, Option.bind_eq_bind, Option.bind_eq_some_iff] at h
  rcases h with ⟨⟨id, tail⟩, hid, hread⟩
  have hword := ((id?_eq_some_iff cs tail id).mp hid).2.1
  cases hbracket : bracket? tail with
  | none =>
      rw [hbracket] at hread
      simp only [Option.pure_def, Option.some.injEq, Prod.mk.injEq] at hread
      rcases hread with ⟨rfl, _⟩
      exact ⟨hword, fun b hb => absurd hb (by simp only [reduceCtorEq, not_false_eq_true])⟩
  | some found =>
      rw [hbracket] at hread
      simp only [Option.pure_def, Option.some.injEq, Prod.mk.injEq] at hread
      rcases hread with ⟨rfl, _⟩
      refine ⟨hword, fun b hb => ?_⟩
      rw [← Option.some.inj hb]
      exact printable_of_bracket? hbracket

end Statement

end Flowchart
