import Flowchart.Json.Field
import Flowchart.Proofs.Json.Token

/-!
# Values Read Back

The text of a value gives the value back. Printer and reader have little in
common: one goes down the value and indents as it goes, the other first cuts
the whole text into tokens and then puts these together on a stack. They meet
in the tokens of a value, so that the blanks are dealt with on one side and the
stack on the other.

`Lexes` says which tokens a text is cut into. It is closed under putting one
more blank or one more token in front, and a printed text is built up from its
end in just these steps. What the reader does with the tokens of a value does
not depend on what it was building: the value is complete, and goes where the
innermost open array or object wants it.

## Main definitions

* `Json.Legible`: A value that can be read from its text.
* `Json.tokens`: The tokens of a value.
* `Json.Lexes`: A text is cut into tokens.
* `Json.ReadsBack`: The text of a single is read as the same single.

## Theorems

* `tokensFrom_of_lexes`: The reader cuts a text as `Lexes` says.
* `lexes_prettyAt`: The text of a value is cut into the tokens of the value.
* `completes`: The tokens of a value put the value together.
* `parse?_of_lexes`: So a text is read as the value whose tokens it is cut into.
* `parse?_pretty`: A value is read back from its text.
* `ReadsBack.legible`: A single that reads back is written legibly.
-/

namespace Flowchart

namespace Json

/-- A value that can be read from its text: numbers are legible, and strings
    denote texts. -/
inductive Legible : Json → Prop where
  | null : Legible .null
  | bool (b : Bool) : Legible (.bool b)
  | number {n : Number} (h : n.Legible) : Legible (.number n)
  | string (s : String) : Legible (.string (some s))
  | array {items : List Json} (h : ∀ item ∈ items, Legible item) : Legible (.array items)
  | object {members : List (Option String × Json)}
      (hkeys : ∀ m ∈ members, m.1.isSome = true) (hvalues : ∀ m ∈ members, Legible m.2) :
      Legible (.object members)

mutual

/-- The tokens of a value. -/
def tokens : Json → List Token
  | .null => [.null]
  | .bool b => [.bool b]
  | .number n => [.number n]
  | .string text => [.string text]
  | .array [] => [.openArray, .closeArray]
  | .array (item :: items) => .openArray :: (tokens item ++ laterItems items ++ [.closeArray])
  | .object [] => [.openObject, .closeObject]
  | .object (m :: ms) => .openObject :: (memberTokens m ++ laterMembers ms ++ [.closeObject])

/-- The tokens of the items after the first. -/
def laterItems : List Json → List Token
  | [] => []
  | item :: items => .comma :: (tokens item ++ laterItems items)

/-- The tokens of the members after the first. -/
def laterMembers : List (Option String × Json) → List Token
  | [] => []
  | m :: ms => .comma :: (memberTokens m ++ laterMembers ms)

/-- The tokens of a member. -/
def memberTokens : Option String × Json → List Token
  | (key, value) => .string key :: .colon :: tokens value

end

/-! ## Cutting a text -/

/-- A text is cut into tokens. -/
inductive Lexes : List Char → List Token → Prop where
  | nil : Lexes [] []
  | blank {c : Char} {cs : List Char} {ts : List Token} :
      isBlank c = true → Lexes cs ts → Lexes (c :: cs) ts
  | token {c : Char} {text rest : List Char} {t : Token} {ts : List Token} :
      isBlank c = false → token? (c :: text ++ rest) = some (t, rest) → Lexes rest ts →
      Lexes (c :: text ++ rest) (t :: ts)

theorem tokensFrom_of_lexes {cs : List Char} {ts : List Token} (h : Lexes cs ts) :
    ∀ fuel done, cs.length < fuel → tokensFrom fuel done cs = some (done.reverse ++ ts) := by
  induction h with
  | nil =>
      intro fuel done hfuel
      cases fuel with
      | zero => cases hfuel
      | succ fuel => rw [tokensFrom, List.dropWhile_nil, List.append_nil]
  | @blank c cs ts hblank _ ih =>
      intro fuel done hfuel
      cases fuel with
      | zero => cases hfuel
      | succ fuel =>
          -- A blank costs no fuel, since all of them are dropped at once.
          have hrest := ih (fuel + 1) done (Nat.lt_of_succ_lt hfuel)
          rw [tokensFrom] at hrest ⊢
          rw [List.dropWhile_cons_of_pos hblank]
          exact hrest
  | @token c text rest t ts hblank hread _ ih =>
      intro fuel done hfuel
      cases fuel with
      | zero => cases hfuel
      | succ fuel =>
          -- A token costs one unit of fuel and takes one character at least.
          have hshort : rest.length < fuel := by
            simp only [List.cons_append, List.length_cons, List.length_append] at hfuel
            omega
          have hrest := ih fuel (t :: done) hshort
          have hnot : ¬isBlank c = true := by rw [hblank]; exact Bool.false_ne_true
          rw [List.cons_append] at hread ⊢
          rw [tokensFrom, List.dropWhile_cons_of_neg hnot]
          dsimp only
          rw [hread]
          dsimp only
          rw [hrest, List.reverse_cons, List.append_assoc]
          rfl

/-- What a number starts with is no blank. -/
theorem isBlank_eq_false {c : Char} (hc : c = '-' ∨ c.isDigit = true) : isBlank c = false := by
  cases hblank : isBlank c with
  | false => rfl
  | true =>
      simp only [isBlank, Bool.or_eq_true, beq_iff_eq] at hblank
      rcases hblank with ((rfl | rfl) | rfl) | rfl <;> exact absurd hc (by decide)

namespace Lexes

variable {rest : List Char} {ts : List Token}

theorem newLine (level : Nat) (h : Lexes rest ts) : Lexes (Json.newLine level ++ rest) ts := by
  have hspaces : ∀ k, Lexes (List.replicate k ' ' ++ rest) ts := by
    intro k
    induction k with
    | zero => exact h
    | succ k ih => exact .blank (by decide) ih
  exact .blank (by decide) (hspaces (2 * level))

/-- A bracket, a comma or a colon is a token, whatever follows it. -/
theorem mark {c : Char} {t : Token} (hblank : isBlank c = false)
    (hread : ∀ cs, token? (c :: cs) = some (t, cs)) (h : Lexes rest ts) :
    Lexes (c :: rest) (t :: ts) :=
  @Lexes.token c [] rest t ts hblank (hread rest) h

theorem quote (s : String) (h : Lexes rest ts) :
    Lexes (Json.quote s ++ rest) (.string (some s) :: ts) :=
  .token (by decide) (token?_quote s rest) h

theorem number {n : Number} (hn : n.Legible) (hends : EndsNumber rest) (h : Lexes rest ts) :
    Lexes (n.text ++ rest) (.number n :: ts) := by
  have hread := number?_text hn hends
  rw [← token?_text hn.toDigital] at hread
  rcases exists_text_eq_cons hn.toDigital with ⟨c, cs, htext, hc⟩
  rw [htext] at hread ⊢
  exact .token (isBlank_eq_false hc) hread h

end Lexes

/-! ## The tokens of a value -/

theorem endsNumber_newLine (level : Nat) (rest : List Char) :
    EndsNumber (newLine level ++ rest) := by
  intro c hc
  rw [← Option.some.inj hc]
  decide

theorem endsNumber_nil : EndsNumber [] := fun _ hc => nomatch hc

theorem endsNumber_comma (rest : List Char) : EndsNumber (',' :: rest) := by
  intro c hc
  rw [← Option.some.inj hc]
  decide

/-- The text of a value is cut into the tokens of the value, if what follows
    does not continue a number. -/
def CutsInto (v : Json) : Prop :=
  ∀ (level : Nat) (rest : List Char) (ts : List Token), EndsNumber rest → Lexes rest ts →
    Lexes (prettyAt level v ++ rest) (tokens v ++ ts)

theorem lexes_prettyItems (level : Nat) {items : List Json} (hitems : ∀ item ∈ items, CutsInto item)
    {rest : List Char} {ts : List Token} (hends : EndsNumber rest) (h : Lexes rest ts) :
    Lexes (prettyItems level items ++ rest) (laterItems items ++ ts) ∧
      EndsNumber (prettyItems level items ++ rest) := by
  induction items with
  | nil => exact ⟨h, hends⟩
  | cons item items ih =>
      rcases ih (fun x hx => hitems x (List.mem_cons_of_mem item hx)) with ⟨hlater, hlaterEnds⟩
      have hitem := hitems item List.mem_cons_self level _ _ hlaterEnds hlater
      rw [prettyItems, laterItems, List.cons_append, List.cons_append, List.append_assoc,
        List.append_assoc, List.append_assoc]
      exact ⟨.mark (by decide) (fun _ => rfl) (.newLine level hitem), endsNumber_comma _⟩

theorem lexes_prettyMember (level : Nat) {m : Option String × Json} (hkey : m.1.isSome = true)
    (hvalue : CutsInto m.2) {rest : List Char} {ts : List Token} (hends : EndsNumber rest)
    (h : Lexes rest ts) : Lexes (prettyMember level m ++ rest) (memberTokens m ++ ts) := by
  rcases m with ⟨key, value⟩
  rcases Option.isSome_iff_exists.mp hkey with ⟨k, rfl⟩
  have hv := hvalue level rest ts hends h
  rw [prettyMember, memberTokens, List.append_assoc, List.append_assoc]
  exact .quote k (.mark (by decide) (fun _ => rfl) (.blank (by decide) hv))

theorem lexes_prettyMembers (level : Nat) {ms : List (Option String × Json)}
    (hkeys : ∀ m ∈ ms, m.1.isSome = true) (hvalues : ∀ m ∈ ms, CutsInto m.2)
    {rest : List Char} {ts : List Token} (hends : EndsNumber rest) (h : Lexes rest ts) :
    Lexes (prettyMembers level ms ++ rest) (laterMembers ms ++ ts) ∧
      EndsNumber (prettyMembers level ms ++ rest) := by
  induction ms with
  | nil => exact ⟨h, hends⟩
  | cons m ms ih =>
      rcases ih (fun x hx => hkeys x (List.mem_cons_of_mem m hx))
        (fun x hx => hvalues x (List.mem_cons_of_mem m hx)) with ⟨hlater, hlaterEnds⟩
      have hm := lexes_prettyMember level (hkeys m List.mem_cons_self)
        (hvalues m List.mem_cons_self) hlaterEnds hlater
      rw [prettyMembers, laterMembers, List.cons_append, List.cons_append, List.append_assoc,
        List.append_assoc, List.append_assoc]
      exact ⟨.mark (by decide) (fun _ => rfl) (.newLine level hm), endsNumber_comma _⟩

/-- The text of a value is cut into the tokens of the value. -/
theorem lexes_prettyAt {v : Json} (hv : v.Legible) : CutsInto v := by
  induction hv with
  | null =>
      intro level rest ts _ h
      exact @Lexes.token 'n' "ull".toList rest .null ts (by decide) rfl h
  | bool b =>
      intro level rest ts _ h
      cases b with
      | true => exact @Lexes.token 't' "rue".toList rest (.bool true) ts (by decide) rfl h
      | false => exact @Lexes.token 'f' "alse".toList rest (.bool false) ts (by decide) rfl h
  | number hn =>
      intro level rest ts hends h
      rw [prettyAt, tokens]
      exact .number hn hends h
  | string s =>
      intro level rest ts _ h
      rw [prettyAt, tokens]
      exact .quote s h
  | @array items _ ih =>
      intro level rest ts _ h
      cases items with
      | nil =>
          rw [prettyAt, tokens]
          exact .mark (by decide) (fun _ => rfl) (.mark (by decide) (fun _ => rfl) h)
      | cons item items =>
          -- The text is followed from its end, so that each item finds what ends it.
          have hclose : Lexes (newLine level ++ (']' :: rest)) (.closeArray :: ts) :=
            .newLine level (.mark (by decide) (fun _ => rfl) h)
          rcases lexes_prettyItems (level + 1) (fun x hx => ih x (List.mem_cons_of_mem item hx))
            (endsNumber_newLine level _) hclose with ⟨hlater, hends⟩
          have hitem := ih item List.mem_cons_self (level + 1) _ _ hends hlater
          have hall := Lexes.mark (c := '[') (t := .openArray) (by decide) (fun _ => rfl)
            (.newLine (level + 1) hitem)
          rw [prettyAt, tokens]
          simp only [List.cons_append, List.append_assoc, List.nil_append]
          exact hall
  | @object members hkeys _ ih =>
      intro level rest ts _ h
      cases members with
      | nil =>
          rw [prettyAt, tokens]
          exact .mark (by decide) (fun _ => rfl) (.mark (by decide) (fun _ => rfl) h)
      | cons m ms =>
          have hclose : Lexes (newLine level ++ ('\x7d' :: rest)) (.closeObject :: ts) :=
            .newLine level (.mark (by decide) (fun _ => rfl) h)
          -- The members are followed in the same way, from the closing brace.
          rcases lexes_prettyMembers (level + 1) (fun x hx => hkeys x (List.mem_cons_of_mem m hx))
            (fun x hx => ih x (List.mem_cons_of_mem m hx)) (endsNumber_newLine level _) hclose with
            ⟨hlater, hends⟩
          have hm := lexes_prettyMember (level + 1) (hkeys m List.mem_cons_self)
            (ih m List.mem_cons_self) hends hlater
          have hall := Lexes.mark (c := '\x7b') (t := .openObject) (by decide) (fun _ => rfl)
            (.newLine (level + 1) hm)
          rw [prettyAt, tokens]
          simp only [List.cons_append, List.append_assoc, List.nil_append]
          exact hall

/-! ## Putting a value together -/

namespace Builder

/-- The tokens of a value complete it wherever a value may come next. -/
def Completes (v : Json) : Prop :=
  ∀ (stack : List Frame) (ts : List Token),
    (tokens v ++ ts).foldlM step? ⟨stack, .value⟩ = ts.foldlM step? (complete stack v) ∧
      (tokens v ++ ts).foldlM step? ⟨stack, .valueOrClose⟩ = ts.foldlM step? (complete stack v)

/-- A token that is a value by itself completes it. -/
theorem completes_of_single {v : Json} {t : Token} (htokens : tokens v = [t])
    (hvalue : ∀ stack, value? stack t = some (complete stack v)) (hclose : t ≠ .closeArray) :
    Completes v := by
  intro stack ts
  have hfirst : step? ⟨stack, .value⟩ t = some (complete stack v) := hvalue stack
  have hfirst' : step? ⟨stack, .valueOrClose⟩ t = some (complete stack v) := by
    -- Only the end of an array is treated apart here.
    cases t with
    | closeArray => exact absurd rfl hclose
    | _ => exact hvalue stack
  rw [htokens, List.singleton_append, List.foldlM_cons, List.foldlM_cons, hfirst, hfirst']
  exact ⟨rfl, rfl⟩

/-- The items after the first are added to the innermost array. -/
theorem foldlM_laterItems {items : List Json} (hitems : ∀ item ∈ items, Completes item)
    (done : List Json) (stack : List Frame) (ts : List Token) :
    (laterItems items ++ ts).foldlM step? ⟨.array done :: stack, .commaOrClose⟩ =
      ts.foldlM step? ⟨.array (items.reverse ++ done) :: stack, .commaOrClose⟩ := by
  induction items generalizing done with
  | nil => rfl
  | cons item items ih =>
      have hitem :=
        (hitems item List.mem_cons_self (.array done :: stack) (laterItems items ++ ts)).1
      have hlater := ih (fun x hx => hitems x (List.mem_cons_of_mem item hx)) (item :: done)
      rw [laterItems, List.cons_append, List.append_assoc, List.foldlM_cons]
      -- The comma asks for a value, and the value joins the array.
      have hcomma : step? ⟨.array done :: stack, .commaOrClose⟩ .comma =
          some ⟨.array done :: stack, .value⟩ := rfl
      rw [hcomma]
      refine hitem.trans ?_
      rw [List.reverse_cons, List.append_assoc]
      exact hlater

/-- A member is added to the innermost object, whose key it names. -/
theorem foldlM_memberTokens {m : Option String × Json} (hm : Completes m.2)
    (done : List (Option String × Json)) (stack : List Frame) (ts : List Token) :
    (memberTokens m ++ ts).foldlM step? ⟨stack, .key done⟩ =
      ts.foldlM step? ⟨.object (m :: done) none :: stack, .commaOrClose⟩ := by
  rcases m with ⟨key, value⟩
  exact (hm (.object done key :: stack) ts).1

/-- The first member of an object may come where the object may end. -/
theorem foldlM_firstMember (m : Option String × Json) (stack : List Frame) (ts : List Token) :
    (memberTokens m ++ ts).foldlM step? ⟨stack, .keyOrClose⟩ =
      (memberTokens m ++ ts).foldlM step? ⟨stack, .key []⟩ := by
  rcases m with ⟨key, value⟩
  rfl

theorem foldlM_laterMembers {ms : List (Option String × Json)} (hms : ∀ m ∈ ms, Completes m.2)
    (done : List (Option String × Json)) (stack : List Frame) (ts : List Token) :
    (laterMembers ms ++ ts).foldlM step? ⟨.object done none :: stack, .commaOrClose⟩ =
      ts.foldlM step? ⟨.object (ms.reverse ++ done) none :: stack, .commaOrClose⟩ := by
  induction ms generalizing done with
  | nil => rfl
  | cons m ms ih =>
      have hm := foldlM_memberTokens (hms m List.mem_cons_self) done stack (laterMembers ms ++ ts)
      have hlater := ih (fun x hx => hms x (List.mem_cons_of_mem m hx)) (m :: done)
      rw [laterMembers, List.cons_append, List.append_assoc, List.foldlM_cons]
      -- As above, but behind the comma a name comes first.
      have hcomma : step? ⟨.object done none :: stack, .commaOrClose⟩ .comma =
          some ⟨stack, .key done⟩ := rfl
      rw [hcomma]
      refine hm.trans ?_
      rw [List.reverse_cons, List.append_assoc]
      exact hlater

/-- The tokens of a value put the value together. -/
theorem completes {v : Json} (hv : v.Legible) : Completes v := by
  induction hv with
  | null => exact completes_of_single rfl (fun _ => rfl) nofun
  | bool b => exact completes_of_single rfl (fun _ => rfl) nofun
  | number hn => exact completes_of_single rfl (fun _ => rfl) nofun
  | string s => exact completes_of_single rfl (fun _ => rfl) nofun
  | @array items _ ih =>
      intro stack ts
      cases items with
      | nil => exact ⟨rfl, rfl⟩
      | cons item items =>
          -- The array waits on the stack until its items are complete.
          have hitem := (ih item List.mem_cons_self (.array [] :: stack)
            (laterItems items ++ (.closeArray :: ts))).2
          have hlater := foldlM_laterItems (fun x hx => ih x (List.mem_cons_of_mem item hx)) [item]
            stack (.closeArray :: ts)
          have hclose : (Token.closeArray :: ts).foldlM step?
              ⟨.array (items.reverse ++ [item]) :: stack, .commaOrClose⟩ =
              ts.foldlM step? (complete stack (.array (item :: items))) := by
            have hreverse : (items.reverse ++ [item]).reverse = item :: items := by
              rw [← List.reverse_cons, List.reverse_reverse]
            rw [List.foldlM_cons, ← hreverse]
            rfl
          have hall := (hitem.trans hlater).trans hclose
          rw [tokens]
          simp only [List.cons_append, List.append_assoc, List.nil_append, List.foldlM_cons]
          exact ⟨hall, hall⟩
  | @object members _ _ ih =>
      intro stack ts
      cases members with
      | nil => exact ⟨rfl, rfl⟩
      | cons m ms =>
          -- The object waits on the stack as well, with the members that it has so far.
          have hm := foldlM_memberTokens (ih m List.mem_cons_self) [] stack
            (laterMembers ms ++ (.closeObject :: ts))
          have hlater := foldlM_laterMembers (fun x hx => ih x (List.mem_cons_of_mem m hx)) [m]
            stack (.closeObject :: ts)
          have hclose : (Token.closeObject :: ts).foldlM step?
              ⟨.object (ms.reverse ++ [m]) none :: stack, .commaOrClose⟩ =
              ts.foldlM step? (complete stack (.object (m :: ms))) := by
            have hreverse : (ms.reverse ++ [m]).reverse = m :: ms := by
              rw [← List.reverse_cons, List.reverse_reverse]
            rw [List.foldlM_cons, ← hreverse]
            rfl
          have hfirst := foldlM_firstMember m stack (laterMembers ms ++ (.closeObject :: ts))
          have hall := ((hfirst.trans hm).trans hlater).trans hclose
          rw [tokens]
          simp only [List.cons_append, List.append_assoc, List.nil_append, List.foldlM_cons]
          exact ⟨hall, hall⟩

/-- The tokens of a value are read as the value. -/
theorem build?_tokens {v : Json} (hv : v.Legible) : build? (tokens v) = some v := by
  have h := (completes hv [] []).1
  rw [List.append_nil] at h
  rw [build?, start, h]
  rfl

end Builder

/-- A text that is cut into the tokens of a value is read as the value. -/
theorem parse?_of_lexes {v : Json} (hv : v.Legible) {cs : List Char} (h : Lexes cs (tokens v)) :
    parse? (String.ofList cs) = some v := by
  have htokens : tokens? cs = some (tokens v) :=
    tokensFrom_of_lexes h _ [] (Nat.lt_succ_self _)
  rw [parse?, String.toList_ofList, htokens]
  exact Builder.build?_tokens hv

/-- A value is read back from its text. -/
theorem parse?_pretty {v : Json} (hv : v.Legible) : parse? v.pretty = some v := by
  have h := lexes_prettyAt hv 0 [] [] endsNumber_nil .nil
  rw [List.append_nil, List.append_nil] at h
  exact parse?_of_lexes hv h

/-! ## Singles -/

/-- The text of a single is read as the same single. -/
def ReadsBack (x : Float32) : Prop := (parse? (ofSingle x).pretty).bind single? = some x

instance (x : Float32) : Decidable (ReadsBack x) := inferInstanceAs (Decidable (_ = _))

/-- A text that starts with no token is no value. -/
theorem parse?_eq_none_of_token? {c : Char} {cs : List Char} (hblank : isBlank c = false)
    (hnone : token? (c :: cs) = none) : parse? (String.ofList (c :: cs)) = none := by
  have hnot : ¬isBlank c = true := by rw [hblank]; exact Bool.false_ne_true
  have htokens : tokens? (c :: cs) = none := by
    rw [tokens?, tokensFrom, List.dropWhile_cons_of_neg hnot]
    dsimp only
    rw [hnone]
  rw [parse?, String.toList_ofList, htokens]
  rfl

/-- A single that reads back is written legibly, because a number with a
    needless zero would be read as nothing at all. -/
theorem ReadsBack.legible {x : Float32} (h : ReadsBack x) : (ofSingle x).Legible := by
  unfold ofSingle Number.ofSingle
  by_cases hfinite : x.isFinite = true
  · rw [if_pos hfinite]
    have hn := Number.digital_ofDecimal (.ofSingle .even x)
    refine .number ⟨hn, fun hhead => ?_⟩
    -- A needless zero would keep the text from being read at all.
    by_contra hne
    have hnone := token?_eq_none_of_lead hn hhead hne
    rcases exists_text_eq_cons hn with ⟨c, cs, htext, hc⟩
    have hparse : parse? (ofSingle x).pretty = none := by
      rw [ofSingle, Number.ofSingle, if_pos hfinite]
      dsimp only
      rw [pretty, prettyAt, htext]
      rw [htext] at hnone
      exact parse?_eq_none_of_token? (isBlank_eq_false hc) hnone
    rw [ReadsBack, hparse] at h
    cases h
  · rw [if_neg hfinite]
    exact .null

/-- The value of a single that reads back denotes it. -/
theorem ReadsBack.single? {x : Float32} (h : ReadsBack x) : single? (ofSingle x) = some x := by
  have hx := h
  rw [ReadsBack, parse?_pretty h.legible] at hx
  exact hx

end Json

end Flowchart
