import Flowchart.Json.Printer
import Flowchart.Json.Reader
import Flowchart.Proofs.Text.Run

/-!
# Tokens Read Back

The text of a string or a number is cut out of a longer text exactly, and gives
back what it was written from. A string ends with its quote, and whatever
follows does not matter. A number has no end of its own: it is read as far as
it goes on, so what follows must not continue it.

Not every number is one that can be read. The digits before the point may not
start with a zero unless it stands alone, and `Number.Legible` asks for that
besides digits. What is written for a single has digits in the right places.
Whether it has a needless zero is a matter of the search for the shortest
digits, which is not looked into here: a text with one is no token at all, and
so a number that is known to read back has none.

## Main definitions

* `Json.EndsNumber`: What follows a number does not continue it.
* `Json.Number.Digital`: A number whose digits are digits.
* `Json.Number.Legible`: A number that can be read from its text.

## Theorems

* `stringBody_escape`: An escaped character is read as itself.
* `token?_quote`: A string is read back, whatever follows it.
* `number?_text`: A number is read back, if what follows does not continue it.
* `token?_eq_none_of_lead`: A number with a needless zero is no token.
* `digital_ofDecimal`: A decimal is written with digits.
-/

namespace Flowchart

/-- The digits of a number spell it. -/
theorem Decimal.ofDigits_digitText (n : Nat) : ofDigits (digitText n) = n :=
  Nat.ofDigitChars_toDigits (by decide) (by decide)

theorem Decimal.isDigit_of_mem_digitText {n : Nat} {c : Char} (h : c ∈ digitText n) :
    c.isDigit = true :=
  Nat.isDigit_of_mem_toDigits (by decide) (by decide) h

theorem Decimal.digitText_ne_nil (n : Nat) : digitText n ≠ [] := Nat.toDigits_ne_nil

namespace Json

/-! ## Strings -/

/-- A control character is spelled by its two hexadecimal digits. -/
theorem hex4?_hexDigit :
    ∀ n < 0x20, hex4? '0' '0' (hexDigit (n / 16)) (hexDigit (n % 16)) = some n := by
  decide

/-- A character that needs no escape is read as itself. -/
theorem stringBody_plain (points : List Nat) {c : Char} (rest : List Char) (hquote : c ≠ '"')
    (hslash : c ≠ '\\') (hcontrol : ¬c.toNat < 0x20) :
    stringBody points (c :: rest) = stringBody (c.toNat :: points) rest := by
  rw [stringBody.eq_def]
  split
  · rename_i heq
    cases heq
  · rename_i heq
    exact absurd (List.cons.inj heq).1 hquote
  · rename_i heq
    exact absurd (List.cons.inj heq).1 hslash
  · rename_i heq
    exact absurd (List.cons.inj heq).1 hslash
  · rename_i heq
    rw [← (List.cons.inj heq).1, ← (List.cons.inj heq).2, if_neg hcontrol]

/-- An escaped character is read as itself. -/
theorem stringBody_escape (points : List Nat) (c : Char) (rest : List Char) :
    stringBody points (escape c ++ rest) = stringBody (c.toNat :: points) rest := by
  unfold escape
  split
  · rfl
  · rfl
  · rfl
  · rfl
  · rfl
  · rfl
  · rfl
  · rename_i hquote hslash _ _ _ _ _
    -- Of all other characters only control characters are escaped, by their codes.
    by_cases hcontrol : c.toNat < 0x20
    · rw [if_pos hcontrol]
      have hhex := hex4?_hexDigit c.toNat hcontrol
      simp only [List.cons_append, List.nil_append, stringBody, hhex]
    · rw [if_neg hcontrol]
      exact stringBody_plain points rest hquote hslash hcontrol

theorem stringBody_flatMap_escape (points : List Nat) (cs rest : List Char) :
    stringBody points (cs.flatMap escape ++ '"' :: rest) =
      some (points.reverse ++ cs.map Char.toNat, rest) := by
  induction cs generalizing points with
  | nil => simp only [List.flatMap_nil, List.nil_append, stringBody, List.map_nil, List.append_nil]
  | cons c cs ih =>
      rw [List.flatMap_cons, List.append_assoc, stringBody_escape, ih, List.reverse_cons,
        List.append_assoc, List.map_cons]
      rfl

/-- A character is no half of a surrogate pair. -/
theorem not_half (c : Char) : isHighHalf c.toNat = false ∧ isLowHalf c.toNat = false := by
  have hvalid : c.toNat < 55296 ∨ 57343 < c.toNat ∧ c.toNat < 1114112 := c.valid
  simp only [isHighHalf, isLowHalf, Bool.and_eq_false_iff, decide_eq_false_iff_not]
  omega

/-- Characters are put together as they are. -/
theorem joinHalves_map_toNat (done cs : List Char) :
    joinHalves done (cs.map Char.toNat) = some (done.reverse ++ cs) := by
  induction cs generalizing done with
  | nil => rw [List.map_nil, joinHalves, List.append_nil]
  | cons c cs ih =>
      have hhalf := not_half c
      -- Two codes at a time are looked at, in case they are halves of one.
      cases cs with
      | nil =>
          simp only [List.map_cons, List.map_nil, joinHalves, hhalf.1, hhalf.2, Bool.or_self,
            Bool.false_eq_true, if_false, Char.ofNat_toNat, List.reverse_cons]
      | cons d ds =>
          have hnext := ih (c :: done)
          rw [List.map_cons] at hnext
          simp only [List.map_cons, joinHalves, hhalf.1, hhalf.2, Bool.false_eq_true, if_false,
            Char.ofNat_toNat, hnext, List.reverse_cons, List.append_assoc, List.cons_append,
            List.nil_append]

/-- A string is read back, whatever follows it. -/
theorem token?_quote (s : String) (rest : List Char) :
    token? (quote s ++ rest) = some (.string (some s), rest) := by
  have hbody := stringBody_flatMap_escape [] s.toList rest
  have hjoin := joinHalves_map_toNat [] s.toList
  rw [List.reverse_nil, List.nil_append] at hbody hjoin
  simp only [quote, List.cons_append, List.append_assoc, List.nil_append, token?, string?, hbody,
    Option.map_some, hjoin, String.ofList_toList]

/-! ## Numbers -/

/-- What follows a number does not continue it. -/
def EndsNumber (rest : List Char) : Prop :=
  ∀ c, rest.head? = some c → c.isDigit = false ∧ c ≠ '.' ∧ c ≠ 'e' ∧ c ≠ 'E'

namespace Number

/-- The digits of a number are digits, and some stand before the point. -/
structure Digital (n : Number) : Prop where
  whole_ne : n.whole ≠ []
  whole : ∀ c ∈ n.whole, c.isDigit = true
  fraction : ∀ c ∈ n.fraction, c.isDigit = true

/-- A number that can be read: its first zero stands alone. -/
structure Legible (n : Number) : Prop extends Digital n where
  lead : n.whole.head? = some '0' → n.whole = ['0']

/-- The text of a number from its point on. -/
def fractionText (n : Number) : List Char :=
  if n.fraction.isEmpty then [] else '.' :: n.fraction

/-- The text of a number behind its digits. -/
def powerText (n : Number) : List Char :=
  match n.exponent with
  | some e => exponentText e
  | none => []

theorem text_eq (n : Number) :
    n.text =
      (if n.negative then ['-'] else []) ++ (n.whole ++ (n.fractionText ++ n.powerText)) := by
  rw [← List.append_assoc, ← List.append_assoc]
  rfl

end Number

variable {n : Number} {ds rest : List Char}

/-- Digits before a point are read up to where they end. -/
theorem whole?_append (hne : ds ≠ []) (hdigits : ∀ c ∈ ds, c.isDigit = true)
    (hlead : ds.head? = some '0' → ds = ['0'])
    (hstop : ∀ c, rest.head? = some c → c.isDigit = false) :
    whole? (ds ++ rest) = some (ds, rest) := by
  have htake := Text.takeWhile_append_stop hdigits hstop
  have hdrop := Text.dropWhile_append_stop hdigits hstop
  cases ds with
  | nil => exact absurd rfl hne
  | cons d ds =>
      by_cases hd : d = '0'
      · -- A zero stands alone, and no digit follows it.
        rw [hd] at hlead ⊢
        rw [hlead rfl]
        rw [List.cons_append, List.nil_append, whole?]
        have hany : rest.head?.any Char.isDigit = false := by
          cases hrest : rest.head? with
          | none => rfl
          | some c => exact hstop c hrest
        rw [hany]
        rfl
      · unfold whole?
        split
        · rename_i heq
          exact absurd (List.cons.inj heq).1 hd
        · rw [htake, hdrop]
          rfl

theorem fraction?_append (hdigits : ∀ c ∈ n.fraction, c.isDigit = true)
    (hstop : ∀ c, rest.head? = some c → c.isDigit = false ∧ c ≠ '.') :
    fraction? (n.fractionText ++ rest) = some (n.fraction, rest) := by
  have hstop' : ∀ c, rest.head? = some c → c.isDigit = false := fun c hc => (hstop c hc).1
  unfold Number.fractionText
  cases hfraction : n.fraction with
  | nil =>
      rw [List.isEmpty_nil, if_pos rfl, List.nil_append]
      unfold fraction?
      -- What follows the digits is not a point, or there would be a fraction.
      split
      · exact absurd rfl (hstop '.' rfl).2
      · rfl
  | cons d ds =>
      rw [hfraction] at hdigits
      have htake := Text.takeWhile_append_stop hdigits hstop'
      have hdrop := Text.dropWhile_append_stop hdigits hstop'
      rw [List.isEmpty_cons, if_neg Bool.false_ne_true, List.cons_append, fraction?, htake, hdrop]
      rfl

theorem exponent?_append (hends : EndsNumber rest) :
    exponent? (n.powerText ++ rest) = some (n.exponent, rest) := by
  unfold Number.powerText
  cases n.exponent with
  | none =>
      rw [List.nil_append]
      cases rest with
      | nil => rfl
      | cons c cs =>
          rcases hends c rfl with ⟨_, _, he, hE⟩
          rw [exponent?.eq_def]
          exact if_neg (not_or.mpr ⟨he, hE⟩)
  | some e =>
      have hdigits : ∀ c ∈ Decimal.digitText e.natAbs, c.isDigit = true :=
        fun c hc => Decimal.isDigit_of_mem_digitText hc
      have hstop : ∀ c, rest.head? = some c → c.isDigit = false := fun c hc => (hends c hc).1
      have htake := Text.takeWhile_append_stop hdigits hstop
      have hdrop := Text.dropWhile_append_stop hdigits hstop
      have hne : (Decimal.digitText e.natAbs).isEmpty = false := by
        rw [List.isEmpty_eq_false_iff]
        exact Decimal.digitText_ne_nil _
      -- The sign is written in both cases, and read again.
      by_cases hneg : e < 0
      · have hvalue : -(e.natAbs : Int) = e := by omega
        simp only [Number.exponentText, if_pos hneg, List.cons_append, exponent?, true_or, if_true,
          htake, hdrop, hne, Bool.false_eq_true, if_false, Decimal.ofDigits_digitText, hvalue]
      · have hvalue : (e.natAbs : Int) = e := by omega
        simp only [Number.exponentText, if_neg hneg, List.cons_append, exponent?, true_or, if_true,
          htake, hdrop, hne, Bool.false_eq_true, if_false, Decimal.ofDigits_digitText, hvalue]

/-- What stands behind the point of a number, or behind its digits, is no
    digit. -/
theorem stop_powerText (hends : EndsNumber rest) :
    ∀ c, (n.powerText ++ rest).head? = some c → c.isDigit = false ∧ c ≠ '.' := by
  intro c hc
  unfold Number.powerText at hc
  cases hexp : n.exponent with
  | none =>
      rw [hexp] at hc
      exact ⟨(hends c hc).1, (hends c hc).2.1⟩
  | some e =>
      rw [hexp] at hc
      rw [← Option.some.inj hc]
      decide

theorem stop_fractionText (hends : EndsNumber rest) :
    ∀ c, (n.fractionText ++ (n.powerText ++ rest)).head? = some c → c.isDigit = false := by
  intro c hc
  unfold Number.fractionText at hc
  cases hfraction : n.fraction with
  | nil =>
      rw [hfraction] at hc
      exact (stop_powerText hends c hc).1
  | cons d ds =>
      rw [hfraction] at hc
      rw [← Option.some.inj hc]
      decide

/-- A digit is not a minus. -/
theorem ne_minus_of_isDigit {c : Char} (h : c.isDigit = true) : c ≠ '-' := by
  intro hc
  rw [hc] at h
  exact absurd h (by decide)

/-- A number without a minus starts with its digits. -/
theorem number?_of_ne_minus {c : Char} (hc : c ≠ '-') (cs : List Char) :
    number? (c :: cs) = (do
      let (whole, rest) ← whole? (c :: cs)
      let (fraction, rest) ← fraction? rest
      let (exponent, rest) ← exponent? rest
      return (.number ⟨false, whole, fraction, exponent⟩, rest)) := by
  rw [number?]
  intro rest heq
  exact hc (List.cons.inj heq).1

/-- A number is read back, if what follows does not continue it. -/
theorem number?_text (hn : n.Legible) (hends : EndsNumber rest) :
    number? (n.text ++ rest) = some (.number n, rest) := by
  have hwhole := whole?_append hn.whole_ne hn.whole hn.lead (stop_fractionText (n := n) hends)
  have hfraction := fraction?_append hn.fraction (stop_powerText (n := n) hends)
  have hexponent := exponent?_append (n := n) hends
  rcases n with ⟨negative, whole, fraction, exponent⟩
  rw [Number.text_eq]
  -- Without a sign the first digit decides that none is read.
  cases negative with
  | true =>
      simp only [if_true, List.cons_append, List.nil_append, List.append_assoc, number?, hwhole,
        hfraction, hexponent, bind, Option.bind, pure]
  | false =>
      cases whole with
      | nil => exact absurd rfl hn.whole_ne
      | cons d ds =>
          have hd : d ≠ '-' := ne_minus_of_isDigit (hn.whole d List.mem_cons_self)
          rw [List.cons_append] at hwhole
          rw [if_neg Bool.false_ne_true, List.nil_append, List.append_assoc, List.append_assoc,
            List.cons_append, number?_of_ne_minus hd]
          simp only [hwhole, hfraction, hexponent, bind, Option.bind, pure]

/-- A number starts with a digit or a minus. -/
theorem exists_text_eq_cons {n : Number} (hn : n.Digital) :
    ∃ c cs, n.text = c :: cs ∧ (c = '-' ∨ c.isDigit = true) := by
  rw [Number.text_eq]
  cases n.negative with
  | true => exact ⟨'-', _, rfl, Or.inl rfl⟩
  | false =>
      cases hwhole : n.whole with
      | nil => exact absurd hwhole hn.whole_ne
      | cons d ds =>
          refine ⟨d, _, rfl, Or.inr (hn.whole d ?_)⟩
          rw [hwhole]
          exact List.mem_cons_self

/-- The token at the head of a number is a number. -/
theorem token?_text {n : Number} (hn : n.Digital) (rest : List Char) :
    token? (n.text ++ rest) = number? (n.text ++ rest) := by
  rcases exists_text_eq_cons hn with ⟨c, cs, hcs, hc⟩
  rw [hcs, List.cons_append]
  unfold token?
  split <;> first
    | rfl
    | (rename_i heq
       rw [(List.cons.inj heq).1] at hc
       exact absurd hc (by decide))

/-- A number with a zero before its first digit is no token. -/
theorem token?_eq_none_of_lead {n : Number} (hn : n.Digital) (hhead : n.whole.head? = some '0')
    (hne : n.whole ≠ ['0']) : token? n.text = none := by
  have htoken := token?_text hn []
  rw [List.append_nil] at htoken
  rw [htoken, Number.text_eq]
  cases hwhole : n.whole with
  | nil => exact absurd hwhole hn.whole_ne
  | cons c cs =>
      rw [hwhole] at hhead hne
      have hc : c = '0' := Option.some.inj hhead
      rw [hc] at hne ⊢
      cases cs with
      | nil => exact absurd rfl hne
      | cons d ds =>
          have hd : d.isDigit = true := hn.whole d (by
            rw [hwhole]
            exact List.mem_cons_of_mem _ List.mem_cons_self)
          -- Behind a leading zero no digit may follow.
          have hnone : ∀ tail, whole? ('0' :: d :: tail) = none := by
            intro tail
            rw [whole?, List.head?_cons, Option.any_some, hd]
            rfl
          cases n.negative with
          | true =>
              simp only [if_true, List.nil_append, List.cons_append, number?, hnone, bind,
                Option.bind]
          | false =>
              rw [if_neg Bool.false_ne_true, List.nil_append, List.cons_append, List.cons_append,
                number?_of_ne_minus (by decide), hnone]
              rfl

/-! ## What is written for a single -/

namespace Number

/-- Padding digits with zeros gives digits. -/
theorem isDigit_of_mem_replicate {k : Nat} {c : Char} (h : c ∈ List.replicate k '0') :
    c.isDigit = true := by
  rw [List.eq_of_mem_replicate h]
  decide

theorem digital_split (d : Decimal) :
    d.split.1 ≠ [] ∧ (∀ c ∈ d.split.1, c.isDigit = true) ∧ ∀ c ∈ d.split.2, c.isDigit = true := by
  have hdigit : ∀ c ∈ Decimal.digitText d.digits, c.isDigit = true :=
    fun c hc => Decimal.isDigit_of_mem_digitText hc
  unfold Decimal.split
  dsimp only
  -- The point stands before all digits, or behind some of them.
  split
  · refine ⟨List.cons_ne_nil _ _, ?_, ?_⟩
    · intro c hc
      rw [List.mem_singleton.mp hc]
      decide
    · intro c hc
      rcases List.mem_append.mp hc with hc | hc
      · exact isDigit_of_mem_replicate hc
      · exact hdigit c hc
  · rename_i hpoint
    have hpadded : ∀ c ∈ Decimal.digitText d.digits ++ List.replicate d.exponent.toNat '0',
        c.isDigit = true := by
      intro c hc
      rcases List.mem_append.mp hc with hc | hc
      · exact hdigit c hc
      · exact isDigit_of_mem_replicate hc
    refine ⟨?_, fun c hc => hpadded c (List.mem_of_mem_take hc),
      fun c hc => hpadded c (List.mem_of_mem_drop hc)⟩
    intro hnil
    rcases List.take_eq_nil_iff.mp hnil with hzero | hempty
    · exact hpoint (Int.toNat_eq_zero.mp hzero)
    · exact Decimal.digitText_ne_nil _ (List.append_eq_nil_iff.mp hempty).1

/-- A decimal is written with digits. -/
theorem digital_ofDecimal (d : Decimal) : (ofDecimal d).Digital := by
  have hdigit : ∀ c ∈ Decimal.digitText d.digits, c.isDigit = true :=
    fun c hc => Decimal.isDigit_of_mem_digitText hc
  -- A number of moderate size is written out, and any other one with an exponent.
  rcases digital_split d with ⟨hne, hwhole, hfraction⟩
  unfold ofDecimal
  dsimp only
  split
  · refine ⟨hne, hwhole, ?_⟩
    intro c hc
    dsimp only at hc
    split at hc
    · rw [List.mem_singleton.mp hc]
      decide
    · exact hfraction c hc
  · refine ⟨?_, fun c hc => hdigit c (List.mem_of_mem_take hc),
      fun c hc => hdigit c (List.mem_of_mem_drop hc)⟩
    intro hnil
    rcases List.take_eq_nil_iff.mp hnil with hzero | hempty
    · cases hzero
    · exact Decimal.digitText_ne_nil _ hempty

end Number

end Json

end Flowchart
