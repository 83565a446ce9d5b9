import Flowchart.Proofs.Engine.Numbering
import Flowchart.Proofs.Row

/-!
# One Pass Numbers the Boxes

`Numbering.ofLinks` says what a numbering is: links that do not count and links
that are repeated are struck out, and the boxes are read off the rest. It is
found in one pass over the links, which keeps a roll. The roll holds the number
of each box, the boxes in the order of their numbers, and the links that were
seen. A link is passed over for one of three reasons, and where it is not, each
of its ends may or may not have a number already.

The three are held together by one fact: the number of a box is its place among
the members, so a box that comes later changes none of the numbers that were
handed out before. `Numbered` says so for boxes that are named one after the
other and `Follows` for the links that name them. A step of the pass keeps the
first, a link keeps the second, and so does the whole pass.

How a number is written is left open. Numbers are handed out and copied and
nothing is ever asked of them, so a pass that writes them in 32 bits gives the
numbers of one that writes them out, each in 32 bits (`ofLinks?_map`).

## Main definitions

* `Roll`: What a pass over the links has written down.
* `Roll.ofLinks?`: The pass.
* `Roll.ends?`: The way back from an arc to the boxes at its ends.
* `Numbering.Tied`: A link ties a box to another.

## Theorems

* `Roll.ofLinks?_map`: How numbers are written makes no difference.
* `Numbering.pairwise_layered`: The links that take part keep their order.
* `Roll.Numbered.exists_number?`: Naming one more box keeps a roll in order.
* `Roll.Follows.exists_enter?`: One more link is followed.
* `Roll.Follows.exists_foldlM`: All links are followed.
* `Roll.Follows.ofLinks_eq`: What the pass finds is the numbering.
* `Roll.Follows.exists_arc_iff`: The ends of arcs leave no number out.
* `Roll.Follows.map_ends?`: Every arc leads back to its link.
* `numbering_dense_and_reversible`: A pass numbers the boxes that are tied to
  others, leaves no number out, and can be read back.
-/

namespace Flowchart

namespace Engine

/-- What a pass over the links has written down. -/
structure Roll (ν : Type) where
  /-- The number of each box, where it has one. -/
  numbers : Array (Option ν)
  /-- The boxes that have one, in the order of their numbers. -/
  members : List Nat
  /-- The links that were entered. -/
  seen : List Ends
  /-- The numbers at the ends of these links. -/
  arcs : List (ν × ν)
deriving DecidableEq, Repr

namespace Roll

variable {ν μ : Type}

/-- The roll of a number of boxes before the first link. -/
def blank (count : Nat) : Roll ν := ⟨Array.replicate count none, [], [], []⟩

/-- The roll after a box was given a number. -/
def enrol (roll : Roll ν) (place : Nat) (n : ν) : Roll ν :=
  { roll with
    numbers := roll.numbers.setIfInBounds place (some n)
    members := roll.members ++ [place] }

/-- The roll after a link was seen. -/
def note (roll : Roll ν) (link : Ends) : Roll ν :=
  { roll with seen := roll.seen ++ [link] }

/-- The roll after an arc was drawn. -/
def connect (roll : Roll ν) (source target : ν) : Roll ν :=
  { roll with arcs := roll.arcs ++ [(source, target)] }

/-- The number of the box at a place. If it has none yet, it is given the next
    one. There is no answer where there is no box. -/
def number? (write : Nat → ν) (roll : Roll ν) (place : Nat) : Option (ν × Roll ν) :=
  match roll.numbers[place]? with
  | none => none
  | some (some n) => some (n, roll)
  | some none =>
      let n := write roll.members.length
      some (n, roll.enrol place n)

/-- The roll after a link. It is passed over if it leads from a box to itself, if
    one of its ends is fixed, or if it was entered before. -/
def enter? (write : Nat → ν) (isFixed : Nat → Bool) (roll : Roll ν) (link : Ends) :
    Option (Roll ν) :=
  if link.1 == link.2 || isFixed link.1 || isFixed link.2 then some roll
  else if link ∈ roll.seen then some roll
  else do
    let (source, roll) ← (roll.note link).number? write link.1
    let (target, roll) ← roll.number? write link.2
    return roll.connect source target

/-- The roll after all links, or nothing if a link that counts ends where no box
    is. -/
def ofLinks? (write : Nat → ν) (isFixed : Nat → Bool) (count : Nat) (links : List Ends) :
    Option (Roll ν) :=
  links.foldlM (enter? write isFixed) (blank count)

/-- The boxes at both ends of an arc. -/
def ends? (roll : Roll Nat) (arc : Nat × Nat) : Option Ends := do
  return (← roll.members[arc.1]?, ← roll.members[arc.2]?)

/-- A roll with every number written in another way. -/
def map (f : ν → μ) (roll : Roll ν) : Roll μ :=
  ⟨roll.numbers.map (Option.map f), roll.members, roll.seen,
    roll.arcs.map fun (source, target) => (f source, f target)⟩

/-! ## How numbers are written -/

theorem map_blank (f : ν → μ) (count : Nat) : (blank count).map f = blank count := by
  simp [map, blank]

theorem map_enrol (f : ν → μ) (roll : Roll ν) (place : Nat) (n : ν) :
    (roll.enrol place n).map f = (roll.map f).enrol place (f n) := by
  simp [map, enrol, Array.map_setIfInBounds]

theorem map_connect (f : ν → μ) (roll : Roll ν) (source target : ν) :
    (roll.connect source target).map f = (roll.map f).connect (f source) (f target) := by
  simp [map, connect]

theorem number?_map (f : ν → μ) (write : Nat → ν) (roll : Roll ν) (place : Nat) :
    (roll.map f).number? (f ∘ write) place =
      (roll.number? write place).map fun (n, roll) => (f n, roll.map f) := by
  have hnumbers : (roll.map f).numbers[place]? = roll.numbers[place]?.map (Option.map f) :=
    Array.getElem?_map
  unfold number?
  rw [hnumbers]
  rcases roll.numbers[place]? with _ | _ | n
  · rfl
  · -- The next number is the same one, since it is read off the members.
    exact congrArg some (Prod.ext rfl (map_enrol f roll place _).symm)
  · rfl

theorem enter?_map (f : ν → μ) (write : Nat → ν) (isFixed : Nat → Bool) (roll : Roll ν)
    (link : Ends) :
    (roll.map f).enter? (f ∘ write) isFixed link =
      (roll.enter? write isFixed link).map (map f) := by
  have hseen : (roll.map f).seen = roll.seen := rfl
  have hnote : (roll.map f).note link = (roll.note link).map f := rfl
  unfold enter?
  rw [hseen, hnote, number?_map]
  -- Numbers are not read where it is decided whether the link takes part.
  by_cases hskip : (link.1 == link.2 || isFixed link.1 || isFixed link.2) = true
  · rw [if_pos hskip, if_pos hskip]
    rfl
  rw [if_neg hskip, if_neg hskip]
  by_cases hold : link ∈ roll.seen
  · rw [if_pos hold, if_pos hold]
    rfl
  rw [if_neg hold, if_neg hold]
  -- The second end is looked for in the roll that the first end may have changed.
  rcases (roll.note link).number? write link.1 with _ | ⟨source, roll'⟩
  · rfl
  · simp only [Option.map_some, Option.bind_eq_bind, Option.bind_some, number?_map]
    rcases roll'.number? write link.2 with _ | ⟨target, roll''⟩
    · rfl
    · simp [map_connect]

/-- Numbers are only handed out and copied, so how they are written makes no
    difference to anything else. -/
theorem ofLinks?_map (f : ν → μ) (write : Nat → ν) (isFixed : Nat → Bool) (count : Nat)
    (links : List Ends) :
    ofLinks? (f ∘ write) isFixed count links =
      (ofLinks? write isFixed count links).map (map f) := by
  unfold ofLinks?
  rw [← map_blank f]
  -- By induction on the links, from whatever roll they find.
  generalize blank count = roll
  induction links generalizing roll with
  | nil => rfl
  | cons link links ih =>
      rw [List.foldlM_cons, List.foldlM_cons, enter?_map]
      rcases roll.enter? write isFixed link with _ | roll'
      · rfl
      · exact ih roll'

end Roll

/-! ## Links that take part -/

namespace Numbering

/-- A box is free, and a link leads from it to another free box or to it from
    one. -/
def Tied (isFixed : Nat → Bool) (links : List Ends) (i : Nat) : Prop :=
  isFixed i = false ∧ ∃ j, j ≠ i ∧ isFixed j = false ∧ ((i, j) ∈ links ∨ (j, i) ∈ links)

/-- The places that links name, one link after the other. -/
def places (links : List Ends) : List Nat := links.flatMap fun (source, target) => [source, target]

variable {isFixed : Nat → Bool} {links : List Ends}

theorem mem_places {link : Ends} (h : link ∈ links) :
    link.1 ∈ places links ∧ link.2 ∈ places links := by
  constructor
  · exact List.mem_flatMap.mpr ⟨link, h, by simp⟩
  · exact List.mem_flatMap.mpr ⟨link, h, by simp⟩

theorem places_concat (links : List Ends) (link : Ends) :
    places (links ++ [link]) = places links ++ [link.1] ++ [link.2] := by
  simp [places]

theorem ofLinks_eq (isFixed : Nat → Bool) (links : List Ends) :
    ofLinks isFixed links =
      ⟨(places (layered isFixed links)).eraseDups, (layered isFixed links).map fun link =>
        ((places (layered isFixed links)).eraseDups.idxOf link.1,
          (places (layered isFixed links)).eraseDups.idxOf link.2)⟩ :=
  rfl

/-- One more link takes part if it counts and did not take part before. -/
theorem layered_concat (isFixed : Nat → Bool) (links : List Ends) (link : Ends) :
    layered isFixed (links ++ [link]) =
      if counts isFixed link = true ∧ link ∉ layered isFixed links then
        layered isFixed links ++ [link]
      else layered isFixed links := by
  unfold layered
  rw [List.filter_append]
  by_cases hcounts : counts isFixed link = true
  · rw [List.filter_cons_of_pos hcounts, List.filter_nil, Row.eraseDups_concat]
    by_cases hmem : link ∈ links.filter (counts isFixed)
    · simp [hmem]
    · simp [hmem, hcounts]
  · simp [hcounts]

/-- The links that take part stand in the order in which they first occur. -/
theorem pairwise_layered (isFixed : Nat → Bool) (links : List Ends) :
    (layered isFixed links).Pairwise fun a b => links.idxOf a < links.idxOf b := by
  -- From the back, so that the link that comes last is the one to be placed.
  induction links using List.reverseRecOn with
  | nil => simp [layered]
  | append_singleton links link ih =>
      -- What occurred before still occurs first where it did.
      have hold : (layered isFixed links).Pairwise fun a b =>
          (links ++ [link]).idxOf a < (links ++ [link]).idxOf b := by
        refine ih.imp_of_mem fun {a b} ha hb hlt => ?_
        have ha := (mem_layered_iff.mp ha).1
        have hb := (mem_layered_iff.mp hb).1
        rwa [List.idxOf_append_of_mem ha, List.idxOf_append_of_mem hb]
      rw [layered_concat]
      by_cases hentered : counts isFixed link = true ∧ link ∉ layered isFixed links
      · have hnew : link ∉ links := fun hmem =>
          hentered.2 (mem_layered_iff.mpr ⟨hmem, counts_iff.mp hentered.1⟩)
        rw [if_pos hentered, List.pairwise_append]
        refine ⟨hold, by simp, ?_⟩
        intro a ha b hb
        have ha := (mem_layered_iff.mp ha).1
        rw [List.mem_singleton.mp hb, List.idxOf_append_of_mem ha, List.idxOf_append_of_notMem hnew]
        have := List.idxOf_lt_length_of_mem ha
        omega
      · rwa [if_neg hentered]

theorem tied_iff {i : Nat} :
    Tied isFixed links i ↔ ∃ link ∈ layered isFixed links, i = link.1 ∨ i = link.2 := by
  constructor
  · rintro ⟨hi, j, hne, hj, hlink | hlink⟩
    · exact ⟨(i, j), mem_layered_iff.mpr ⟨hlink, hne.symm, hi, hj⟩, Or.inl rfl⟩
    · exact ⟨(j, i), mem_layered_iff.mpr ⟨hlink, hne, hj, hi⟩, Or.inr rfl⟩
  · rintro ⟨⟨source, target⟩, hlink, rfl | rfl⟩
    · rcases mem_layered_iff.mp hlink with ⟨hmem, hne, hsource, htarget⟩
      exact ⟨hsource, target, hne.symm, htarget, Or.inl hmem⟩
    · rcases mem_layered_iff.mp hlink with ⟨hmem, hne, hsource, htarget⟩
      exact ⟨htarget, source, hne, hsource, Or.inr hmem⟩

instance (i : Nat) : Decidable (Tied isFixed links i) := decidable_of_iff _ tied_iff.symm

end Numbering

/-! ## What the pass keeps -/

namespace Roll

/-- The boxes that were named are numbered in the order in which they were first
    named, and the numbers and the members are each other's inverse. -/
structure Numbered (count : Nat) (named : List Nat) (roll : Roll Nat) : Prop where
  size_eq : roll.numbers.size = count
  members_eq : roll.members = named.eraseDups
  numbers_iff : ∀ i v : Nat, roll.numbers[i]? = some (some v) ↔ roll.members[v]? = some i

/-- The links so far were entered if they take part, and their ends are the boxes
    that were named. -/
structure Follows (isFixed : Nat → Bool) (count : Nat) (done : List Ends) (roll : Roll Nat) :
    Prop where
  seen_eq : roll.seen = Numbering.layered isFixed done
  numbered : roll.Numbered count (Numbering.places (Numbering.layered isFixed done))
  arcs_eq : roll.arcs = (Numbering.ofLinks isFixed done).arcs

variable {count : Nat} {named : List Nat} {roll : Roll Nat}

theorem Numbered.nodup (h : roll.Numbered count named) : roll.members.Nodup := by
  rw [h.members_eq]
  exact Row.nodup_eraseDups named

theorem Numbered.idxOf_eq (h : roll.Numbered count named) {v i : Nat}
    (hv : roll.members[v]? = some i) : roll.members.idxOf i = v := by
  rcases List.getElem?_eq_some_iff.mp hv with ⟨hlt, rfl⟩
  exact h.nodup.idxOf_getElem v hlt

/-- A box that is named again changes nothing. -/
theorem Numbered.again (h : roll.Numbered count named) {place : Nat} (hold : place ∈ named) :
    roll.Numbered count (named ++ [place]) := by
  refine ⟨h.size_eq, ?_, h.numbers_iff⟩
  rw [Row.eraseDups_concat, if_pos hold, h.members_eq]

/-- A box that is named for the first time is given the next number. -/
theorem Numbered.enrol (h : roll.Numbered count named) {place : Nat} (hplace : place < count)
    (hnew : place ∉ named) :
    (roll.enrol place roll.members.length).Numbered count (named ++ [place]) := by
  have hmem : place ∉ roll.members := by
    rw [h.members_eq, List.mem_eraseDups]
    exact hnew
  refine ⟨by simp [Roll.enrol, h.size_eq], ?_, fun i v => ?_⟩
  · rw [Row.eraseDups_concat, if_neg hnew, ← h.members_eq]
    rfl
  · change (roll.numbers.setIfInBounds place (some roll.members.length))[i]? = some (some v) ↔
      (roll.members ++ [place])[v]? = some i
    rw [Array.getElem?_setIfInBounds, Row.getElem?_concat_eq_some_iff]
    by_cases hi : place = i
    · -- The box has the new number, and had no other before.
      subst hi
      have hold : roll.members[v]? ≠ some place := fun hv => hmem (List.mem_of_getElem? hv)
      simp [h.size_eq, hplace, hold, eq_comm]
    · -- Other boxes keep their numbers.
      simp [hi, h.numbers_iff]

/-- A number is found for every box that there is: its old one, or else the next.
    Either way it is the place of the box among those that were named. -/
theorem Numbered.exists_number? (h : roll.Numbered count named) {place : Nat}
    (hplace : place < count) :
    ∃ roll', roll.number? id place = some ((named ++ [place]).eraseDups.idxOf place, roll') ∧
      roll'.Numbered count (named ++ [place]) ∧ roll'.seen = roll.seen ∧
      roll'.arcs = roll.arcs := by
  unfold number?
  -- There is a box, and the table says whether it was named before.
  rcases hnumber : roll.numbers[place]? with _ | _ | v
  · rw [Array.getElem?_eq_none_iff, h.size_eq] at hnumber
    omega
  · -- A box without a number was not named, and the next number is how many members there are.
    have hnew : place ∉ named := by
      intro hold
      rw [← List.mem_eraseDups, ← h.members_eq] at hold
      rcases List.mem_iff_getElem?.mp hold with ⟨v, hv⟩
      rw [← h.numbers_iff, hnumber] at hv
      simp at hv
    have hidx : (named ++ [place]).eraseDups.idxOf place = roll.members.length := by
      rw [Row.eraseDups_concat, if_neg hnew, h.members_eq,
        List.idxOf_append_of_notMem (by rwa [List.mem_eraseDups])]
      simp
    exact ⟨_, by rw [hidx]; rfl, h.enrol hplace hnew, rfl, rfl⟩
  · -- A box with a number stands at it among the members.
    have hv := (h.numbers_iff place v).mp hnumber
    have hold : place ∈ named := by
      rw [← List.mem_eraseDups, ← h.members_eq]
      exact List.mem_of_getElem? hv
    have hidx : (named ++ [place]).eraseDups.idxOf place = v := by
      rw [Row.eraseDups_concat, if_pos hold, ← h.members_eq]
      exact h.idxOf_eq hv
    exact ⟨roll, by rw [hidx], h.again hold, rfl, rfl⟩

variable {isFixed : Nat → Bool} {done : List Ends}

theorem follows_blank (isFixed : Nat → Bool) (count : Nat) :
    Follows isFixed count [] (blank count) := by
  refine ⟨rfl, ⟨by simp [blank], rfl, fun i v => ?_⟩, rfl⟩
  simp [blank, Array.getElem?_replicate]

/-- A link that takes no part, or did before, is followed by doing nothing. -/
theorem Follows.pass (h : roll.Follows isFixed count done) {link : Ends}
    (hpass : ¬(Numbering.counts isFixed link = true ∧ link ∉ Numbering.layered isFixed done)) :
    roll.Follows isFixed count (done ++ [link]) := by
  have hlayered : Numbering.layered isFixed (done ++ [link]) = Numbering.layered isFixed done := by
    rw [Numbering.layered_concat, if_neg hpass]
  rcases h with ⟨hseen, hnumbered, harcs⟩
  rw [Numbering.ofLinks_eq] at harcs
  refine ⟨?_, ?_, ?_⟩
  · rw [hlayered, hseen]
  · rw [hlayered]
    exact hnumbered
  · rw [Numbering.ofLinks_eq, hlayered]
    exact harcs

/-- A link that takes part now is followed by an arc between the numbers of its
    ends. -/
theorem Follows.exists_connect (h : roll.Follows isFixed count done) {link : Ends}
    (hlink : link.1 < count ∧ link.2 < count) (hcounts : Numbering.counts isFixed link = true)
    (hnew : link ∉ Numbering.layered isFixed done) :
    ∃ source roll' target roll'', (roll.note link).number? id link.1 = some (source, roll') ∧
      roll'.number? id link.2 = some (target, roll'') ∧
      (roll''.connect source target).Follows isFixed count (done ++ [link]) := by
  -- Noting the link changes neither members nor numbers, so that both ends can be looked up.
  have hnoted : (roll.note link).Numbered count
      (Numbering.places (Numbering.layered isFixed done)) :=
    ⟨h.numbered.size_eq, h.numbered.members_eq, h.numbered.numbers_iff⟩
  rcases hnoted.exists_number? hlink.1 with ⟨roll', hsource, hnumbered', hseen', harcs'⟩
  rcases hnumbered'.exists_number? hlink.2 with ⟨roll'', htarget, hnumbered'', hseen'', harcs''⟩
  -- The link is now the last of those that take part.
  have hlayered : Numbering.layered isFixed (done ++ [link]) =
      Numbering.layered isFixed done ++ [link] := by
    rw [Numbering.layered_concat, if_pos ⟨hcounts, hnew⟩]
  refine ⟨_, roll', _, roll'', hsource, htarget, ?_, ?_, ?_⟩
  · rw [hlayered, ← h.seen_eq]
    exact hseen''.trans hseen'
  · rw [hlayered, Numbering.places_concat]
    exact ⟨hnumbered''.size_eq, hnumbered''.members_eq, hnumbered''.numbers_iff⟩
  · have harcs : roll''.arcs = (Numbering.ofLinks isFixed done).arcs :=
      harcs''.trans (harcs'.trans h.arcs_eq)
    rw [Numbering.ofLinks_eq] at harcs ⊢
    rw [hlayered, Numbering.places_concat, List.map_append, List.map_singleton,
      Row.idxOf_eraseDups_append (by simp : link.1 ∈ _ ++ [link.1])]
    refine congrArg (· ++ [_]) (harcs.trans (List.map_congr_left fun l hl => ?_))
    -- The ends of earlier links keep their numbers, whatever is named after them.
    rcases Numbering.mem_places hl with ⟨hl₁, hl₂⟩
    rw [List.append_assoc, Row.idxOf_eraseDups_append hl₁, Row.idxOf_eraseDups_append hl₂]

/-- One more link between boxes is followed, whichever way it goes. -/
theorem Follows.exists_enter? (h : roll.Follows isFixed count done) {link : Ends}
    (hlink : link.1 < count ∧ link.2 < count) :
    ∃ roll', roll.enter? id isFixed link = some roll' ∧
      roll'.Follows isFixed count (done ++ [link]) := by
  have hskip : (link.1 == link.2 || isFixed link.1 || isFixed link.2) =
      !Numbering.counts isFixed link := by
    simp [Numbering.counts, bne]
  unfold enter?
  rw [hskip, h.seen_eq]
  -- Two ways to pass the link over, and one to enter it.
  by_cases hcounts : Numbering.counts isFixed link = true
  · by_cases hseen : link ∈ Numbering.layered isFixed done
    · exact ⟨roll, by simp [hcounts, hseen], h.pass fun hentered => hentered.2 hseen⟩
    · rcases h.exists_connect hlink hcounts hseen with
        ⟨source, roll', target, roll'', hsource, htarget, hfollows⟩
      exact ⟨_, by simp [hcounts, hseen, hsource, htarget], hfollows⟩
  · exact ⟨roll, by simp [hcounts], h.pass fun hentered => hcounts hentered.1⟩

/-- A pass follows all links between boxes. -/
theorem Follows.exists_foldlM {links : List Ends} (h : roll.Follows isFixed count done)
    (hlinks : ∀ link ∈ links, link.1 < count ∧ link.2 < count) :
    ∃ roll', links.foldlM (enter? id isFixed) roll = some roll' ∧
      roll'.Follows isFixed count (done ++ links) := by
  induction links generalizing done roll with
  | nil => exact ⟨roll, rfl, by rwa [List.append_nil]⟩
  | cons link links ih =>
      -- The first link is done, and the rest is followed from there.
      rw [List.forall_mem_cons] at hlinks
      rcases h.exists_enter? hlinks.1 with ⟨roll', henter, hfollows⟩
      rcases ih hfollows hlinks.2 with ⟨roll'', hrest, hend⟩
      rw [List.append_assoc] at hend
      refine ⟨roll'', ?_, hend⟩
      rw [List.foldlM_cons, henter]
      exact hrest

/-! ## Numbers and boxes -/

/-- What the pass finds is the numbering. -/
theorem Follows.ofLinks_eq (h : roll.Follows isFixed count done) :
    Numbering.ofLinks isFixed done = ⟨roll.members, roll.arcs⟩ := by
  rw [h.numbered.members_eq, h.arcs_eq]
  rfl

/-- The boxes with a number are those that a link ties to another. -/
theorem Follows.mem_members_iff (h : roll.Follows isFixed count done) {i : Nat} :
    i ∈ roll.members ↔ Numbering.Tied isFixed done i := by
  have hmembers : roll.members = (Numbering.ofLinks isFixed done).members := by rw [h.ofLinks_eq]
  rw [hmembers, Numbering.mem_members_iff, Numbering.tied_iff]

/-- There are as many members as boxes that a link ties to another. -/
theorem Follows.length_members (h : roll.Follows isFixed count done)
    (hdone : ∀ link ∈ done, link.1 < count ∧ link.2 < count) :
    roll.members.length = (List.range count).countP fun i => Numbering.Tied isFixed done i := by
  have hnodup : ((List.range count).filter fun i => Numbering.Tied isFixed done i).Nodup :=
    List.nodup_range.filter _
  rw [List.countP_eq_length_filter]
  refine ((List.perm_ext_iff_of_nodup h.numbered.nodup hnodup).mpr fun i => ?_).length_eq
  rw [h.mem_members_iff, List.mem_filter, List.mem_range, decide_eq_true_eq]
  -- A link ties only what is a box.
  refine (and_iff_right_of_imp fun htied => ?_).symm
  rcases htied with ⟨-, j, -, -, hlink | hlink⟩
  · exact (hdone _ hlink).1
  · exact (hdone _ hlink).2

theorem Follows.arcs_eq_map (h : roll.Follows isFixed count done) :
    roll.arcs = (Numbering.layered isFixed done).map fun link =>
      (roll.members.idxOf link.1, roll.members.idxOf link.2) := by
  rw [h.arcs_eq, h.numbered.members_eq]
  rfl

theorem Follows.mem_members (h : roll.Follows isFixed count done) {link : Ends}
    (hlink : link ∈ Numbering.layered isFixed done) :
    link.1 ∈ roll.members ∧ link.2 ∈ roll.members := by
  simp only [h.mem_members_iff, Numbering.tied_iff]
  exact ⟨⟨link, hlink, Or.inl rfl⟩, ⟨link, hlink, Or.inr rfl⟩⟩

/-- Every number of a member is an end of an arc, and no other number is. -/
theorem Follows.exists_arc_iff (h : roll.Follows isFixed count done) (v : Nat) :
    (∃ arc ∈ roll.arcs, v = arc.1 ∨ v = arc.2) ↔ v < roll.members.length := by
  rw [h.arcs_eq_map]
  constructor
  · -- An arc was made of a link, whose ends are members.
    rintro ⟨arc, harc, hend⟩
    rcases List.mem_map.mp harc with ⟨link, hlink, rfl⟩
    rcases hend with rfl | rfl
    · exact List.idxOf_lt_length_of_mem (h.mem_members hlink).1
    · exact List.idxOf_lt_length_of_mem (h.mem_members hlink).2
  · -- A member is tied to another by a link, and that link became an arc.
    intro hv
    have hget := List.getElem?_eq_getElem hv
    have htied := h.mem_members_iff.mp (List.mem_of_getElem? hget)
    rcases Numbering.tied_iff.mp htied with ⟨link, hlink, hend⟩
    refine ⟨_, List.mem_map_of_mem hlink, ?_⟩
    rw [← h.numbered.idxOf_eq hget]
    rcases hend with hsource | htarget
    · left
      rw [hsource]
    · right
      rw [htarget]

/-- Through the members every arc leads back to its link. -/
theorem Follows.map_ends? (h : roll.Follows isFixed count done) :
    roll.arcs.map roll.ends? = (Numbering.layered isFixed done).map some := by
  rw [h.arcs_eq_map, List.map_map]
  refine List.map_congr_left fun link hlink => ?_
  rcases h.mem_members hlink with ⟨hsource, htarget⟩
  simp [ends?, List.getElem?_idxOf hsource, List.getElem?_idxOf htarget]

end Roll

/-- A pass over links between boxes comes to its end, and finds the numbering.
    The ends of its arcs are the numbers below the count of the boxes that a link
    ties to another, none of them left out. Members and numbers lead from these
    numbers to these boxes and back. Through the members the arcs lead back to the
    links that tie two boxes, each once and in the order in which they first
    occur. Written in 32 bits the numbers are the same as long as these can hold
    them. -/
theorem numbering_dense_and_reversible (r : Request) (links : List Ends)
    (hlinks : ∀ link ∈ links, link.1 < r.items.length ∧ link.2 < r.items.length) :
    let count := r.items.length
    let k := (List.range count).countP fun i => Numbering.Tied r.isFixed links i
    ∃ roll : Roll Nat, Roll.ofLinks? id r.isFixed count links = some roll ∧
      Numbering.ofLinks r.isFixed links = ⟨roll.members, roll.arcs⟩ ∧
      (∀ v, (∃ arc ∈ roll.arcs, v = arc.1 ∨ v = arc.2) ↔ v < k) ∧
      roll.members.length = k ∧ (∀ i, i ∈ roll.members ↔ Numbering.Tied r.isFixed links i) ∧
      (∀ i v : Nat, roll.numbers[i]? = some (some v) ↔ roll.members[v]? = some i) ∧
      (∃ distinct : List Ends, roll.arcs.map roll.ends? = distinct.map some ∧
        (∀ link, link ∈ distinct ↔ link ∈ links ∧ Numbering.Ties r.isFixed link) ∧
        distinct.Nodup ∧ distinct.Pairwise fun a b => links.idxOf a < links.idxOf b) ∧
      Roll.ofLinks? UInt32.ofNat r.isFixed count links = some (roll.map UInt32.ofNat) ∧
      (k ≤ UInt32.size → ∀ v < k, (UInt32.ofNat v).toNat = v) := by
  intro count k
  -- The run that starts from a blank roll follows all links.
  rcases (Roll.follows_blank r.isFixed count).exists_foldlM hlinks with ⟨roll, hrun, hfollows⟩
  rw [List.nil_append] at hfollows
  have hrun : Roll.ofLinks? id r.isFixed count links = some roll := hrun
  have hlength : roll.members.length = k := hfollows.length_members hlinks
  -- The run with 32 bits is the same run, with its numbers rewritten.
  have hwords : Roll.ofLinks? UInt32.ofNat r.isFixed count links =
      some (roll.map UInt32.ofNat) := by
    have hmap := Roll.ofLinks?_map UInt32.ofNat id r.isFixed count links
    rwa [Function.comp_id, hrun] at hmap
  refine ⟨roll, hrun, hfollows.ofLinks_eq, fun v => ?_, hlength, fun i => hfollows.mem_members_iff,
    hfollows.numbered.numbers_iff, ?_, hwords, ?_⟩
  · rw [← hlength]
    exact hfollows.exists_arc_iff v
  · exact ⟨Numbering.layered r.isFixed links, hfollows.map_ends?,
      fun link => Numbering.mem_layered_iff, Row.nodup_eraseDups _,
      Numbering.pairwise_layered r.isFixed links⟩
  · intro hfits v hv
    exact UInt32.toNat_ofNat_of_lt' (by omega)

/-- Of five boxes one is fixed and one is tied to no other. Links are repeated,
    turned around, and lead from a box to itself and to and from the fixed one. -/
theorem numbering_dense_and_reversible_repeated :
    let item (id : String) (fixed : Option Point) : Item := ⟨id, id, ⟨120, 60⟩, fixed⟩
    let r : Request :=
      ⟨[item "A" none, item "B" none, item "C" none, item "D" none, item "Pin" (some ⟨60, 40⟩)], []⟩
    let links : List Ends := [(2, 2), (3, 1), (0, 4), (1, 3), (3, 1), (4, 2), (3, 0), (1, 3)]
    (∀ link ∈ links, link.1 < r.items.length ∧ link.2 < r.items.length) ∧
      ∃ roll, Roll.ofLinks? id r.isFixed r.items.length links = some roll ∧
        roll = ⟨#[some 2, some 1, none, some 0, none], [3, 1, 0], [(3, 1), (1, 3), (3, 0)],
          [(0, 1), (1, 0), (0, 2)]⟩ ∧
        (∀ v, (∃ arc ∈ roll.arcs, v = arc.1 ∨ v = arc.2) ↔ v < 3) ∧
        (∀ i v : Nat, roll.numbers[i]? = some (some v) ↔ roll.members[v]? = some i) ∧
        roll.arcs.map roll.ends? = [some (3, 1), some (1, 3), some (3, 0)] := by
  intro item r links
  have hlinks : ∀ link ∈ links, link.1 < r.items.length ∧ link.2 < r.items.length := by decide
  have hroll : Roll.ofLinks? id r.isFixed r.items.length links =
      some ⟨#[some 2, some 1, none, some 0, none], [3, 1, 0], [(3, 1), (1, 3), (3, 0)],
        [(0, 1), (1, 0), (0, 2)]⟩ := by decide
  rcases numbering_dense_and_reversible r links hlinks with
    ⟨roll, hrun, _, hdense, _, _, hinverse, _⟩
  have heq := Option.some.inj (hrun.symm.trans hroll)
  exact ⟨hlinks, roll, hrun, heq, hdense, hinverse, by rw [heq]; decide⟩

end Engine

end Flowchart
