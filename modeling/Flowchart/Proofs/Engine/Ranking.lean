import Flowchart.Proofs.Engine.Level
import Mathlib.Data.List.Basic
import Mathlib.Data.List.Nodup

/-!
# Layers Rank Boxes by Height

A layering gives heights, and a part turns them into the numbers of its layers.
Three things happen on the way that could each lose something: heights are
sorted and thinned out, a box looks for the first level that is near its own,
and if more links lead up than down all layers are counted from the other side.

If no two heights nearly agree without being equal, nothing is lost. The levels
that are kept are then exactly the heights, each once and in increasing order,
so that the level a box finds is its place among the distinct heights:
`levelOf_lt_iff` says that levels compare as heights do, and
`exists_levelOf_eq` that none of them is empty. Counting from the other side is
subtracting from the last level. It turns every comparison around, and with it
every vote, which is why the count that was chosen is never outvoted.

## Main definitions

* `descends`: A link leads from a layer to one below.
* `Ranking`: What it is to rank the boxes of a part by height.
* `Slopes`: The links of a part all lead the same way in height.

## Theorems

* `pairwise_levels`: Levels increase.
* `levelOf_lt_iff`, `exists_levelOf_eq`: Levels number the heights.
* `length_levels`: There are as many levels as distinct heights.
* `directions_eq`: What the votes count.
* `Ranking.descends_of_slopes`: Links that lead the same way in height lead
  down.
* `ranks_faithful`: A part ranks its boxes by height.
-/

namespace Flowchart

namespace Engine

variable {ys : List Float}

/-! ## Levels increase -/

/-- Of sorted heights, those that are kept increase. -/
theorem pairwise_distinctFrom (h : Heights ys) {kept : Float} {zs : List Float}
    (hys : ∀ z ∈ kept :: zs, z ∈ ys) (hsorted : ((kept :: zs).map Double.units).Pairwise (· ≤ ·)) :
    ((kept :: distinctFrom kept zs).map Double.units).Pairwise (· < ·) := by
  -- By induction on what is still to come, none of which is below what was kept last.
  induction zs generalizing kept with
  | nil => exact List.pairwise_singleton _ _
  | cons z zs ih =>
      rcases List.forall_mem_cons.mp hys with ⟨hkept, hrest⟩
      rw [List.map_cons, List.pairwise_cons] at hsorted
      rcases hsorted with ⟨hleast, hsorted⟩
      have hz := hleast _ (List.mem_map_of_mem List.mem_cons_self)
      rw [distinctFrom]
      by_cases hsame : sameLayer z kept = true
      · -- Nothing comes between a height and one that agrees with it.
        rw [if_pos hsame]
        refine ih (List.forall_mem_cons.mpr ⟨hkept, (List.forall_mem_cons.mp hrest).2⟩) ?_
        rw [List.map_cons, List.pairwise_cons] at hsorted ⊢
        exact ⟨fun u hu => Int.le_trans hz (hsorted.1 u hu), hsorted.2⟩
      · rw [if_neg hsame]
        -- The next height that is kept is another one, and not below the last.
        have hne : Double.units z ≠ Double.units kept := fun heq =>
          hsame ((h.sameLayer_iff (hrest z List.mem_cons_self) hkept).mpr heq)
        have hlater := ih hrest hsorted
        rw [List.map_cons, List.pairwise_cons]
        refine ⟨fun u hu => ?_, hlater⟩
        rw [List.map_cons, List.pairwise_cons] at hlater
        rcases List.mem_cons.mp hu with rfl | hu
        · omega
        · have := hlater.1 u hu
          omega

/-- The levels of a part increase. -/
theorem pairwise_levels (h : Heights ys) :
    ((levels ys).map Double.units).Pairwise (· < ·) := by
  have hsorted := Double.pairwise_mergeSort fun y hy => Double.isNaN_of_isFinite (h.isFinite hy)
  unfold levels
  split
  · exact List.Pairwise.nil
  · rename_i z zs hzs
    rw [hzs] at hsorted
    refine pairwise_distinctFrom h (fun x hx => ?_) hsorted
    rw [← hzs] at hx
    exact List.mem_mergeSort.mp hx

/-- A later level is higher. -/
theorem units_lt_of_lt (h : Heights ys) {i j : Nat} {a b : Float}
    (ha : (levels ys)[i]? = some a) (hb : (levels ys)[j]? = some b) (hij : i < j) :
    Double.units a < Double.units b := by
  rcases List.getElem?_eq_some_iff.mp ha with ⟨hi, rfl⟩
  rcases List.getElem?_eq_some_iff.mp hb with ⟨hj, rfl⟩
  exact List.pairwise_iff_getElem.mp (List.pairwise_map.mp (pairwise_levels h)) i j hi hj hij

/-! ## Levels number the heights -/

section levelOf

variable (h : Heights ys) {a b : Float}

include h

theorem levelOf_lt_length (ha : a ∈ ys) : levelOf (levels ys) a < (levels ys).length := by
  rcases exists_levelOf h ha with ⟨_, hl, _⟩
  exact (List.getElem?_eq_some_iff.mp hl).1

/-- Levels compare as the heights that are found there. -/
theorem levelOf_lt_iff (ha : a ∈ ys) (hb : b ∈ ys) :
    levelOf (levels ys) a < levelOf (levels ys) b ↔ Double.units a < Double.units b := by
  rcases exists_levelOf h ha with ⟨l, hl, hla⟩
  rcases exists_levelOf h hb with ⟨m, hm, hmb⟩
  rw [← hla, ← hmb]
  refine ⟨units_lt_of_lt h hl hm, fun hlt => ?_⟩
  by_contra hle
  rcases Nat.eq_or_lt_of_le (Nat.le_of_not_lt hle) with heq | hgt
  · rw [heq, hl] at hm
    rw [Option.some.inj hm] at hlt
    exact Int.lt_irrefl _ hlt
  · exact Int.lt_asymm hlt (units_lt_of_lt h hm hl hgt)

/-- No level is empty. -/
theorem exists_levelOf_eq {k : Nat} (hk : k < (levels ys).length) :
    ∃ y ∈ ys, levelOf (levels ys) y = k := by
  have hy := mem_of_mem_levels (List.getElem_mem hk)
  refine ⟨_, hy, ?_⟩
  rcases exists_levelOf h hy with ⟨l, hl, hunits⟩
  have hget := List.getElem?_eq_getElem hk
  -- If it were found elsewhere, two levels would have one height.
  by_contra hne
  rcases Nat.lt_or_gt_of_ne hne with hlt | hgt
  · have := units_lt_of_lt h hl hget hlt
    omega
  · have := units_lt_of_lt h hget hl hgt
    omega

/-- What is left when heights that are equal are counted once. -/
theorem nodup_eraseDups {zs : List Float} (hys : ∀ z ∈ zs, z ∈ ys) :
    (zs.eraseDups.map Double.units).Nodup ∧
      ∀ u, u ∈ zs.eraseDups.map Double.units ↔ u ∈ zs.map Double.units := by
  -- On the length, since any number of heights may go with the first.
  induction hn : zs.length using Nat.strong_induction_on generalizing zs with
  | _ n ih =>
    cases zs with
    | nil => exact ⟨List.nodup_nil, fun _ => Iff.rfl⟩
    | cons z zs =>
      rcases List.forall_mem_cons.mp hys with ⟨hz, hzs⟩
      have hlen : (zs.filter fun b => !b == z).length < n := by
        have := List.length_filter_le (fun b => !b == z) zs
        rw [List.length_cons] at hn
        omega
      rcases ih _ hlen (fun x hx => hzs x (List.mem_of_mem_filter hx)) rfl with ⟨hnodup, hmem⟩
      -- What is filtered out are the heights that read as the first does.
      have hkept : ∀ u, u ∈ (zs.filter fun b => !b == z).map Double.units ↔
          u ∈ zs.map Double.units ∧ u ≠ Double.units z := by
        intro u
        simp only [List.mem_map, List.mem_filter, Bool.not_eq_true']
        constructor
        · rintro ⟨x, ⟨hx, hne⟩, rfl⟩
          refine ⟨⟨x, hx, rfl⟩, fun heq => Bool.eq_false_iff.mp hne ?_⟩
          exact (Double.beq_iff _ _).mpr ⟨Double.isNaN_of_isFinite (h.isFinite (hzs x hx)),
            Double.isNaN_of_isFinite (h.isFinite hz), heq⟩
        · rintro ⟨⟨x, hx, rfl⟩, hne⟩
          exact ⟨x, ⟨hx, Bool.eq_false_iff.mpr fun heq => hne ((Double.beq_iff _ _).mp heq).2.2⟩,
            rfl⟩
      rw [List.eraseDups_cons, List.map_cons, List.map_cons, List.nodup_cons]
      refine ⟨⟨fun hin => ((hkept _).mp ((hmem _).mp hin)).2 rfl, hnodup⟩, fun u => ?_⟩
      rw [List.mem_cons, List.mem_cons, hmem, hkept]
      by_cases hu : u = Double.units z
      · simp only [hu, true_or]
      · simp only [hu, false_or, ne_eq, not_false_eq_true, and_true]

/-- There are as many levels as distinct heights. -/
theorem length_levels : (levels ys).length = ys.eraseDups.length := by
  have hself : ∀ y ∈ ys, y ∈ ys := fun _ hy => hy
  rcases nodup_eraseDups h hself with ⟨hnodup, hmem⟩
  have hlevels : ((levels ys).map Double.units).Nodup :=
    (pairwise_levels h).imp fun hlt => Int.ne_of_lt hlt
  -- Levels and distinct heights are the same numbers without repetition.
  have hperm := (List.perm_ext_iff_of_nodup hlevels hnodup).mpr fun u => by
    rw [hmem, List.mem_map, List.mem_map]
    constructor
    · rintro ⟨l, hl, rfl⟩
      exact ⟨l, mem_of_mem_levels hl, rfl⟩
    · rintro ⟨y, hy, rfl⟩
      exact exists_mem_levels h hy
  have hlength := hperm.length_eq
  rw [List.length_map, List.length_map] at hlength
  exact hlength

end levelOf

/-! ## Votes -/

/-- Whether a link leads from a box on a layer to a box on one below it. The
    boxes are given by their places, with their layers counted from the top. -/
def descends (ranked : List (Nat × Nat)) (link : Ends) : Bool :=
  ranked.any fun source => ranked.any fun target =>
    source.1 == link.1 && target.1 == link.2 && decide (source.2 < target.2)

theorem descends_iff {ranked : List (Nat × Nat)} {link : Ends} :
    descends ranked link = true ↔
      ∃ s t, (link.1, s) ∈ ranked ∧ (link.2, t) ∈ ranked ∧ s < t := by
  simp only [descends, List.any_eq_true, Bool.and_eq_true, beq_iff_eq, decide_eq_true_iff]
  constructor
  · rintro ⟨⟨p, s⟩, hs, ⟨q, t⟩, ht, ⟨rfl, rfl⟩, hlt⟩
    exact ⟨s, t, hs, ht, hlt⟩
  · rintro ⟨s, t, hs, ht, hlt⟩
    exact ⟨_, hs, _, ht, ⟨rfl, rfl⟩, hlt⟩

variable {ranked : List (Nat × Nat)}

theorem rankOf?_eq_some_iff (hnodup : (ranked.map Prod.fst).Nodup) {place rank : Nat} :
    rankOf? ranked place = some rank ↔ (place, rank) ∈ ranked := by
  rw [rankOf?, Option.map_eq_some_iff]
  -- The last entry for a place is found, but no place has two.
  constructor
  · rintro ⟨⟨p, r⟩, hfind, rfl⟩
    have hp := List.find?_some hfind
    rw [beq_iff_eq] at hp
    rw [← hp]
    exact List.mem_reverse.mp (List.mem_of_find?_eq_some hfind)
  · intro hmem
    -- An entry is found, since this one would do, and it is this one.
    cases hfind : ranked.reverse.find? fun entry => entry.1 == place with
    | none =>
        have hnone := List.find?_eq_none.mp hfind _ (List.mem_reverse.mpr hmem)
        exact absurd (beq_self_eq_true place) hnone
    | some found =>
        have hplace := List.find?_some hfind
        have hin := List.mem_reverse.mp (List.mem_of_find?_eq_some hfind)
        rw [beq_iff_eq] at hplace
        exact ⟨found, rfl, congrArg Prod.snd (List.inj_on_of_nodup_map hnodup hin hmem hplace)⟩

theorem descends_eq (hnodup : (ranked.map Prod.fst).Nodup) (link : Ends) :
    descends ranked link = true ↔
      ∃ s t, rankOf? ranked link.1 = some s ∧ rankOf? ranked link.2 = some t ∧ s < t := by
  simp only [rankOf?_eq_some_iff hnodup, descends_iff]

/-- The votes after one more link. -/
def vote (ranked : List (Nat × Nat)) (votes : Nat × Nat) (link : Ends) : Nat × Nat :=
  match rankOf? ranked link.1, rankOf? ranked link.2 with
  | some s, some t =>
      if s < t then (votes.1 + 1, votes.2) else if t < s then (votes.1, votes.2 + 1) else votes
  | _, _ => votes

/-- A link votes if both of its ends are in the part and not on one layer. -/
theorem vote_eq (hnodup : (ranked.map Prod.fst).Nodup) (votes : Nat × Nat) (link : Ends) :
    vote ranked votes link = (votes.1 + if descends ranked link then 1 else 0,
      votes.2 + if descends ranked link.swap then 1 else 0) := by
  have hdown := descends_eq hnodup link
  have hup := descends_eq hnodup link.swap
  rw [Prod.fst_swap, Prod.snd_swap] at hup
  unfold vote
  -- A link with an end outside the part counts neither way.
  cases hs : rankOf? ranked link.1 with
  | none =>
      simp only [hs, reduceCtorEq, false_and, and_false, exists_false, iff_false] at hdown hup
      rw [if_neg hdown, if_neg hup]
      rfl
  | some s =>
      cases ht : rankOf? ranked link.2 with
      | none =>
          simp only [ht, reduceCtorEq, false_and, and_false, exists_false, iff_false] at hdown hup
          rw [if_neg hdown, if_neg hup]
          rfl
      | some t =>
          simp only [hs, ht, Option.some.injEq, exists_and_left, exists_eq_left'] at hdown hup
          rw [if_congr hdown rfl rfl, if_congr hup rfl rfl]
          -- Of three ways that two layers compare, the equal one gives no vote.
          by_cases hlt : s < t
          · simp only [hlt, Nat.lt_asymm hlt, if_true, if_false, Nat.add_zero]
          · simp only [hlt, if_false, Nat.add_zero]
            by_cases hgt : t < s
            · simp only [hgt, if_true]
            · simp only [hgt, if_false, Nat.add_zero]

/-- The votes are the links that lead down, and those that lead up. -/
theorem directions_eq (hnodup : (ranked.map Prod.fst).Nodup) (links : List Ends) :
    directions ranked links =
      (links.countP (descends ranked), links.countP fun link => descends ranked link.swap) := by
  -- Counted from any number of votes, for the induction to pass them on.
  have hfrom : ∀ votes : Nat × Nat, links.foldl (vote ranked) votes =
      (votes.1 + links.countP (descends ranked),
        votes.2 + links.countP fun link => descends ranked link.swap) := by
    induction links with
    | nil => exact fun _ => rfl
    | cons link links ih =>
        intro votes
        rw [List.foldl_cons, ih, vote_eq hnodup, List.countP_cons, List.countP_cons, Prod.mk.injEq]
        omega
  have hvotes := hfrom (0, 0)
  rw [Nat.zero_add, Nat.zero_add] at hvotes
  exact hvotes

/-! ## A part ranks its boxes -/

/-- The layers of the boxes at their places. -/
abbrev placed (seats : List Seat) (ranked : List Nat) : List (Nat × Nat) :=
  (seats.map Seat.place).zip ranked

/-- What it is for `ranked` to rank the boxes of a part by height. -/
structure Ranking (seats : List Seat) (links : List Ends) (ranked : List Nat) : Prop where
  /-- Every box has a layer. -/
  length_eq : ranked.length = seats.length
  /-- The layers are counted from zero, and there is one for each height. -/
  mem_iff : ∀ k, k ∈ ranked ↔ k < (seats.map Seat.y).eraseDups.length
  /-- A layer is a height. -/
  eq_iff : ∀ p ∈ seats.zip ranked, ∀ q ∈ seats.zip ranked,
    p.2 = q.2 ↔ (p.1.y == q.1.y) = true
  /-- Layers are counted in one direction. -/
  oriented : (∀ p ∈ seats.zip ranked, ∀ q ∈ seats.zip ranked, p.1.y < q.1.y → p.2 < q.2) ∨
    ∀ p ∈ seats.zip ranked, ∀ q ∈ seats.zip ranked, p.1.y < q.1.y → q.2 < p.2
  /-- No more links lead up than down. -/
  vote : (links.countP fun link => descends (placed seats ranked) link.swap) ≤
    links.countP (descends (placed seats ranked))

/-- Every link from a box of a part to another is between heights that are
    related. -/
def Slopes (seats : List Seat) (links : List Ends) (related : Float → Float → Prop) : Prop :=
  ∀ link ∈ links, link.1 ≠ link.2 → ∀ s ∈ seats, ∀ t ∈ seats,
    s.place = link.1 → t.place = link.2 → related s.y t.y

theorem mem_placed {seats : List Seat} {ranked : List Nat} {place rank : Nat} :
    (place, rank) ∈ placed seats ranked ↔
      ∃ p ∈ seats.zip ranked, p.1.place = place ∧ p.2 = rank := by
  have hmap : placed seats ranked = (seats.zip ranked).map fun p => (p.1.place, p.2) := by
    rw [placed, List.zip_map_left]
    rfl
  rw [hmap, List.mem_map]
  simp only [Prod.mk.injEq]

namespace Ranking

variable {seats : List Seat} {links : List Ends} {ranked : List Nat}

theorem exists_mem_zip (h : Ranking seats links ranked) {s : Seat} (hs : s ∈ seats) :
    ∃ p ∈ seats.zip ranked, p.1 = s := by
  have hfst := List.map_fst_zip (Nat.le_of_eq h.length_eq.symm)
  rw [← hfst] at hs
  rcases List.mem_map.mp hs with ⟨p, hp, rfl⟩
  exact ⟨p, hp, rfl⟩

/-- If links all lead one way in height, and that way is down or up, it is
    down. -/
theorem descends_of_related (h : Ranking seats links ranked)
    (hplaces : (seats.map Seat.place).Nodup) {related : Float → Float → Prop}
    (hslopes : Slopes seats links related)
    (hway : (∀ p ∈ seats.zip ranked, ∀ q ∈ seats.zip ranked, related p.1.y q.1.y → p.2 < q.2) ∨
      ∀ p ∈ seats.zip ranked, ∀ q ∈ seats.zip ranked, related p.1.y q.1.y → q.2 < p.2)
    {link : Ends} (hlink : link ∈ links) (hne : link.1 ≠ link.2)
    (hsource : ∃ s ∈ seats, s.place = link.1) (htarget : ∃ t ∈ seats, t.place = link.2) :
    descends (placed seats ranked) link = true := by
  rcases hsource with ⟨s, hs, hsplace⟩
  rcases htarget with ⟨t, ht, htplace⟩
  rcases h.exists_mem_zip hs with ⟨p, hp, rfl⟩
  rcases h.exists_mem_zip ht with ⟨q, hq, rfl⟩
  have hrel := hslopes link hlink hne _ hs _ ht hsplace htplace
  rcases hway with hdown | hup
  · exact descends_iff.mpr ⟨p.2, q.2, mem_placed.mpr ⟨p, hp, hsplace, rfl⟩,
      mem_placed.mpr ⟨q, hq, htplace, rfl⟩, hdown p hp q hq hrel⟩
  · -- A link that leads up is outvoted, but no link leads down.
    have hswap : descends (placed seats ranked) link.swap = true :=
      descends_iff.mpr ⟨q.2, p.2, mem_placed.mpr ⟨q, hq, htplace, rfl⟩,
        mem_placed.mpr ⟨p, hp, hsplace, rfl⟩, hup p hp q hq hrel⟩
    have hpos : 0 < links.countP (descends (placed seats ranked)) :=
      Nat.lt_of_lt_of_le (List.countP_pos_iff.mpr ⟨link, hlink, hswap⟩) h.vote
    rcases List.countP_pos_iff.mp hpos with ⟨other, hother, hdescends⟩
    rcases descends_iff.mp hdescends with ⟨i, j, hi, hj, hlt⟩
    rcases mem_placed.mp hi with ⟨a, ha, haplace, rfl⟩
    rcases mem_placed.mp hj with ⟨b, hb, hbplace, rfl⟩
    have hain := (List.of_mem_zip ha).1
    have hbin := (List.of_mem_zip hb).1
    by_cases hloop : other.1 = other.2
    · -- A link from a box to itself does not lead down at all.
      have hsame : a.1 = b.1 := List.inj_on_of_nodup_map hplaces hain hbin (by
        rw [haplace, hbplace, hloop])
      have heq := (h.eq_iff a ha b hb).mpr (by
        have := (h.eq_iff a ha a ha).mp rfl
        rw [← hsame]
        exact this)
      omega
    · -- Any other link leads up, and so it is not one that leads down.
      have := hup a ha b hb (hslopes other hother hloop _ hain _ hbin haplace hbplace)
      omega

/-- If all links lead up in height, or all lead down, then all of them lead
    down. -/
theorem descends_of_slopes (h : Ranking seats links ranked)
    (hplaces : (seats.map Seat.place).Nodup)
    (hslopes : Slopes seats links (· < ·) ∨ Slopes seats links (· > ·)) {link : Ends}
    (hlink : link ∈ links) (hne : link.1 ≠ link.2) (hsource : ∃ s ∈ seats, s.place = link.1)
    (htarget : ∃ t ∈ seats, t.place = link.2) : descends (placed seats ranked) link = true := by
  rcases hslopes with hslopes | hslopes
  · exact h.descends_of_related hplaces hslopes h.oriented hlink hne hsource htarget
  · refine h.descends_of_related hplaces hslopes ?_ hlink hne hsource htarget
    exact h.oriented.symm.imp (fun hdec p hp q hq hgt => hdec q hq p hp hgt)
      fun hinc p hp q hq hgt => hinc q hq p hp hgt

end Ranking

section ranks

variable {seats : List Seat} {links : List Ends}

theorem zip_map_eq (rank : Seat → Nat) :
    seats.zip (seats.map rank) = seats.map fun s => (s, rank s) := by
  have hboth := List.zip_map' (f := id) (g := rank) (l := seats)
  rw [List.map_id] at hboth
  exact hboth

theorem descends_map_iff {rank : Seat → Nat} {link : Ends} :
    descends (placed seats (seats.map rank)) link = true ↔
      ∃ s ∈ seats, ∃ t ∈ seats, s.place = link.1 ∧ t.place = link.2 ∧ rank s < rank t := by
  rw [descends_iff, placed, List.zip_map']
  simp only [List.mem_map, Prod.mk.injEq]
  constructor
  · rintro ⟨_, _, ⟨s, hs, hsplace, rfl⟩, ⟨t, ht, htplace, rfl⟩, hlt⟩
    exact ⟨s, hs, t, ht, hsplace, htplace, hlt⟩
  · rintro ⟨s, hs, t, ht, hsplace, htplace, hlt⟩
    exact ⟨_, _, ⟨s, hs, hsplace, rfl⟩, ⟨t, ht, htplace, rfl⟩, hlt⟩

/-- Numbers that are turned around have every link lead the other way. -/
theorem descends_turned_iff {rank turned : Seat → Nat}
    (hturn : ∀ s ∈ seats, ∀ t ∈ seats, turned s < turned t ↔ rank t < rank s) {link : Ends} :
    descends (placed seats (seats.map turned)) link = true ↔
      descends (placed seats (seats.map rank)) link.swap = true := by
  rw [descends_map_iff, descends_map_iff, Prod.fst_swap, Prod.snd_swap]
  constructor
  · rintro ⟨s, hs, t, ht, hsplace, htplace, hst⟩
    exact ⟨t, ht, s, hs, htplace, hsplace, (hturn s hs t ht).mp hst⟩
  · rintro ⟨t, ht, s, hs, htplace, hsplace, hst⟩
    exact ⟨s, hs, t, ht, hsplace, htplace, (hturn s hs t ht).mpr hst⟩

/-- Boxes are ranked by height if their layers are numbered by height, in either
    direction, and no more links lead up than down. -/
theorem ranking_map (h : Heights (seats.map Seat.y)) {rank : Seat → Nat}
    (hmem : ∀ k, (∃ s ∈ seats, rank s = k) ↔ k < (levels (seats.map Seat.y)).length)
    (hlt : (∀ s ∈ seats, ∀ t ∈ seats, rank s < rank t ↔ Double.units s.y < Double.units t.y) ∨
      ∀ s ∈ seats, ∀ t ∈ seats, rank t < rank s ↔ Double.units s.y < Double.units t.y)
    (hvote : (links.countP fun link => descends (placed seats (seats.map rank)) link.swap) ≤
      links.countP (descends (placed seats (seats.map rank)))) :
    Ranking seats links (seats.map rank) := by
  have hnumber : ∀ s ∈ seats, s.y.isNaN = false := fun s hs =>
    Double.isNaN_of_isFinite (h.isFinite (List.mem_map_of_mem hs))
  refine ⟨List.length_map _, fun k => ?_, ?_, ?_, hvote⟩
  · rw [List.mem_map, hmem, length_levels h]
  · rw [zip_map_eq]
    refine List.forall_mem_map.mpr fun s hs => List.forall_mem_map.mpr fun t ht => ?_
    -- Equal ranks are ranks of which neither is less, in both directions, and the same goes for
    -- heights.
    have hunits : (s.y == t.y) = true ↔ Double.units s.y = Double.units t.y := by
      rw [Double.beq_iff]
      exact ⟨fun heq => heq.2.2, fun heq => ⟨hnumber s hs, hnumber t ht, heq⟩⟩
    rw [hunits]
    rcases hlt with hlt | hlt
    · have hst := hlt s hs t ht
      have hts := hlt t ht s hs
      omega
    · have hst := hlt s hs t ht
      have hts := hlt t ht s hs
      omega
  · rw [zip_map_eq]
    refine hlt.imp (fun hlt => ?_) fun hlt => ?_
    · refine List.forall_mem_map.mpr fun s hs => List.forall_mem_map.mpr fun t ht hy => ?_
      exact (hlt s hs t ht).mpr ((Double.lt_iff _ _).mp hy).2.2
    · refine List.forall_mem_map.mpr fun s hs => List.forall_mem_map.mpr fun t ht hy => ?_
      exact (hlt s hs t ht).mpr ((Double.lt_iff _ _).mp hy).2.2

/-- The layer at which a part finds a box, before it is known which way is
    down. -/
def rawAt (seats : List Seat) (seat : Seat) : Nat := levelOf (levels (seats.map Seat.y)) seat.y

theorem rawAt_lt_iff (h : Heights (seats.map Seat.y)) {s t : Seat} (hs : s ∈ seats)
    (ht : t ∈ seats) : rawAt seats s < rawAt seats t ↔ Double.units s.y < Double.units t.y :=
  levelOf_lt_iff h (List.mem_map_of_mem hs) (List.mem_map_of_mem ht)

/-- A box is found at every level, and at no other layer. -/
theorem exists_rawAt_iff (h : Heights (seats.map Seat.y)) {k : Nat} :
    (∃ s ∈ seats, rawAt seats s = k) ↔ k < (levels (seats.map Seat.y)).length := by
  constructor
  · rintro ⟨s, hs, rfl⟩
    exact levelOf_lt_length h (List.mem_map_of_mem hs)
  · intro hk
    rcases exists_levelOf_eq h hk with ⟨_, hy, hk⟩
    rcases List.mem_map.mp hy with ⟨s, hs, rfl⟩
    exact ⟨s, hs, hk⟩

/-- The layers are the levels, or all levels are counted from the last, and that
    is as most links have it. -/
theorem ranks_cases (hplaces : (seats.map Seat.place).Nodup) (links : List Ends) :
    (ranks seats links = seats.map (rawAt seats) ∧
      (links.countP fun link => descends (placed seats (seats.map (rawAt seats))) link.swap) ≤
        links.countP (descends (placed seats (seats.map (rawAt seats))))) ∨
    (ranks seats links =
        (seats.map fun s => (levels (seats.map Seat.y)).length - 1 - rawAt seats s) ∧
      links.countP (descends (placed seats (seats.map (rawAt seats)))) ≤
        links.countP fun link => descends (placed seats (seats.map (rawAt seats))) link.swap) := by
  -- The raw ranks, before they may be turned, are those that the links vote on.
  have hfst : ((placed seats (seats.map (rawAt seats))).map Prod.fst).Nodup := by
    rw [placed, List.zip_map', List.map_map]
    exact hplaces
  have hvotes := directions_eq hfst links
  unfold rawAt at hvotes ⊢
  rw [ranks, hvotes]
  dsimp only
  split
  · rename_i hup
    rw [List.map_map]
    exact Or.inr ⟨rfl, Nat.le_of_lt hup⟩
  · rename_i hdown
    exact Or.inl ⟨rfl, Nat.le_of_not_lt hdown⟩

/-- A part whose heights never nearly agree without being equal ranks its boxes. -/
theorem ranking_ranks (hplaces : (seats.map Seat.place).Nodup)
    (h : Heights (seats.map Seat.y)) : Ranking seats links (ranks seats links) := by
  -- Either the links have it as the heights do, or all ranks are turned around.
  rcases ranks_cases hplaces links with ⟨heq, hvote⟩ | ⟨heq, hvote⟩
  · rw [heq]
    exact ranking_map h (fun _ => exists_rawAt_iff h)
      (Or.inl fun s hs t ht => rawAt_lt_iff h hs ht) hvote
  · have hlength : ∀ s ∈ seats, rawAt seats s < (levels (seats.map Seat.y)).length :=
      fun s hs => (exists_rawAt_iff h).mp ⟨s, hs, rfl⟩
    -- Counting from the last level turns every comparison around.
    have hturn : ∀ s ∈ seats, ∀ t ∈ seats,
        ((levels (seats.map Seat.y)).length - 1 - rawAt seats s <
          (levels (seats.map Seat.y)).length - 1 - rawAt seats t ↔
            rawAt seats t < rawAt seats s) := by
      intro s hs t ht
      have := hlength s hs
      have := hlength t ht
      omega
    rw [heq]
    refine ranking_map h (fun k => ⟨?_, fun hk => ?_⟩)
      (Or.inr fun s hs t ht => (hturn t ht s hs).trans (rawAt_lt_iff h hs ht)) ?_
    · rintro ⟨s, hs, rfl⟩
      have := hlength s hs
      omega
    · -- The rank that is wanted stands opposite to one that a box has.
      have hless : (levels (seats.map Seat.y)).length - 1 - k <
          (levels (seats.map Seat.y)).length := by omega
      rcases (exists_rawAt_iff h).mpr hless with ⟨s, hs, hraw⟩
      exact ⟨s, hs, by omega⟩
    · -- Turned ranks exchange the links that lead down and those that lead up.
      rw [List.countP_congr fun link _ => descends_turned_iff hturn,
        List.countP_congr fun link _ => descends_turned_iff hturn]
      simp only [Prod.swap_swap]
      exact hvote

theorem heights_of_apart {zs : List Float} (hfinite : ∀ a ∈ zs, a.isFinite = true)
    (hapart : ∀ a ∈ zs, ∀ b ∈ zs, (a == b) = true ∨ layerEpsilon ≤ (a - b).abs) :
    Heights zs := by
  intro a ha b hb
  refine (hapart a ha b hb).imp_left fun heq => ?_
  have hnan := Double.isNaN_sub (hfinite a ha) (hfinite b hb)
  have hclose := Double.natAbs_units_sub_le (hfinite a ha) (hfinite b hb)
  have hunits := ((Double.beq_iff _ _).mp heq).2.2
  have hzero : Double.units 0 = 0 := by decide +kernel
  rw [Double.beq_iff, Double.isNaN_abs, Double.units_abs, hzero]
  exact ⟨hnan, by decide +kernel, by omega⟩

/-- The boxes of a part are ranked by their heights if these are finite and no
    two of them nearly agree without being equal. Links that lead the same way
    in height all lead down then. -/
theorem ranks_faithful (hplaces : (seats.map Seat.place).Nodup)
    (hfinite : ∀ s ∈ seats, s.y.isFinite = true)
    (hapart : ∀ s ∈ seats, ∀ t ∈ seats, (s.y == t.y) = true ∨ layerEpsilon ≤ (s.y - t.y).abs) :
    Ranking seats links (ranks seats links) ∧
      (Slopes seats links (· < ·) ∨ Slopes seats links (· > ·) →
        ∀ link ∈ links, link.1 ≠ link.2 → (∃ s ∈ seats, s.place = link.1) →
          (∃ t ∈ seats, t.place = link.2) →
            descends (placed seats (ranks seats links)) link = true) := by
  have hheights : Heights (seats.map Seat.y) := by
    refine heights_of_apart (List.forall_mem_map.mpr hfinite) ?_
    exact List.forall_mem_map.mpr fun s hs => List.forall_mem_map.mpr (hapart s hs)
  have hranking : Ranking seats links (ranks seats links) := ranking_ranks hplaces hheights
  exact ⟨hranking, fun hslopes _ hlink hne hsource htarget =>
    hranking.descends_of_slopes hplaces hslopes hlink hne hsource htarget⟩

/-- All links that count lead from a greater height to a lesser one, so the part
    is turned around. Of the others, one leads from a box to itself and two leave
    the part. -/
theorem ranks_faithful_upturned :
    let seats : List Seat := [⟨4, 0, 0⟩, ⟨5, 10, -0.0⟩, ⟨7, 0, 20⟩, ⟨2, 10, 20⟩]
    let links : List Ends := [(4, 4), (7, 4), (2, 4), (9, 7), (2, 4), (4, 9)]
    (seats.map Seat.place).Nodup ∧ (∀ s ∈ seats, s.y.isFinite = true) ∧
      (∀ s ∈ seats, ∀ t ∈ seats, (s.y == t.y) = true ∨ layerEpsilon ≤ (s.y - t.y).abs) ∧
      Slopes seats links (· > ·) ∧ ranks seats links = [1, 1, 0, 0] ∧
      Ranking seats links [1, 1, 0, 0] ∧ descends (placed seats [1, 1, 0, 0]) (2, 4) = true := by
  intro seats links
  have hplaces : (seats.map Seat.place).Nodup := by decide
  have hfinite : ∀ s ∈ seats, s.y.isFinite = true := by decide +kernel
  have hapart : ∀ s ∈ seats, ∀ t ∈ seats,
      (s.y == t.y) = true ∨ layerEpsilon ≤ (s.y - t.y).abs := by decide +kernel
  have hslopes : Slopes seats links (· > ·) := by
    unfold Slopes
    decide +kernel
  -- The two zeros are one level, and the negative one is met first.
  have hlevels : levels (seats.map Seat.y) = [-0.0, 20] := by
    have hsorted : (seats.map Seat.y).mergeSort Double.totalLe = [-0.0, 0, 20, 20] :=
      Double.mergeSort_eq_of_perm (by decide +kernel) (.swap _ _ _) (by decide +kernel)
    unfold levels
    rw [hsorted]
    decide +kernel
  have hranks : ranks seats links = [1, 1, 0, 0] := by
    unfold ranks
    rw [hlevels]
    decide +kernel
  have hfaithful : Ranking seats links (ranks seats links) ∧ _ :=
    ranks_faithful hplaces hfinite hapart
  rcases hfaithful with ⟨hranking, hdown⟩
  have hlink := hdown (Or.inr hslopes) (2, 4) (by decide) (by decide) (by decide) (by decide)
  rw [hranks] at hranking hlink
  exact ⟨hplaces, hfinite, hapart, hslopes, hranks, hranking, hlink⟩

end ranks

end Engine

end Flowchart
