import Flowchart.Proofs.Engine.Fixed
import Flowchart.Proofs.Engine.Separation
import Flowchart.Proofs.Single.Key

/-!
# Sweeps End, and Keep the Order

A box that is blocked is moved past what blocks it, and then all fixed boxes are looked at
again from the first one on. Nothing is crossed off and nothing is counted, so that this
comes to an end is not a matter of course. What is used up are the fixed boxes whose right
side is still ahead. A box that blocks is one of them, and after the turn it is not, since
adding the spacing never leads back; and none comes back that was passed. So there are at
most as many turns as fixed boxes, whatever these look like: a box may touch another one or
lie within it, it may be empty, or reach to infinity.

For the same reason it makes no difference that `push` does cross off what it has passed.
Both searches see the same boxes ahead, and `turns_push` goes through the recursion with
just that.

The order of a layer needs an invariant about the cursor alone: it is not before the end of
any box that was placed, and no later box starts before it.

## Main definitions

* `Sweep.Turns`: A search through all fixed boxes takes so many turns.
* `Sweep.Before`: The order in which the boxes of a layer are swept.
* `Sweep.Mover.Follows`: A box keeps its distance from another one.

## Theorems

* `turns_push`: A search ends, in no more turns than there are boxes.
* `Turns.unique`: It does so in one way only.
* `sorted_pairwise`: Layers are swept from left to right, and in the order of the boxes.
* `layer_follows`: Boxes that were swept keep their order and their distance.
* `sweep_keeps_order`: What a sweep does with all boxes.
-/

namespace Flowchart

namespace Engine

namespace Sweep

open Single (units)

/-! ## The search -/

/-- One turn of a search: the first box that blocks is passed. -/
def turn? (spacing : Float32) (size : Size) (y : Float32) (fixed : List Box) (x : Float32) :
    Option Float32 :=
  (fixed.find? (blocks size x y)).map fun blocker => blocker.maxX + spacing

/-- A search that starts at one place takes so many turns until nothing blocks, and ends at
    another. Every turn looks at all fixed boxes. -/
inductive Turns (spacing : Float32) (size : Size) (y : Float32) (fixed : List Box) :
    Nat → Float32 → Float32 → Prop
  | stop {x : Float32} : turn? spacing size y fixed x = none →
      Turns spacing size y fixed 0 x x
  | turn {n : Nat} {x x' q : Float32} : turn? spacing size y fixed x = some x' →
      Turns spacing size y fixed n x' q → Turns spacing size y fixed (n + 1) x q

section search

variable {spacing : Float32} {size : Size} {y : Float32} {fixed : List Box}

/-- Nothing is left open in a search. -/
theorem Turns.unique {n n' : Nat} {x q q' : Float32} (h : Turns spacing size y fixed n x q)
    (h' : Turns spacing size y fixed n' x q') : n = n' ∧ q = q' := by
  -- The search is a function: from one place there is one next turn or none.
  induction h generalizing n' with
  | stop hstop =>
      cases h' with
      | stop _ => exact ⟨rfl, rfl⟩
      | turn hturn _ =>
          rw [hstop] at hturn
          cases hturn
  | turn hturn _ ih =>
      cases h' with
      | stop hstop =>
          rw [hstop] at hturn
          cases hturn
      | turn hturn' hrest =>
          rw [hturn, Option.some.injEq] at hturn'
          subst hturn'
          rcases ih hrest with ⟨rfl, rfl⟩
          exact ⟨rfl, rfl⟩

/-- The boxes whose right side is ahead. -/
def ahead (x : Float32) (fixed : List Box) : List Box :=
  fixed.filter fun b => decide (x < b.maxX)

/-- Only boxes ahead can block. -/
theorem find?_ahead (size : Size) (x y : Float32) (fixed : List Box) :
    (ahead x fixed).find? (blocks size x y) = fixed.find? (blocks size x y) := by
  rw [ahead, List.find?_filter]
  congr 1
  funext b
  rw [Bool.eq_iff_iff, decide_eq_true_iff, decide_eq_true_iff]
  exact and_iff_right_of_imp lt_maxX_of_blocks

/-- Further on there is nothing ahead that was not ahead before. -/
theorem ahead_ahead {x x' : Float32} (h : ∀ z, x' < z → x < z) (fixed : List Box) :
    ahead x' (ahead x fixed) = ahead x' fixed := by
  rw [ahead, ahead, ahead, List.filter_filter]
  congr 1
  funext b
  rw [Bool.eq_iff_iff, Bool.and_eq_true, decide_eq_true_iff, decide_eq_true_iff]
  exact and_iff_left_of_imp (h b.maxX)

/-- A box that is not ahead may be crossed off. -/
theorem ahead_erase {x : Float32} {b : Box} (h : ¬x < b.maxX) (fixed : List Box) :
    ahead x (fixed.erase b) = ahead x fixed := by
  rw [ahead, ← List.erase_filter, List.erase_of_not_mem]
  · rfl
  · intro hmem
    exact h (of_decide_eq_true (List.mem_filter.mp hmem).2)

/-- A search through all boxes ends where the push ends that crosses off what it has
    passed, if the two start with the same boxes ahead. -/
theorem turns_push_of_ahead (hnan : spacing.isNaN = false) (hpos : 0 ≤ units spacing)
    {left : List Box} {x : Float32} (h : ahead x left = ahead x fixed) :
    ∃ n ≤ left.length, Turns spacing size y fixed n x (push spacing size y left x) := by
  -- Only boxes ahead can block, so both lists have the same first blocker.
  have hfind : ∀ {left x}, ahead x left = ahead x fixed →
      left.find? (blocks size x y) = fixed.find? (blocks size x y) := by
    intro left x h
    rw [← find?_ahead, h, find?_ahead]
  fun_induction push spacing size y left x with
  | case1 left x hnone =>
      refine ⟨0, Nat.zero_le _, .stop ?_⟩
      rw [turn?, ← hfind h, hnone, Option.map_none]
  | case2 left x blocker hblocker ih =>
      have hlt : x < blocker.maxX := lt_maxX_of_blocks (List.find?_some hblocker)
      rcases Single.le_add_of_lt hlt hnan hpos with ⟨hsum, hle⟩
      have hfurther : ∀ z, blocker.maxX + spacing < z → x < z := by
        intro z hz
        rw [Single.lt_iff] at hlt hz ⊢
        exact ⟨hlt.1, hz.2.1, by omega⟩
      have hpassed : ¬blocker.maxX + spacing < blocker.maxX := by
        rw [Single.lt_iff]
        omega
      -- What is crossed off is behind, and what is ahead from further on is ahead from here.
      have hnext : ahead (blocker.maxX + spacing) (left.erase blocker) =
          ahead (blocker.maxX + spacing) fixed := by
        rw [ahead_erase hpassed, ← ahead_ahead hfurther left, h, ahead_ahead hfurther]
      rcases ih hnext with ⟨n, hn, hturns⟩
      have hmem := List.mem_of_find?_eq_some hblocker
      rw [List.length_erase_of_mem hmem] at hn
      -- One box less to pass pays for this turn.
      have hlength := List.length_pos_of_mem hmem
      refine ⟨n + 1, by omega, .turn ?_ hturns⟩
      rw [turn?, ← hfind h, hblocker, Option.map_some]

/-- A search takes at most as many turns as there are fixed boxes. -/
theorem turns_push (hnan : spacing.isNaN = false) (hpos : 0 ≤ units spacing) (size : Size)
    (y : Float32) (fixed : List Box) (x : Float32) :
    ∃ n ≤ fixed.length, ∀ k q, Turns spacing size y fixed k x q ↔
      k = n ∧ q = push spacing size y fixed x := by
  have hstart : ahead x fixed = ahead x fixed := rfl
  rcases turns_push_of_ahead hnan hpos hstart with ⟨n, hn, hturns⟩
  refine ⟨n, hn, fun k q => ⟨fun h => h.unique hturns, ?_⟩⟩
  rintro ⟨rfl, rfl⟩
  exact hturns

end search

/-! ## The order of a layer -/

/-- The order in which the boxes of a layer are swept: from left to right where they stand,
    and in the order of the boxes where two of them stand at the same place. -/
def Before (positions : List Point) (i j : Nat) : Prop :=
  ∃ p p', positions[i]? = some p ∧ positions[j]? = some p' ∧
    (Single.key p.x < Single.key p'.x ∨ Single.key p.x = Single.key p'.x ∧ i < j)

theorem Before.asymm {positions : List Point} {i j : Nat} (h : Before positions i j) :
    ¬Before positions j i := by
  rintro ⟨q, q', hq, hq', hlt'⟩
  rcases h with ⟨p, p', hp, hp', hlt⟩
  rw [hp, Option.some.injEq] at hq'
  rw [hp', Option.some.injEq] at hq
  subst hq hq'
  omega

theorem before_of_lt {positions : List Point} {i j : Nat} {p p' : Point}
    (hp : positions[i]? = some p) (hp' : positions[j]? = some p') (h : p.x < p'.x) :
    Before positions i j :=
  ⟨p, p', hp, hp', .inl (Single.key_lt_of_lt h)⟩

section members

variable (r : Request) (slots : Slots) (positions : List Point) (rank : Nat)

theorem members_pairwise :
    (members r slots positions rank).Pairwise fun m m' => m.place < m'.place := by
  have hplaces : ((r.items.zip positions).zipIdx).Pairwise fun a b => a.2 < b.2 := by
    rw [← List.pairwise_map (f := Prod.snd), List.zipIdx_map_snd]
    exact List.pairwise_lt_range'
  refine Row.pairwise_filterMap ?_ hplaces
  rintro ⟨⟨item, position⟩, i⟩ m hm
  cases hslot : slots.slotOf i with
  | none =>
      simp only [hslot, reduceCtorEq] at hm
  | some slot =>
      simp only [hslot, Option.ite_none_right_eq_some, Option.some.injEq] at hm
      rw [← hm.2]

/-- A layer is swept in order. -/
theorem sorted_pairwise :
    (sorted (members r slots positions rank)).Pairwise fun m m' =>
      Before positions m.place m'.place := by
  let le : Mover → Mover → Bool := fun m m' => Single.key m.position.x ≤ Single.key m'.position.x
  have htrans : ∀ a b c : Mover, le a b = true → le b c = true → le a c = true := by
    intro a b c hab hbc
    exact decide_eq_true (Int.le_trans (of_decide_eq_true hab) (of_decide_eq_true hbc))
  have htotal : ∀ a b : Mover, (le a b || le b a) = true := by
    intro a b
    rw [Bool.or_eq_true, decide_eq_true_iff, decide_eq_true_iff]
    exact Int.le_total _ _
  -- A stable sort is one that looks at the places in the list as well.
  rw [sorted, ← List.mergeSort_zipIdx, List.pairwise_map]
  have hsorted := List.pairwise_mergeSort (List.zipIdxLE_trans htrans)
    (List.zipIdxLE_total htotal) (members r slots positions rank).zipIdx
  -- No entry is there twice, for each has a place of its own in the list.
  have hnodup : ((members r slots positions rank).zipIdx.mergeSort (List.zipIdxLE le)).Nodup := by
    refine (List.mergeSort_perm _ _).nodup_iff.mpr ?_
    refine List.Nodup.of_map Prod.snd ?_
    rw [List.zipIdx_map_snd]
    exact List.nodup_range'
  refine (hsorted.and hnodup).imp_of_mem ?_
  rintro ⟨m, i⟩ ⟨m', i'⟩ hm hm' ⟨hle, hne⟩
  rw [List.mem_mergeSort, List.mem_zipIdx_iff_getElem?] at hm hm'
  dsimp only at hm hm' ⊢
  rcases mem_members_iff.mp (List.mem_of_getElem? hm) with ⟨_, _, _, hp, _⟩
  rcases mem_members_iff.mp (List.mem_of_getElem? hm') with ⟨_, _, _, hp', _⟩
  refine ⟨_, _, hp, hp', ?_⟩
  unfold List.zipIdxLE at hle
  split at hle
  · rename_i hkey
    have hkey : Single.key m.position.x ≤ Single.key m'.position.x := of_decide_eq_true hkey
    rcases Int.lt_or_eq_of_le hkey with hlt | heq
    · exact .inl hlt
    · -- Equal keys are decided by the places, and the members were listed by their numbers.
      have hback : le m' m = true := decide_eq_true (Int.le_of_eq heq.symm)
      rw [if_pos hback] at hle
      have hi : i ≠ i' := by
        rintro rfl
        rw [hm, Option.some.injEq] at hm'
        exact hne (Prod.ext hm' rfl)
      have hlt : i < i' := Nat.lt_of_le_of_ne (of_decide_eq_true hle) hi
      rcases List.getElem?_eq_some_iff.mp hm with ⟨hlen, rfl⟩
      rcases List.getElem?_eq_some_iff.mp hm' with ⟨hlen', rfl⟩
      exact .inr ⟨heq, List.pairwise_iff_getElem.mp (members_pairwise r slots positions rank)
        i i' hlen hlen' hlt⟩
  · cases hle

end members

/-- A box keeps its distance from another one to its left. -/
def Mover.Follows (spacing : Float32) (m m' : Mover) : Prop :=
  m.position.x + m.size.width + spacing ≤ m'.position.x

/-- Boxes that were swept in one layer follow each other. -/
theorem layer_follows {spacing : Float32} (hnan : spacing.isNaN = false) (hpos : 0 ≤ units spacing)
    (fixed : List Box) {ms : List Mover}
    (hms : ∀ m ∈ ms, m.position.x.isFinite = true ∧ 0 ≤ m.size.width) (cursor : Float32) :
    (layer spacing fixed cursor ms).Pairwise (Mover.Follows spacing) := by
  induction ms generalizing cursor with
  | nil => exact List.Pairwise.nil
  | cons m ms ih =>
      rcases List.forall_mem_cons.mp hms with ⟨⟨hfinite, hwidth⟩, hms⟩
      rw [layer]
      refine List.Pairwise.cons (fun m' hm' => ?_) (ih hms _)
      -- The box starts at the cursor or further right, is pushed further, and moves the cursor
      -- behind it; whatever comes later starts at that cursor.
      rcases Single.max_spec (Single.isNaN_of_isFinite hfinite) cursor with ⟨hstart, hle, _⟩
      rcases (Single.le_iff _ _).mp (le_push hnan hpos m.size m.position.y fixed hstart) with
        ⟨_, hx, hpush⟩
      have hlow := Single.neg_top_lt_units hfinite
      rcases le_cursor hnan hpos hx (by omega) hwidth with ⟨hnext, hend, hmore⟩
      rcases le_of_mem_layer hnan hpos fixed (fun m hm => (hms m hm).2) hnext (by omega) m' hm' with
        ⟨hx', hafter⟩
      exact (Single.le_iff _ _).mpr ⟨hnext, hx', hafter⟩

section clear

variable {r : Request} {slots : Slots} {positions : List Point} {i j : Nat} (spacing : Float32)
  {item item' : Item} (hitem : r.items[i]? = some item) (hitem' : r.items[j]? = some item')
  {p p' : Point} (hp : positions[i]? = some p) (hp' : positions[j]? = some p')
  {slot slot' : Slot} (hslot : slots.slotOf i = some slot) (hslot' : slots.slotOf j = some slot')

include hitem hp hslot hitem' hp' hslot'

/-- Of two boxes of one layer the later one follows. -/
theorem clear_follows (hwidths : ∀ item ∈ r.items, 0 ≤ item.size.width)
    (hfinite : ∀ p ∈ positions, p.x.isFinite = true) (hfixed : (fixedBoxes r).isEmpty = false)
    (hrank : slot.rank = slot'.rank) (hbefore : Before positions i j) :
    ∃ q q', (clear r slots spacing positions)[i]? = some q ∧
      (clear r slots spacing positions)[j]? = some q' ∧
      (⟨i, q, item.size⟩ : Mover).Follows (Single.max spacing 0) ⟨j, q', item'.size⟩ := by
  rcases exists_mem_layer spacing hfixed hitem hp hslot with ⟨m, hm, hpushed, hget⟩
  rcases exists_mem_layer spacing hfixed hitem' hp' hslot' with ⟨m', hm', hpushed', hget'⟩
  refine ⟨_, _, hget, hget', ?_⟩
  rw [← hrank] at hm'
  rcases Single.max_zero spacing with ⟨hnan, hpos⟩
  -- What is known of all boxes holds of those of this layer.
  have hmovers : ∀ m ∈ sorted (members r slots positions slot.rank),
      m.position.x.isFinite = true ∧ 0 ≤ m.size.width := by
    intro m hm
    rcases mem_members_iff.mp (mem_sorted_iff.mp hm) with ⟨item, _, hitem, hp, hsize, _⟩
    rw [hsize]
    exact ⟨hfinite _ (List.mem_of_getElem? hp), hwidths item (List.mem_of_getElem? hitem)⟩
  -- The layer as it was swept has two orders: by spacing and, place by place, the one before the
  -- sweep.
  have hfollows := layer_follows hnan hpos (fixedBoxes r) hmovers Single.negInfinity
  have hplaces : (layer (Single.max spacing 0) (fixedBoxes r) Single.negInfinity
      (sorted (members r slots positions slot.rank))).Pairwise fun m m' =>
        Before positions m.place m'.place := by
    rw [← List.pairwise_map, Row.map_eq_of_forall₂ (layer_pushed _ _ _ _) Mover.place
      fun _ _ h => h.place_eq, List.pairwise_map]
    exact sorted_pairwise r slots positions slot.rank
  have hplace : m.place = i := hpushed.place_eq
  have hplace' : m'.place = j := hpushed'.place_eq
  -- The later of the two in one order is the later one in the other.
  have hfollow : m.Follows (Single.max spacing 0) m' :=
    Row.rel_of_pairwise_and (hplaces.and hfollows) Before.asymm hm hm' (by rwa [hplace, hplace'])
  rw [Mover.Follows, hpushed.size_eq] at hfollow
  exact hfollow

end clear

end Sweep

end Engine

open Engine

/-- The search of a sweep ends for every box, from everywhere and among all fixed boxes that
    there may be, in no more turns than there are of these. Boxes without slots stay where
    they are, and so do all fixed ones, since slots are for free boxes. Every box that has a
    slot ends where such a search ends, at the height where it was and not to the left. And if
    a box is fixed, no width is negative and places are finite, the boxes of a layer keep their
    order from left to right and stand at least the spacing apart. -/
theorem sweep_keeps_order (r : Request) (slots : Slots) (spacing : Float32)
    (positions : List Point) :
    let gap := Single.max spacing 0
    let cleared := Sweep.clear r slots spacing positions
    (∀ (fixed : List Box) (size : Size) (y x : Float32), ∃ n ≤ fixed.length, ∀ k q,
      Sweep.Turns gap size y fixed k x q ↔ k = n ∧ q = Sweep.push gap size y fixed x) ∧
    (∀ i, slots.slotOf i = none → cleared[i]? = positions[i]?) ∧
    (∀ {layering links options}, Slots.ofRequest layering r links options = .ok slots →
      slots.Free r) ∧
    (slots.Free r → ∀ i, r.isFixed i = true → cleared[i]? = positions[i]?) ∧
    (∀ {i item p slot}, r.items[i]? = some item → positions[i]? = some p →
      slots.slotOf i = some slot →
      ∃ q, cleared[i]? = some q ∧ q.y = p.y ∧ (p.x.isNaN = false → p.x ≤ q.x) ∧
        ∃ n ≤ (Sweep.fixedBoxes r).length, ∃ x,
          Sweep.Turns gap item.size p.y (Sweep.fixedBoxes r) n x q.x) ∧
    (∀ {i j p p'}, positions[i]? = some p → positions[j]? = some p' → p.x < p'.x →
      Sweep.Before positions i j) ∧
    ((Sweep.fixedBoxes r).isEmpty = false → (∀ item ∈ r.items, 0 ≤ item.size.width) →
      (∀ p ∈ positions, p.x.isFinite = true) →
      ∀ {i j item item' slot slot'}, r.items[i]? = some item → r.items[j]? = some item' →
      slots.slotOf i = some slot → slots.slotOf j = some slot' → slot.rank = slot'.rank →
      Sweep.Before positions i j →
      ∃ q q', cleared[i]? = some q ∧ cleared[j]? = some q' ∧ q.x ≤ q'.x ∧
        q.x + item.size.width + gap ≤ q'.x) := by
  intro gap cleared
  rcases Single.max_zero spacing with ⟨hnan, hpos⟩
  refine ⟨fun fixed size y x => Sweep.turns_push hnan hpos size y fixed x,
    fun i hslot => Sweep.getElem?_clear_of_slotOf hslot spacing positions, Slots.free_ofRequest, ?_,
    ?_, Sweep.before_of_lt, ?_⟩
  · -- A fixed box has no slot, and without one nothing is moved.
    intro hfree i hfixed
    refine Sweep.getElem?_clear_of_slotOf (Option.eq_none_iff_forall_ne_some.mpr ?_) spacing
      positions
    intro slot hslot
    rw [hfree hslot] at hfixed
    cases hfixed
  · intro i item p slot hitem hp hslot
    rcases Sweep.clear_pushed spacing hitem hp hslot with ⟨q, hq, hpushed⟩
    -- The end of the push is the end of the search from the same start.
    rcases hpushed.exists_push with ⟨x, _, hpush⟩
    rcases Sweep.turns_push hnan hpos item.size p.y (Sweep.fixedBoxes r) x with ⟨n, hn, hturns⟩
    exact ⟨q, hq, hpushed.y_eq, hpushed.le hnan hpos, n, hn, x, (hturns n q.x).mpr ⟨rfl, hpush⟩⟩
  · intro hfixed hwidths hfinite i j item item' slot slot' hitem hitem' hslot hslot' hrank hbefore
    rcases hbefore with ⟨p, p', hp, hp', hkey⟩
    -- Spacing comes from the cursor; the order of the left sides follows once widths add up
    -- forward.
    rcases Sweep.clear_follows spacing hitem hitem' hp hp' hslot hslot' hwidths hfinite hfixed hrank
      ⟨p, p', hp, hp', hkey⟩ with ⟨q, q', hq, hq', hfollows⟩
    refine ⟨q, q', hq, hq', ?_, hfollows⟩
    -- The box was not to the left of a finite place, and its width does not lead back.
    rcases Sweep.clear_pushed spacing hitem hp hslot with ⟨q₀, hq₀, hpushed⟩
    rw [Option.some.inj (hq.symm.trans hq₀)] at hfollows ⊢
    have hp := hfinite p (List.mem_of_getElem? hp)
    rcases (Single.le_iff _ _).mp (hpushed.le hnan hpos (Single.isNaN_of_isFinite hp)) with
      ⟨_, hx, hle⟩
    have hlow := Single.neg_top_lt_units hp
    rcases Sweep.le_cursor hnan hpos hx (by dsimp only at hle ⊢; omega)
      (hwidths item (List.mem_of_getElem? hitem)) with ⟨hend, hspaced, hwide⟩
    exact Single.le_trans ((Single.le_iff _ _).mpr ⟨hx, hend, Int.le_trans hwide hspaced⟩) hfollows

/-- A box is pushed past a fixed one, and pushes the next box of its layer. -/
theorem sweep_keeps_order_pushed :
    let item (id : String) (fixed : Option Point) : Item := ⟨id, id, ⟨120, 60⟩, fixed⟩
    let r : Request := ⟨[item "A" none, item "B" none, item "Pin" (some ⟨60, 40⟩)], []⟩
    let slots : Slots := #[some ⟨0, 110⟩, some ⟨0, 310⟩, none]
    let positions : List Point := [⟨50, 50⟩, ⟨250, 50⟩, ⟨60, 40⟩]
    let cleared := Sweep.clear r slots 80 positions
    slots.Free r ∧ (Sweep.fixedBoxes r).isEmpty = false ∧ (∀ item ∈ r.items, 0 ≤ item.size.width) ∧
      (∀ p ∈ positions, p.x.isFinite = true) ∧ cleared = [⟨260, 50⟩, ⟨460, 50⟩, ⟨60, 40⟩] ∧
      cleared[2]? = positions[2]? ∧
      ∃ q q', cleared[0]? = some q ∧ cleared[1]? = some q' ∧ q.x ≤ q'.x ∧
        q.x + 120 + Single.max 80 0 ≤ q'.x := by
  intro item r slots positions cleared
  have hfree : slots.Free r := by
    intro i slot hslot
    match i with
    | 0 | 1 | _ + 3 => rfl
    | 2 => cases hslot
  have hfixed : (Sweep.fixedBoxes r).isEmpty = false := by decide +kernel
  have hwidths : ∀ item ∈ r.items, 0 ≤ item.size.width := by decide +kernel
  have hfinite : ∀ p ∈ positions, p.x.isFinite = true := by decide +kernel
  -- The boxes stand in order already, so that the sort can be evaluated.
  have hsorted : Sweep.sorted (Sweep.members r slots positions 0) =
      Sweep.members r slots positions 0 := List.mergeSort_of_pairwise (by decide +kernel)
  have hheight : Sweep.height slots = 1 := by decide +kernel
  have hcleared : cleared = [⟨260, 50⟩, ⟨460, 50⟩, ⟨60, 40⟩] := by
    change Sweep.clear r slots 80 positions = _
    unfold Sweep.clear
    rw [if_neg (by rw [hfixed]; exact Bool.false_ne_true), hheight, List.range_one]
    dsimp only
    rw [List.flatMap_singleton, hsorted]
    decide +kernel
  have hA : r.items[0]? = some (item "A" none) := rfl
  have hB : r.items[1]? = some (item "B" none) := rfl
  have hslot : slots.slotOf 0 = some ⟨0, 110⟩ := rfl
  have hslot' : slots.slotOf 1 = some ⟨0, 310⟩ := rfl
  have hlt : (50 : Float32) < 250 := by decide +kernel
  have hpin : r.isFixed 2 = true := rfl
  -- The theorem is used for the fixed box and for the two free ones.
  rcases sweep_keeps_order r slots 80 positions with ⟨_, _, _, hstay, _, hbefore, horder⟩
  have hab : Sweep.Before positions 0 1 := hbefore rfl rfl hlt
  have hpinned : cleared[2]? = positions[2]? := hstay hfree 2 hpin
  rcases horder hfixed hwidths hfinite hA hB hslot hslot' rfl hab with
    ⟨q, q', hq, hq', hle, hfollows⟩
  exact ⟨hfree, hfixed, hwidths, hfinite, hcleared, hpinned, q, q', hq, hq', hle, hfollows⟩

end Flowchart
