import Flowchart.Engine.Layered
import Flowchart.Proofs.Row
import Flowchart.Proofs.Single.Exact

/-!
# Sweeps Leave Free Boxes Clear

A free box that is blocked is pushed past what blocks it and may be blocked
again by something else. That it ends up clear of all fixed boxes at once is
not a matter of the last push: the blockers before it are forgotten. It rests
on the pushes leading in one direction only. A push ends at or beyond the right
side of its blocker, no later push leads back, and so a blocker once passed is
never met again. `push_spec` carries both halves of this through the recursion.

The direction is a matter of rounding. The spacing is not negative, and by
`Single.le_add` adding it leads nowhere smaller, even where it is lost in the
digits of a large coordinate or ends at infinity. A box without a number for a
coordinate, finally, meets nothing.

## Main definitions

* `Sweep.Mover.Clear`: A free box meets no fixed one.
* `Sweep.Mover.Pushed`: What a sweep does with a free box.

## Theorems

* `push_spec`: A push ends clear of every fixed box, and not to the left.
* `layer_pushed`: A sweep pushes all boxes of a layer.
* `clear_spec`: And all boxes that have a slot.
* `Layered.length_positions`: Every box goes somewhere.
* `Layered.positions_clear`: The engine puts free boxes clear of fixed ones.
-/

namespace Flowchart

namespace Engine

namespace Sweep

/-- What blocks a box reaches beyond its left side. -/
theorem lt_maxX_of_blocks {size : Size} {x y : Float32} {b : Box}
    (h : blocks size x y b = true) : x < b.maxX := by
  simp only [blocks, Box.meets, Box.ofTopLeft, Bool.and_eq_true] at h
  exact of_decide_eq_true h.1.1.1

/-- A push ends clear of every fixed box, and not to the left of where it
    began. -/
theorem push_spec {spacing : Float32} (hnan : spacing.isNaN = false)
    (hpos : 0 ≤ Single.units spacing) (size : Size) (y : Float32) (fixed : List Box)
    (x : Float32) :
    (∀ b ∈ fixed, blocks size (push spacing size y fixed x) y b = false) ∧
      ¬push spacing size y fixed x < x := by
  fun_induction push spacing size y fixed x with
  | case1 fixed x hfind =>
      -- Nothing blocks the box, so it stays.
      refine ⟨fun b hb => ?_, Single.lt_irrefl x⟩
      exact Bool.eq_false_of_not_eq_true (List.find?_eq_none.mp hfind b hb)
  | case2 fixed x blocker hfind ih =>
      have hlt : x < blocker.maxX := lt_maxX_of_blocks (List.find?_some hfind)
      rcases Single.le_add_of_lt hlt hnan hpos with ⟨hsum, hle⟩
      generalize push spacing size y (fixed.erase blocker) (blocker.maxX + spacing) = r at ih
      -- The push ends beyond the blocker, and so beyond where it began.
      have hbeyond : ¬r < blocker.maxX := fun h => ih.2 (Single.lt_of_lt_of_le h hsum hle)
      refine ⟨fun b hb => ?_, fun h => hbeyond (Single.lt_trans h hlt)⟩
      by_cases heq : b = blocker
      · -- The blocker itself is no longer looked for, but it was passed.
        rw [heq]
        exact Bool.eq_false_of_not_eq_true fun h => hbeyond (lt_maxX_of_blocks h)
      · exact ih.1 b ((List.mem_erase_of_ne heq).mpr hb)

/-- A free box meets no fixed one. -/
def Mover.Clear (fixed : List Box) (m : Mover) : Prop :=
  ∀ b ∈ fixed, (Box.ofTopLeft m.position m.size).meets b = false

/-- What a sweep does with a box of a layer. It is pushed sideways, from where it was or
    from somewhere further to the right. -/
structure Mover.Pushed (spacing : Float32) (fixed : List Box) (m m' : Mover) : Prop where
  place_eq : m'.place = m.place
  size_eq : m'.size = m.size
  y_eq : m'.position.y = m.position.y
  exists_push : ∃ x, (m.position.x.isNaN = false → m.position.x ≤ x) ∧
    m'.position.x = push spacing m.size m.position.y fixed x

theorem Mover.Pushed.clear {spacing : Float32} (hnan : spacing.isNaN = false)
    (hpos : 0 ≤ Single.units spacing) {fixed : List Box} {m m' : Mover}
    (h : m.Pushed spacing fixed m') : m'.Clear fixed := by
  rcases h.exists_push with ⟨x, _, hpush⟩
  intro b hb
  have hclear := (push_spec hnan hpos m.size m.position.y fixed x).1 b hb
  rw [← hpush, ← h.y_eq, ← h.size_eq] at hclear
  exact hclear

/-- A sweep pushes all boxes of a layer, and keeps which boxes they are. -/
theorem layer_pushed (spacing : Float32) (fixed : List Box) (cursor : Float32) (ms : List Mover) :
    List.Forall₂ (Mover.Pushed spacing fixed) ms (layer spacing fixed cursor ms) := by
  induction ms generalizing cursor with
  | nil => exact List.Forall₂.nil
  | cons m ms ih =>
      -- The cursor only says where the push begins.
      refine List.Forall₂.cons ⟨rfl, rfl, rfl, _, fun hx => ?_, rfl⟩ (ih _)
      rcases Single.max_spec hx cursor with ⟨hnan, hle, _⟩
      exact (Single.le_iff _ _).mpr ⟨hx, hnan, hle⟩

/-! ## From layers to positions -/

theorem getElem?_foldl_set_of_not_mem {ms : List Mover} {i : Nat} (h : ∀ m ∈ ms, m.place ≠ i)
    (ps : List Point) : (ms.foldl (fun ps m => ps.set m.place m.position) ps)[i]? = ps[i]? := by
  induction ms generalizing ps with
  | nil => rfl
  | cons m ms ih =>
      rw [List.foldl_cons, ih fun x hx => h x (List.mem_cons_of_mem m hx),
        List.getElem?_set_ne (h m List.mem_cons_self)]

/-- The position of a box is that of one of the movers with its place. -/
theorem getElem?_foldl_set {ms : List Mover} {i : Nat} (h : ∃ m ∈ ms, m.place = i)
    {ps : List Point} (hi : i < ps.length) :
    ∃ m ∈ ms, m.place = i ∧
      (ms.foldl (fun ps m => ps.set m.place m.position) ps)[i]? = some m.position := by
  induction ms generalizing ps with
  | nil =>
      rcases h with ⟨m, hm, _⟩
      exact absurd hm List.not_mem_nil
  | cons m ms ih =>
      rw [List.foldl_cons]
      by_cases hlater : ∃ x ∈ ms, x.place = i
      · have hi' : i < (ps.set m.place m.position).length := by
          rw [List.length_set]
          exact hi
        rcases ih hlater hi' with ⟨x, hx, hplace, hget⟩
        exact ⟨x, List.mem_cons_of_mem m hx, hplace, hget⟩
      · -- Nothing after the first mover has this place, so its position stays.
        rcases h with ⟨x, hx, hplace⟩
        rcases List.mem_cons.mp hx with rfl | hx
        · refine ⟨x, List.mem_cons_self, hplace, ?_⟩
          rw [getElem?_foldl_set_of_not_mem fun y hy hi => hlater ⟨y, hy, hi⟩, hplace,
            List.getElem?_set_self hi]
        · exact absurd ⟨x, hx, hplace⟩ hlater

/-- The height that is counted up covers what it started from and every slot. -/
theorem foldl_height (slots : List (Option Slot)) (n : Nat) :
    let height := slots.foldl (fun n slot =>
      match slot with
      | some slot => max n (slot.rank + 1)
      | none => n) n
    n ≤ height ∧ ∀ slot, some slot ∈ slots → slot.rank < height := by
  induction slots generalizing n with
  | nil => exact ⟨Nat.le_refl n, fun slot h => absurd h List.not_mem_nil⟩
  | cons s slots ih =>
      cases s with
      | none =>
          rw [List.foldl_cons]
          refine ⟨(ih n).1, fun slot h => ?_⟩
          rcases List.mem_cons.mp h with h | h
          · exact absurd h (by simp only [reduceCtorEq, not_false_eq_true])
          · exact (ih n).2 slot h
      | some s =>
          rw [List.foldl_cons]
          -- The slot counts at once, and a maximum never falls back.
          have hstep := ih (max n (s.rank + 1))
          refine ⟨Nat.le_trans (Nat.le_max_left _ _) hstep.1, fun slot h => ?_⟩
          rcases List.mem_cons.mp h with h | h
          · rw [Option.some.inj h]
            exact Nat.lt_of_lt_of_le (Nat.le_max_right n (s.rank + 1)) hstep.1
          · exact hstep.2 slot h

theorem mem_of_slotOf {slots : Slots} {i : Nat} {slot : Slot} (h : slots.slotOf i = some slot) :
    some slot ∈ slots.toList := by
  rw [Slots.slotOf, Array.getD_eq_getD_getElem?] at h
  cases hget : slots[i]? with
  | none =>
      rw [hget] at h
      exact absurd h (by simp only [Option.getD_none, reduceCtorEq, not_false_eq_true])
  | some s =>
      rw [hget, Option.getD_some] at h
      rw [← h]
      exact Array.mem_toList_iff.mpr (Array.mem_of_getElem? hget)

/-- Every slot is on one of the layers that are swept. -/
theorem rank_lt_height {slots : Slots} {i : Nat} {slot : Slot}
    (h : slots.slotOf i = some slot) : slot.rank < height slots := by
  unfold height
  rw [← Array.foldl_toList]
  exact (foldl_height slots.toList 0).2 slot (mem_of_slotOf h)

theorem mem_members_iff {r : Request} {slots : Slots} {positions : List Point} {rank : Nat}
    {m : Mover} :
    m ∈ members r slots positions rank ↔ ∃ item slot, r.items[m.place]? = some item ∧
      positions[m.place]? = some m.position ∧ m.size = item.size ∧
      slots.slotOf m.place = some slot ∧ slot.rank = rank := by
  unfold members
  rw [List.mem_filterMap]
  constructor
  · rintro ⟨⟨⟨item, position⟩, i⟩, hmem, hm⟩
    rw [List.mem_zipIdx_iff_getElem?, List.getElem?_zip_eq_some] at hmem
    -- A box is kept if it has a slot, and the slot is in this layer.
    cases hslot : slots.slotOf i with
    | none =>
        simp only [hslot, reduceCtorEq] at hm
    | some slot =>
        simp only [hslot, Option.ite_none_right_eq_some, Option.some.injEq] at hm
        rcases hm with ⟨hrank, rfl⟩
        exact ⟨item, slot, hmem.1, hmem.2, rfl, hslot, hrank⟩
  · rintro ⟨item, slot, hitem, hposition, hsize, hslot, hrank⟩
    refine ⟨⟨⟨item, m.position⟩, m.place⟩, ?_, ?_⟩
    · rw [List.mem_zipIdx_iff_getElem?, List.getElem?_zip_eq_some]
      exact ⟨hitem, hposition⟩
    · simp only [hslot, if_pos hrank, ← hsize]

theorem mem_sorted_iff {ms : List Mover} {m : Mover} : m ∈ sorted ms ↔ m ∈ ms :=
  (List.mergeSort_perm ms _).mem_iff

/-- The free boxes of all layers after a sweep. -/
def swept (r : Request) (slots : Slots) (spacing : Float32) (positions : List Point) :
    List Mover :=
  (List.range (height slots)).flatMap fun rank =>
    layer (Single.max spacing 0) (fixedBoxes r) Single.negInfinity
      (sorted (members r slots positions rank))

section swept

variable {r : Request} {slots : Slots} {positions : List Point} {i : Nat}

/-- Every box that has a slot is swept. -/
theorem exists_mem_swept (spacing : Float32) {item : Item} (hitem : r.items[i]? = some item)
    {p : Point} (hp : positions[i]? = some p) {slot : Slot} (hslot : slots.slotOf i = some slot) :
    ∃ m ∈ swept r slots spacing positions, m.place = i := by
  have hm : (⟨i, p, item.size⟩ : Mover) ∈ sorted (members r slots positions slot.rank) := by
    rw [mem_sorted_iff, mem_members_iff]
    exact ⟨item, slot, hitem, hp, rfl, hslot, rfl⟩
  rcases Row.exists_right_of_mem (layer_pushed (Single.max spacing 0) (fixedBoxes r)
    Single.negInfinity _) hm with ⟨m, hm, hpushed⟩
  refine ⟨m, List.mem_flatMap.mpr ⟨slot.rank, ?_, hm⟩, hpushed.place_eq⟩
  exact List.mem_range.mpr (rank_lt_height hslot)

/-- If there is a fixed box, the position of a box that has a slot comes from the
    sweep of its layer. -/
theorem exists_mem_layer (spacing : Float32) (hfixed : (fixedBoxes r).isEmpty = false) {item : Item}
    (hitem : r.items[i]? = some item) {p : Point} (hp : positions[i]? = some p) {slot : Slot}
    (hslot : slots.slotOf i = some slot) :
    ∃ m ∈ layer (Single.max spacing 0) (fixedBoxes r) Single.negInfinity
        (sorted (members r slots positions slot.rank)),
      (⟨i, p, item.size⟩ : Mover).Pushed (Single.max spacing 0) (fixedBoxes r) m ∧
        (clear r slots spacing positions)[i]? = some m.position := by
  -- Some mover wrote the position last, and it comes from the sweep of some layer.
  rcases getElem?_foldl_set (exists_mem_swept spacing hitem hp hslot)
    (List.getElem?_eq_some_iff.mp hp).1 with ⟨m, hm, rfl, hget⟩
  rcases List.mem_flatMap.mp hm with ⟨rank, _, hm⟩
  rcases Row.exists_left_of_mem (layer_pushed _ _ _ _) hm with ⟨m₀, hm₀, hpushed⟩
  rcases mem_members_iff.mp (mem_sorted_iff.mp hm₀) with
    ⟨item', slot', hitem', hp', hs, hslot', rfl⟩
  -- There is one box, one position and one slot at a place, so it is this layer.
  rw [← hpushed.place_eq] at hitem' hp' hslot'
  rw [hitem] at hitem'
  rw [hp] at hp'
  rw [hslot] at hslot'
  rw [Option.some.inj hslot', Option.some.inj hitem', Option.some.inj hp', ← hs,
    hpushed.place_eq]
  refine ⟨m, hm, hpushed, ?_⟩
  unfold clear
  rw [if_neg (by rw [hfixed]; exact Bool.false_ne_true), ← hpushed.place_eq]
  exact hget

/-- Every box that has a slot is pushed, which leaves it alone if nothing is fixed. -/
theorem clear_pushed (spacing : Float32) {item : Item} (hitem : r.items[i]? = some item)
    {p : Point} (hp : positions[i]? = some p) {slot : Slot} (hslot : slots.slotOf i = some slot) :
    ∃ q, (clear r slots spacing positions)[i]? = some q ∧
      (⟨i, p, item.size⟩ : Mover).Pushed (Single.max spacing 0) (fixedBoxes r)
        ⟨i, q, item.size⟩ := by
  cases hfixed : (fixedBoxes r).isEmpty with
  | true =>
      unfold clear
      rw [if_pos hfixed, List.isEmpty_iff.mp hfixed]
      -- Without fixed boxes a push ends where it begins.
      refine ⟨p, hp, rfl, rfl, rfl, p.x, Single.le_refl, ?_⟩
      unfold push
      rfl
  | false =>
      rcases exists_mem_layer spacing hfixed hitem hp hslot with ⟨m, _, hpushed, hget⟩
      exact ⟨m.position, hget, rfl, rfl, hpushed.y_eq, hpushed.exists_push⟩

/-- Every box that has a slot ends clear of all fixed boxes. -/
theorem clear_spec (spacing : Float32) {item : Item} (hitem : r.items[i]? = some item)
    {p : Point} (hp : positions[i]? = some p) {slot : Slot} (hslot : slots.slotOf i = some slot) :
    ∃ q, (clear r slots spacing positions)[i]? = some q ∧
      ∀ b ∈ fixedBoxes r, (Box.ofTopLeft q item.size).meets b = false := by
  rcases clear_pushed spacing hitem hp hslot with ⟨q, hq, hpushed⟩
  rcases Single.max_zero spacing with ⟨hnan, hpos⟩
  exact ⟨q, hq, hpushed.clear hnan hpos⟩

end swept

theorem length_clear (r : Request) (slots : Slots) (spacing : Float32) (ps : List Point) :
    (clear r slots spacing ps).length = ps.length := by
  have hset : ∀ (ms : List Mover) (ps : List Point),
      (ms.foldl (fun ps m => ps.set m.place m.position) ps).length = ps.length := by
    intro ms
    induction ms with
    | nil => exact fun _ => rfl
    | cons m ms ih =>
        intro ps
        rw [List.foldl_cons, ih, List.length_set]
  unfold clear
  dsimp only
  split
  · rfl
  · exact hset _ _

end Sweep

namespace Layered

/-- Every box goes somewhere. -/
theorem length_positions {r : Request} {slots : Slots} {options : Options} {ps : List Point}
    (h : positions r slots options = .ok ps) : ps.length = r.items.length := by
  rcases Row.bind_eq_ok_iff.mp h with ⟨raw, hraw, hps⟩
  rw [← Except.ok.inj hps, Sweep.length_clear, ← ((Row.mapM_eq_ok_iff _ _ _).mp hraw).length_eq,
    List.length_zipIdx]

/-- The layered engine puts every free box clear of all fixed boxes. -/
theorem positions_clear {r : Request} {slots : Slots} {options : Options} {ps : List Point}
    (h : positions r slots options = .ok ps) {i : Nat} {item : Item}
    (hitem : r.items[i]? = some item) (hfree : item.fixed = none) :
    ∃ q, ps[i]? = some q ∧
      ∀ b ∈ Sweep.fixedBoxes r, (Box.ofTopLeft q item.size).meets b = false := by
  rcases Row.bind_eq_ok_iff.mp h with ⟨raw, hraw, hps⟩
  have hrow := (Row.mapM_eq_ok_iff _ _ _).mp hraw
  have hzip : r.items.zipIdx[i]? = some (item, i) := by
    rw [List.getElem?_zipIdx, hitem, Option.map_some, Nat.zero_add]
  rcases Row.exists_right_of_getElem? hrow hzip with ⟨p, hp, hposition⟩
  rw [← Except.ok.inj hps]
  -- A free box without a slot would have failed.
  cases hslot : slots.slotOf i with
  | none =>
      simp only [rawPosition, hfree, hslot, reduceCtorEq] at hposition
  | some slot => exact Sweep.clear_spec options.nodeSpacing hitem hp hslot

end Layered

end Engine

end Flowchart
