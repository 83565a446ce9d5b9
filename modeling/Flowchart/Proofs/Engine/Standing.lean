import Flowchart.Proofs.Engine.Part

/-!
# Slots Stand Apart

Slots are given from left to right, part after part, and then to the boxes that
are left over. After each step two things hold of the free boxes that have a
slot by then: those of one layer stand apart, and all of them stand before the
place where the next step begins. `Standing` says both, and a step that keeps
to the right of that place, and keeps what it adds apart, preserves it.

Only middles that are finite count. If the place is not finite, no later middle
is.

## Main definitions

* `Slots.Standing`: Free boxes of one layer stand apart, before a place.
* `Slots.Adds`: What a step adds stands apart, between two places.
* `Slots.operations`: What is computed to give all slots.

## Theorems

* `Standing.write`: A step that adds what stands apart preserves it.
* `adds_part`, `adds_alone`: A part is such a step, and a box that is left over.
* `standing_ofRequest`: In the end all free boxes stand apart.
-/

namespace Flowchart

namespace Engine

open Single (units Operation)

/-- The width of a free box. -/
def Request.FreeWidth (r : Request) (i : Nat) (w : Int) : Prop :=
  ∃ item, r.items[i]? = some item ∧ item.fixed = none ∧ units item.size.width = w

namespace Slots

/-- Free boxes of one layer stand apart, and all of them before `left`. -/
structure Standing (r : Request) (slots : Slots) (left : Float32) : Prop where
  apart : ∀ {i j v w s t}, i ≠ j → r.FreeWidth i v → r.FreeWidth j w →
    slotOf slots i = some s → slotOf slots j = some t → s.rank = t.rank →
    s.center.isFinite = true → t.center.isFinite = true →
    v + w ≤ 2 * (units s.center - units t.center).natAbs
  before : ∀ {i w s}, r.FreeWidth i w → slotOf slots i = some s → s.center.isFinite = true →
    left.isFinite = true → 2 * units s.center + w ≤ 2 * units left

/-- What is added stands apart, after `left` and before `next`. -/
structure Adds (r : Request) (left next : Float32) (ws : List (Nat × Slot)) : Prop where
  advance : next.isFinite = true → left.isFinite = true ∧ units left ≤ units next
  after : ∀ {i w s}, r.FreeWidth i w → (i, s) ∈ ws → s.center.isFinite = true →
    left.isFinite = true ∧ 2 * units left + w ≤ 2 * units s.center
  before : ∀ {i w s}, r.FreeWidth i w → (i, s) ∈ ws → s.center.isFinite = true →
    next.isFinite = true → 2 * units s.center + w ≤ 2 * units next
  apart : ∀ {i j v w s t}, i ≠ j → r.FreeWidth i v → r.FreeWidth j w → (i, s) ∈ ws →
    (j, t) ∈ ws → s.rank = t.rank → s.center.isFinite = true → t.center.isFinite = true →
    v + w ≤ 2 * (units s.center - units t.center).natAbs

variable {r : Request} {slots : Slots} {left next : Float32} {ws : List (Nat × Slot)}

/-- A step that adds what stands apart leaves all boxes apart. -/
theorem Standing.write (h : Standing r slots left) (ha : Adds r left next ws) :
    Standing r (slots.write ws) next := by
  -- What was there before is to the left of what is added.
  have hcross : ∀ {i j v w s t}, r.FreeWidth i v → r.FreeWidth j w → slotOf slots i = some s →
      (j, t) ∈ ws → s.center.isFinite = true → t.center.isFinite = true →
      v + w ≤ 2 * (units s.center - units t.center).natAbs := by
    intro i j v w s t hi hj hs ht hsf htf
    rcases ha.after hj ht htf with ⟨hlf, hafter⟩
    have hbefore := h.before hi hs hsf hlf
    omega
  refine ⟨fun hne hi hj hs ht hrank hsf htf => ?_, fun hi hs hsf hnf => ?_⟩
  · -- Two boxes were both there, or both are added, or one is of either kind.
    rcases slotOf_write_eq_some hs with hs | hs <;> rcases slotOf_write_eq_some ht with ht | ht
    · exact h.apart hne hi hj hs ht hrank hsf htf
    · exact hcross hi hj hs ht hsf htf
    · have hapart := hcross hj hi ht hs htf hsf
      omega
    · exact ha.apart hne hi hj hs ht hrank hsf htf
  · rcases slotOf_write_eq_some hs with hs | hs
    · rcases ha.advance hnf with ⟨hlf, hle⟩
      have hbefore := h.before hi hs hsf hlf
      omega
    · exact ha.before hi hs hsf hnf

/-- Before the first step no box has a slot. -/
theorem standing_empty (r : Request) (n : Nat) (left : Float32) :
    Standing r (Array.replicate n none) left := by
  have hnone : ∀ {i s}, slotOf (Array.replicate n none) i = some s → False := by
    intro i s h
    rw [slotOf_eq_some_iff, Array.getElem?_replicate] at h
    split at h <;> simp only [reduceCtorEq, Option.some.injEq] at h
  exact ⟨fun _ _ _ hs => (hnone hs).elim, fun _ hs => (hnone hs).elim⟩

/-! ## Parts -/

section part

variable {m : Measure} (links : List Ends) {seats : List Seat}

theorem adds_part (hm : m.Nonneg) (hwidths : ∀ {i w}, r.FreeWidth i w → w ≤ units m.widest)
    (hspread : Spread seats) (hexact : ∀ op ∈ partOperations m left seats, op.Exact) :
    Adds r left (m.next left (lastColumn seats))
      (seats.map fun seat => (seat.place, slotAt m links left seats seat)) := by
  have hmem : ∀ {i s},
      (i, s) ∈ seats.map (fun seat => (seat.place, slotAt m links left seats seat)) →
      ∃ seat ∈ seats, seat.place = i ∧ slotAt m links left seats seat = s := by
    intro i s h
    rcases List.mem_map.mp h with ⟨seat, hseat, heq⟩
    exact ⟨seat, hseat, (Prod.mk.inj heq).1, (Prod.mk.inj heq).2⟩
  -- The next part starts after the last column, and every seat is at or before it.
  rcases lastColumn_spec seats with ⟨hlast, hcolumns⟩
  have hnext := Measure.next_spec hm hlast (hexact _ List.mem_cons_self)
    (fun op hop => hexact op (List.mem_cons_of_mem _ (List.mem_append_right _ hop)))
  refine ⟨fun hnf => ⟨(hnext hnf).1, (hnext hnf).2.1⟩, fun hi hs hsf => ?_,
    fun hi hs hsf hnf => ?_, fun hne hi hj hs ht hrank hsf htf => ?_⟩
  · rcases hmem hs with ⟨seat, hseat, _, rfl⟩
    rcases seat_spec hexact hseat hsf with ⟨hc, _, _, hmade⟩
    have hle := hc.left_le hm hmade.nonneg
    have hwidth := hwidths hi
    exact ⟨hc.left_finite, by dsimp only [slotAt]; omega⟩
  · rcases hmem hs with ⟨seat, hseat, _, rfl⟩
    have hc := (seat_spec hexact hseat hsf).1
    have hle := (hnext hnf).2.2 hc
      (hcolumns seat hseat (Single.isNaN_of_isFinite hc.column_finite))
    have hwidth := hwidths hi
    dsimp only [slotAt]
    omega
  · rcases hmem hs with ⟨seat, hseat, rfl, rfl⟩
    rcases hmem ht with ⟨seat', hseat', rfl, rfl⟩
    have hapart := centers_apart hm hspread hexact hseat hseat' hne hrank hsf htf
    have hwidth := hwidths hi
    have hwidth' := hwidths hj
    dsimp only [slotAt]
    omega

/-- What is computed for the slots of all parts. -/
def partsOperations (m : Measure) : Float32 → List (List Seat) → List Operation
  | _, [] => []
  | left, part :: parts =>
      partOperations m left part ++ partsOperations m (m.next left (lastColumn part)) parts

/-- After all parts boxes stand apart. -/
theorem standing_addParts (hm : m.Nonneg)
    (hwidths : ∀ {i w}, r.FreeWidth i w → w ≤ units m.widest) {parts : List (List Seat)}
    (state : Slots × Float32) (hspread : ∀ part ∈ parts, Spread part)
    (hexact : ∀ op ∈ partsOperations m state.2 parts, op.Exact)
    (h : Standing r state.1 state.2) :
    Standing r (parts.foldl (addPart m links) state).1
      (parts.foldl (addPart m links) state).2 := by
  -- Where a part ends is where the next one starts, so the state is general.
  induction parts generalizing state with
  | nil => exact h
  | cons part parts ih =>
      rcases List.forall_mem_cons.mp hspread with ⟨hpart, hspread⟩
      rcases List.forall_mem_append.mp hexact with ⟨hfirst, hexact⟩
      have hadd := h.write (adds_part links hm hwidths hpart hfirst)
      have heq : addPart m links state part = _ := addPart_eq m links state.1 state.2 part
      rw [List.foldl_cons, heq]
      exact ih _ hspread hexact hadd

end part

/-! ## Boxes that are left over -/

/-- What is computed for the slots of the boxes that are left over. -/
def aloneOperations (r : Request) (spacing : Float32) :
    List (Item × Nat) → Slots × Float32 → List Operation
  | [], _ => []
  | (item, i) :: rest, (slots, left) =>
      if (slotOf slots i).isSome || r.isFixed i then
        aloneOperations r spacing rest (slots, left)
      else
        let width := item.size.width
        [.half width, .sum left (width / 2), .sum width spacing, .sum left (width + spacing)] ++
          aloneOperations r spacing rest
            (slots.setIfInBounds i (some ⟨0, left + width / 2⟩), left + (width + spacing))

section alone

variable {spacing : Float32}

theorem adds_alone {i : Nat} {item : Item} (hitem : r.items[i]? = some item)
    (hwidth : 0 ≤ units item.size.width) (hspacing : 0 ≤ units spacing)
    (hexact : ∀ op ∈ [Operation.half item.size.width, .sum left (item.size.width / 2),
      .sum item.size.width spacing, .sum left (item.size.width + spacing)], op.Exact) :
    Adds r left (left + (item.size.width + spacing))
      [(i, ⟨0, left + item.size.width / 2⟩)] := by
  have hmem : ∀ {j : Nat} {s : Slot}, (j, s) ∈ [(i, (⟨0, left + item.size.width / 2⟩ : Slot))] →
      j = i ∧ s = ⟨0, left + item.size.width / 2⟩ := by
    intro j s h
    exact Prod.mk.inj (List.mem_singleton.mp h)
  have hfree : ∀ {w}, r.FreeWidth i w → w = units item.size.width := by
    rintro w ⟨item', hitem', _, rfl⟩
    rw [hitem] at hitem'
    rw [Option.some.inj hitem']
  simp only [List.forall_mem_cons] at hexact
  rcases hexact with ⟨hhalf, hcenter, hgap, hnext, _⟩
  -- The box is centered half its width after the left end.
  have hstep : ∀ {s : Slot}, s = ⟨0, left + item.size.width / 2⟩ → s.center.isFinite = true →
      left.isFinite = true ∧ 2 * units s.center = 2 * units left + units item.size.width := by
    rintro s rfl hf
    rcases Operation.sum_exact hcenter hf with ⟨hlf, hhf, hc⟩
    rcases Operation.half_exact hhalf hhf with ⟨_, hh⟩
    dsimp only
    exact ⟨hlf, by omega⟩
  -- The left end moves on by the width and the spacing.
  have hadvance : (left + (item.size.width + spacing)).isFinite = true → left.isFinite = true ∧
      units (left + (item.size.width + spacing)) =
        units left + (units item.size.width + units spacing) := by
    intro hf
    rcases Operation.sum_exact hnext hf with ⟨hlf, hgf, hn⟩
    rcases Operation.sum_exact hgap hgf with ⟨_, _, hg⟩
    exact ⟨hlf, by omega⟩
  refine ⟨fun hnf => ⟨(hadvance hnf).1, ?_⟩, fun hi hs hsf => ?_, fun hi hs hsf hnf => ?_,
    -- A single box has nothing to be apart from.
    fun hne _ _ hs ht => absurd ((hmem hs).1.trans (hmem ht).1.symm) hne⟩
  · have hn := (hadvance hnf).2
    omega
  · rcases hmem hs with ⟨rfl, heq⟩
    rcases hstep heq hsf with ⟨hlf, hc⟩
    exact ⟨hlf, by rw [hfree hi]; omega⟩
  · rcases hmem hs with ⟨rfl, heq⟩
    have hc := (hstep heq hsf).2
    have hn := (hadvance hnf).2
    rw [hfree hi]
    omega

/-- After the boxes that are left over boxes stand apart. -/
theorem standing_addAlone {members : List Nat} (hspacing : 0 ≤ units spacing)
    {items : List (Item × Nat)} (hitems : ∀ p ∈ items, r.items[p.2]? = some p.1)
    (hwidths : ∀ p ∈ items, 0 ≤ units p.1.size.width)
    (hexact : ∀ op ∈ aloneOperations r spacing items (slots, left), op.Exact)
    (h : Standing r slots left) {slots' : Slots}
    (hok : addAlone r members spacing items (slots, left) = .ok slots') :
    ∃ next, Standing r slots' next := by
  induction items generalizing slots left with
  | nil =>
      rw [← Except.ok.inj hok]
      exact ⟨left, h⟩
  | cons p items ih =>
      rcases p with ⟨item, i⟩
      rcases List.forall_mem_cons.mp hitems with ⟨hitem, hitems⟩
      rcases List.forall_mem_cons.mp hwidths with ⟨hwidth, hwidths⟩
      rw [aloneOperations] at hexact
      rw [addAlone] at hok
      by_cases hdone : ((slotOf slots i).isSome || r.isFixed i) = true
      · rw [if_pos hdone] at hexact hok
        exact ih hitems hwidths hexact h hok
      · rw [if_neg hdone] at hexact hok
        by_cases hmember : i ∈ members
        · rw [if_pos hmember] at hok
          exact absurd hok (by simp only [reduceCtorEq, not_false_eq_true])
        · rw [if_neg hmember] at hok
          -- The box is added at the left end, which moves on for those that follow.
          rcases List.forall_mem_append.mp hexact with ⟨hfirst, hexact⟩
          exact ih hitems hwidths hexact (h.write (adds_alone hitem hwidth hspacing hfirst)) hok

end alone

/-! ## All slots -/

/-- What is computed to give all slots. -/
def operations (layering : Layering) (r : Request) (links : List Ends) (options : Options) :
    List Operation :=
  let m := Measure.ofRequest r options
  match partsOf layering (Numbering.ofLinks r.isFixed links) options with
  | .ok parts =>
      partsOperations m options.padding parts ++
        aloneOperations r options.nodeSpacing r.items.zipIdx
          (parts.foldl (addPart m links) (Array.replicate r.items.length none, options.padding))
  | .error _ => []

/-- The distances of a request are not negative, and no free box is wider than
    the widest. -/
theorem measure_spec {options : Options} (hitems : ∀ item ∈ r.items, item.size.Proper)
    (hspacing : 0 ≤ options.nodeSpacing) :
    (Measure.ofRequest r options).Nonneg ∧
      ∀ {i w}, r.FreeWidth i w → w ≤ units (Measure.ofRequest r options).widest := by
  rcases Single.foldl_max_spec (a := 0) rfl
    ((r.items.filter fun item => item.fixed.isNone).map fun item => item.size.width) with
    ⟨_, hzero, hall⟩
  refine ⟨⟨hzero, ((Single.nonneg_iff _).mp hspacing).2⟩, ?_⟩
  rintro i w ⟨item, hitem, hfree, rfl⟩
  have hmem := List.mem_of_getElem? hitem
  refine hall _ (List.mem_map_of_mem (List.mem_filter.mpr ⟨hmem, ?_⟩))
    (Single.isNaN_of_isFinite (hitems item hmem).width_finite)
  rw [hfree]
  rfl

/-- The parts of a request are spread if those of the layering are. -/
theorem spread_of_mem_partsOf {layering : Layering} {numbering : Numbering} {options : Options}
    (hspaced : layering.Spaces (effort options) numbering.arcs) {parts : List (List Seat)}
    (hok : partsOf layering numbering options = .ok parts) : ∀ part ∈ parts, Spread part := by
  intro part hpart
  rcases partsOf_eq_ok hok with rfl | ⟨layers, hlayers, rfl⟩
  · exact absurd hpart List.not_mem_nil
  · rcases mem_parts_iff.mp hpart with ⟨spots, hspots, rfl, _⟩
    exact spread_seats (hspaced _ hlayers spots hspots) _

/-- Slots that are found without loss leave the free boxes of every layer
    apart. -/
theorem standing_ofRequest {layering : Layering} {links : List Ends} {options : Options}
    (hitems : ∀ item ∈ r.items, item.size.Proper) (hspacing : 0 ≤ options.nodeSpacing)
    (hspaced : layering.Spaces (effort options) (Numbering.ofLinks r.isFixed links).arcs)
    (hexact : ∀ op ∈ operations layering r links options, op.Exact)
    (hok : ofRequest layering r links options = .ok slots) : ∃ left, Standing r slots left := by
  rcases Row.bind_eq_ok_iff.mp hok with ⟨parts, hparts, halone⟩
  rcases measure_spec hitems hspacing with ⟨hm, hwidths⟩
  unfold operations at hexact
  rw [hparts] at hexact
  rcases List.forall_mem_append.mp hexact with ⟨hfirst, hrest⟩
  -- No box stands anywhere before the parts, and the rest follows them.
  have hstanding := standing_addParts links hm hwidths
    (Array.replicate r.items.length none, options.padding)
    (spread_of_mem_partsOf hspaced hparts) hfirst (standing_empty r _ _)
  refine standing_addAlone hm.spacing (fun p hp => ?_) (fun p hp => ?_) hrest hstanding halone
  · exact List.mem_zipIdx_iff_getElem?.mp hp
  · have hmem := List.mem_of_getElem? (List.mem_zipIdx_iff_getElem?.mp hp)
    exact ((Single.nonneg_iff _).mp (hitems _ hmem).width_nonneg).2

end Slots

end Engine

end Flowchart
