import Flowchart.Proofs.Engine.Stack
import Flowchart.Proofs.Engine.Standing
import Flowchart.Proofs.Layout.Clearance
import Flowchart.Proofs.Layout.Planned
import Mathlib.Data.List.Pairwise

/-!
# Free Boxes Do Not Overlap

No two free boxes overlap, and there are three reasons why. Boxes of different
layers are kept apart by the heights of the layers. Boxes of one layer stand
apart in their slots. And where there are fixed boxes to keep clear of, the
sweep moves a box to the right of all that were swept before it in its layer,
wherever their slots were.

For the first two it takes that no operation loses anything: half a box more or
less, rounded at the wrong place, would be enough. The sweep needs nothing of
the kind, since rounding never leads back. A box without a finite place
overlaps nothing, so every place may be taken to be finite, and then so is all
that it was computed from.

## Main definitions

* `Layered.operations`: What is computed to place all boxes.

## Theorems

* `Box.meets_eq_false_of_x`, `Box.meets_eq_false_of_y`: A box that ends before
  another one begins does not meet it.
* `Sweep.layer_pairwise`: Boxes that were swept in one layer do not meet.
* `Layered.positions_apart`: No two free boxes meet.
* `layered_keeps_apart`: The same of the placements of the engine.
-/

namespace Flowchart

open Engine (Request Slots Options)
open Single (units Operation)

/-! ## Boxes -/

namespace Box

variable {p q : Point} {a b : Size}

theorem meets_iff : (Box.ofTopLeft p a).meets (Box.ofTopLeft q b) = true ↔
    p.x < q.x + b.width ∧ q.x < p.x + a.width ∧ p.y < q.y + b.height ∧ q.y < p.y + a.height := by
  unfold meets ofTopLeft
  rw [Bool.and_eq_true, Bool.and_eq_true, Bool.and_eq_true, and_assoc, and_assoc]
  exact and_congr decide_eq_true_iff (and_congr decide_eq_true_iff
    (and_congr decide_eq_true_iff decide_eq_true_iff))

/-- A box that meets another one has a finite place. -/
theorem isFinite_of_meets (ha : a.Proper)
    (h : (Box.ofTopLeft p a).meets (Box.ofTopLeft q b) = true) :
    p.x.isFinite = true ∧ p.y.isFinite = true := by
  rcases meets_iff.mp h with ⟨hpx, hqx, hpy, hqy⟩
  exact ⟨Single.isFinite_of_lt ha.width_finite hpx hqx,
    Single.isFinite_of_lt ha.height_finite hpy hqy⟩

/-- A box that ends before another one begins, from left to right, does not meet
    it. -/
theorem meets_eq_false_of_x (h : units (p.x + a.width) ≤ units q.x) :
    (Box.ofTopLeft p a).meets (Box.ofTopLeft q b) = false := by
  refine Bool.eq_false_of_not_eq_true fun hmeets => ?_
  have hlt := (meets_iff.mp hmeets).2.1
  rw [Single.lt_iff] at hlt
  omega

/-- The same from top to bottom. -/
theorem meets_eq_false_of_y (h : units (p.y + a.height) ≤ units q.y) :
    (Box.ofTopLeft p a).meets (Box.ofTopLeft q b) = false := by
  refine Bool.eq_false_of_not_eq_true fun hmeets => ?_
  have hlt := (meets_iff.mp hmeets).2.2.2
  rw [Single.lt_iff] at hlt
  omega

end Box

namespace Engine

namespace Sweep

/-! ## One layer -/

/-- Two free boxes do not meet. -/
def Mover.Apart (m m' : Mover) : Prop :=
  (Box.ofTopLeft m.position m.size).meets (Box.ofTopLeft m'.position m'.size) = false

instance : Std.Symm Mover.Apart where
  symm _ _ h := (Box.meets_comm _ _).trans h

section layer

variable {spacing : Float32} (hnan : spacing.isNaN = false) (hpos : 0 ≤ units spacing)

include hnan hpos

/-- A push never leads to the left. -/
theorem le_push (size : Size) (y : Float32) (fixed : List Box) {x : Float32}
    (hx : x.isNaN = false) : x ≤ push spacing size y fixed x := by
  fun_induction push spacing size y fixed x with
  | case1 fixed x hfind => exact Single.le_refl hx
  | case2 fixed x blocker hfind ih =>
      have hlt : x < blocker.maxX := lt_maxX_of_blocks (List.find?_some hfind)
      rcases Single.le_add_of_lt hlt hnan hpos with ⟨hsum, hle⟩
      refine Single.le_trans ((Single.le_iff _ _).mpr ⟨hx, hsum, ?_⟩) (ih hsum)
      rw [Single.lt_iff] at hlt
      omega

/-- So a box that is pushed does not end to the left of where it was. -/
theorem Mover.Pushed.le {fixed : List Box} {m m' : Mover} (h : m.Pushed spacing fixed m')
    (hx : m.position.x.isNaN = false) : m.position.x ≤ m'.position.x := by
  rcases h.exists_push with ⟨x, hle, hpush⟩
  rw [hpush]
  exact Single.le_trans (hle hx)
    (le_push hnan hpos _ _ _ ((Single.le_iff _ _).mp (hle hx)).2.1)

/-- Where the next box of a layer may start is not before the end of this one. -/
theorem le_cursor {x width : Float32} (hx : x.isNaN = false) (hlow : -(Single.top : Int) < units x)
    (hwidth : 0 ≤ width) :
    (x + width + spacing).isNaN = false ∧ units (x + width) ≤ units (x + width + spacing) ∧
      units x ≤ units (x + width) := by
  rcases (Single.nonneg_iff width).mp hwidth with ⟨hw, hwidth⟩
  rcases Single.le_add hx hlow hw hwidth with ⟨hsum, hle⟩
  rcases Single.le_add hsum (by omega) hnan hpos with ⟨hnext, hle'⟩
  exact ⟨hnext, hle', hle⟩

variable (fixed : List Box)

/-- No box of a layer starts before the cursor. -/
theorem le_of_mem_layer {ms : List Mover} (hwidths : ∀ m ∈ ms, 0 ≤ m.size.width) {cursor : Float32}
    (hc : cursor.isNaN = false) (hlow : -(Single.top : Int) < units cursor) :
    ∀ m ∈ layer spacing fixed cursor ms,
      m.position.x.isNaN = false ∧ units cursor ≤ units m.position.x := by
  induction ms generalizing cursor with
  | nil => exact fun m hm => absurd hm List.not_mem_nil
  | cons m ms ih =>
      rcases List.forall_mem_cons.mp hwidths with ⟨hwidth, hwidths⟩
      -- A box starts at the cursor or after it, is only pushed away from it, and the cursor is at
      -- its end afterwards.
      rcases Single.max_spec_right m.position.x hc with ⟨hstart, hle⟩
      rcases (Single.le_iff _ _).mp (le_push hnan hpos m.size m.position.y fixed hstart) with
        ⟨_, hx, hpush⟩
      rcases le_cursor hnan hpos hx (by omega) hwidth with ⟨hnext, hend, hwidth⟩
      rw [layer]
      refine List.forall_mem_cons.mpr ⟨⟨hx, by dsimp only; omega⟩, fun m' hm' => ?_⟩
      rcases ih hwidths hnext (by omega) m' hm' with ⟨hx', hle'⟩
      exact ⟨hx', by omega⟩

/-- Boxes that were swept in one layer do not meet. -/
theorem layer_pairwise {ms : List Mover} (hsizes : ∀ m ∈ ms, m.size.Proper) (cursor : Float32) :
    (layer spacing fixed cursor ms).Pairwise Mover.Apart := by
  induction ms generalizing cursor with
  | nil => exact List.Pairwise.nil
  | cons m ms ih =>
      rcases List.forall_mem_cons.mp hsizes with ⟨hsize, hsizes⟩
      rw [layer]
      refine List.Pairwise.cons (fun m' hm' => ?_) (ih hsizes _)
      -- If the first box meets anything it has a finite place, and then the rest
      -- of the layer starts after its end.
      refine Bool.eq_false_of_not_eq_true fun hmeets => ?_
      have hx := (Box.isFinite_of_meets hsize hmeets).1
      rcases le_cursor hnan hpos (Single.isNaN_of_isFinite hx) (Single.neg_top_lt_units hx)
        hsize.width_nonneg with ⟨hnext, hend, hwidth⟩
      have hlow := Single.neg_top_lt_units hx
      have hafter := (le_of_mem_layer hnan hpos fixed (fun m hm => (hsizes m hm).width_nonneg)
        hnext (by omega) m' hm').2
      have hnot := Box.meets_eq_false_of_x (b := m'.size) (Int.le_trans hend hafter)
      exact Bool.false_ne_true (hnot.symm.trans hmeets)

end layer

/-! ## All layers -/

section clear

variable {r : Request} {slots : Slots} {positions : List Point} {i j : Nat} (spacing : Float32)
  {item item' : Item} (hitem : r.items[i]? = some item) (hitem' : r.items[j]? = some item')
  {p p' : Point} (hp : positions[i]? = some p) (hp' : positions[j]? = some p')
  {slot slot' : Slot} (hslot : slots.slotOf i = some slot) (hslot' : slots.slotOf j = some slot')

include hitem hp hslot hitem' hp' hslot'

/-- Two boxes of one layer do not meet after a sweep. -/
theorem clear_apart (hsizes : ∀ item ∈ r.items, item.size.Proper)
    (hfixed : (fixedBoxes r).isEmpty = false) (hne : i ≠ j) (hrank : slot.rank = slot'.rank) :
    ∃ q q', (clear r slots spacing positions)[i]? = some q ∧
      (clear r slots spacing positions)[j]? = some q' ∧
      (Box.ofTopLeft q item.size).meets (Box.ofTopLeft q' item'.size) = false := by
  rcases exists_mem_layer spacing hfixed hitem hp hslot with ⟨m, hm, hpushed, hget⟩
  rcases exists_mem_layer spacing hfixed hitem' hp' hslot' with ⟨m', hm', hpushed', hget'⟩
  refine ⟨_, _, hget, hget', ?_⟩
  rw [← hrank] at hm'
  rcases Single.max_zero spacing with ⟨hnan, hpos⟩
  have hmovers : ∀ m ∈ sorted (members r slots positions slot.rank), m.size.Proper := by
    intro m hm
    rcases mem_members_iff.mp (mem_sorted_iff.mp hm) with ⟨item, _, hitem, _, hsize, _⟩
    rw [hsize]
    exact hsizes item (List.mem_of_getElem? hitem)
  -- Both boxes are found in the one swept layer, at two places of it.
  have hpairwise := layer_pairwise hnan hpos (fixedBoxes r) hmovers Single.negInfinity
  have hmeets := hpairwise.forall hm hm' fun heq => hne
    (hpushed.place_eq.symm.trans ((congrArg Mover.place heq).trans hpushed'.place_eq))
  rw [Mover.Apart, hpushed.size_eq, hpushed'.size_eq] at hmeets
  exact hmeets

end clear

end Sweep

namespace Layered

/-! ## Places in slots -/

/-- What is computed for the corner of a box. -/
def cornerOperations (center : Point) (size : Size) : List Operation :=
  [.half size.width, .difference center.x (size.width / 2), .half size.height,
    .difference center.y (size.height / 2)]

/-- What is computed for the corner of a free box. -/
def boxOperations (slots : Slots) (middles : List Float32) (item : Item) (i : Nat) :
    List Operation :=
  match item.fixed, slots.slotOf i with
  | none, some slot => cornerOperations ⟨slot.center, middles.getD slot.rank 0⟩ item.size
  | _, _ => []

/-- What is computed to place all boxes in their slots. -/
def positionOperations (r : Request) (slots : Slots) (options : Options) : List Operation :=
  rowOperations r slots options ++
    r.items.zipIdx.flatMap fun (item, i) => boxOperations slots (middles r slots options) item i

/-- A finite corner is half a box away from the center. -/
theorem corner_spec {center : Point} {size : Size}
    (hexact : ∀ op ∈ cornerOperations center size, op.Exact) :
    ((Box.cornerAround center size).x.isFinite = true → center.x.isFinite = true ∧
      2 * units (Box.cornerAround center size).x = 2 * units center.x - units size.width) ∧
      ((Box.cornerAround center size).y.isFinite = true → center.y.isFinite = true ∧
        2 * units (Box.cornerAround center size).y = 2 * units center.y - units size.height) := by
  -- Half of a size and the difference to it are exact on both axes.
  simp only [cornerOperations, List.forall_mem_cons] at hexact
  rcases hexact with ⟨hhalf, hx, hhalf', hy, _⟩
  refine ⟨fun hf => ?_, fun hf => ?_⟩
  · rcases Operation.difference_exact hx hf with ⟨hcf, hhf, hd⟩
    have hh := (Operation.half_exact hhalf hhf).2
    change _ ∧ 2 * units (center.x - size.width / 2) = _
    exact ⟨hcf, by omega⟩
  · rcases Operation.difference_exact hy hf with ⟨hcf, hhf, hd⟩
    have hh := (Operation.half_exact hhalf' hhf).2
    change _ ∧ 2 * units (center.y - size.height / 2) = _
    exact ⟨hcf, by omega⟩

/-- A free box, its slot, and its corner in the slot. -/
structure Placed (r : Request) (slots : Slots) (options : Options) (i : Nat) (item : Item)
    (slot : Slot) (corner : Point) : Prop where
  item_eq : r.items[i]? = some item
  free : item.fixed = none
  slot_eq : slots.slotOf i = some slot
  corner_eq : corner =
    Box.cornerAround ⟨slot.center, (middles r slots options).getD slot.rank 0⟩ item.size

variable {r : Request} {slots : Slots} {options : Options}

section placed

variable {i j : Nat} {item item' : Item} {slot slot' : Slot} {corner corner' : Point}
  (h : Placed r slots options i item slot corner)
  (h' : Placed r slots options j item' slot' corner')
  (hexact : ∀ op ∈ positionOperations r slots options, op.Exact)

include h hexact

theorem Placed.corner_exact :
    ∀ op ∈ cornerOperations ⟨slot.center, (middles r slots options).getD slot.rank 0⟩ item.size,
      op.Exact := by
  intro op hop
  refine hexact op (List.mem_append_right _ (List.mem_flatMap.mpr
    ⟨(item, i), List.mem_zipIdx_iff_getElem?.mpr h.item_eq, ?_⟩))
  simp only [boxOperations, h.free, h.slot_eq]
  exact hop

include h'

/-- Boxes of different layers do not meet, wherever they were moved sideways. -/
theorem Placed.apart_of_lt (hspacing : 0 ≤ options.layerSpacing) (hsize : item.size.Proper)
    (hsize' : item'.size.Proper) (hrank : slot.rank < slot'.rank) {p q : Point}
    (hp : p.y = corner.y) (hq : q.y = corner'.y) :
    (Box.ofTopLeft p item.size).meets (Box.ofTopLeft q item'.size) = false := by
  -- If the boxes met they would be in finite places, where nothing was rounded, and so a row apart.
  refine Bool.eq_false_of_not_eq_true fun hmeets => ?_
  have hpf := (Box.isFinite_of_meets hsize hmeets).2
  have hqf := (Box.isFinite_of_meets hsize' ((Box.meets_comm _ _).trans hmeets)).2
  rw [hp, h.corner_eq] at hpf
  rw [hq, h'.corner_eq] at hqf
  rcases (corner_spec (h.corner_exact hexact)).2 hpf with ⟨hmf, hc⟩
  rcases (corner_spec (h'.corner_exact hexact)).2 hqf with ⟨hmf', hc'⟩
  -- Each box is centered in the row of its layer, which is high enough for it.
  rcases exists_row options h.item_eq h.slot_eq
    (Single.isNaN_of_isFinite hsize.height_finite) with ⟨row, hrow, hmiddle, hheight⟩
  rcases exists_row options h'.item_eq h'.slot_eq
    (Single.isNaN_of_isFinite hsize'.height_finite) with ⟨row', hrow', hmiddle', hheight'⟩
  dsimp only at hmf hc hmf' hc'
  rw [hmiddle] at hmf hc
  rw [hmiddle'] at hmf' hc'
  have hstacked := rows_stacked hspacing
    (fun op hop => hexact op (List.mem_append_left _ hop)) hrank hrow hrow' hmf hmf'
  have hnot := Box.meets_eq_false_of_y (a := item.size) (b := item'.size) (p := p) (q := q) (by
    rw [hp, hq, h.corner_eq, h'.corner_eq, hmiddle, hmiddle']
    exact Single.units_add_le (hmiddle ▸ hpf) hsize.height_finite (hmiddle' ▸ hqf) (by omega))
  exact Bool.false_ne_true (hnot.symm.trans hmeets)

/-- Boxes of one layer do not meet in their slots. -/
theorem Placed.apart_of_eq {left : Float32} (hstanding : Slots.Standing r slots left) (hne : i ≠ j)
    (hsize : item.size.Proper) (hsize' : item'.size.Proper) (hrank : slot.rank = slot'.rank) :
    (Box.ofTopLeft corner item.size).meets (Box.ofTopLeft corner' item'.size) = false := by
  refine Bool.eq_false_of_not_eq_true fun hmeets => ?_
  have hmeets' := (Box.meets_comm _ _).trans hmeets
  -- As above, but now it is the slots that are apart.
  have hpf := (Box.isFinite_of_meets hsize hmeets).1
  have hqf := (Box.isFinite_of_meets hsize' hmeets').1
  rcases (corner_spec (h.corner_exact hexact)).1 (h.corner_eq ▸ hpf) with ⟨hcf, hc⟩
  rcases (corner_spec (h'.corner_exact hexact)).1 (h'.corner_eq ▸ hqf) with ⟨hcf', hc'⟩
  rw [← h.corner_eq] at hc
  rw [← h'.corner_eq] at hc'
  have hapart := hstanding.apart hne ⟨item, h.item_eq, h.free, rfl⟩
    ⟨item', h'.item_eq, h'.free, rfl⟩ h.slot_eq h'.slot_eq hrank hcf hcf'
  dsimp only at hc hc'
  -- One of the two ends before the other begins.
  rcases Int.le_total (units slot.center) (units slot'.center) with hle | hle
  · have hnot := Box.meets_eq_false_of_x (b := item'.size)
      (Single.units_add_le hpf hsize.width_finite hqf (by omega))
    exact Bool.false_ne_true (hnot.symm.trans hmeets)
  · have hnot := Box.meets_eq_false_of_x (b := item.size)
      (Single.units_add_le hqf hsize'.width_finite hpf (by omega))
    exact Bool.false_ne_true (hnot.symm.trans hmeets')

end placed

/-! ## All boxes -/

/-- Every free box has a slot and a corner in it. -/
theorem exists_placed {raw : List Point}
    (hraw : r.items.zipIdx.mapM (fun (item, i) =>
      rawPosition slots (middles r slots options) item i) = .ok raw)
    {i : Nat} {item : Item} (hitem : r.items[i]? = some item) (hfree : item.fixed = none) :
    ∃ slot corner, raw[i]? = some corner ∧ Placed r slots options i item slot corner := by
  have hzip : r.items.zipIdx[i]? = some (item, i) := by
    rw [List.getElem?_zipIdx, hitem, Option.map_some, Nat.zero_add]
  rcases Row.exists_right_of_getElem? ((Row.mapM_eq_ok_iff _ _ _).mp hraw) hzip with
    ⟨corner, hcorner, hposition⟩
  -- A free box without a slot would have failed.
  cases hslot : slots.slotOf i with
  | none => simp only [rawPosition, hfree, hslot, reduceCtorEq] at hposition
  | some slot =>
      simp only [rawPosition, hfree, hslot, Except.ok.injEq] at hposition
      exact ⟨slot, corner, hcorner, hitem, hfree, hslot, hposition.symm⟩

/-- No two free boxes meet. -/
theorem positions_apart {ps : List Point} (hok : positions r slots options = .ok ps)
    (hsizes : ∀ item ∈ r.items, item.size.Proper) (hspacing : 0 ≤ options.layerSpacing)
    {left : Float32} (hstanding : Slots.Standing r slots left)
    (hexact : ∀ op ∈ positionOperations r slots options, op.Exact) {i j : Nat} (hne : i ≠ j)
    {item item' : Item} (hitem : r.items[i]? = some item) (hitem' : r.items[j]? = some item')
    (hfree : item.fixed = none) (hfree' : item'.fixed = none) :
    ∃ p q, ps[i]? = some p ∧ ps[j]? = some q ∧
      (Box.ofTopLeft p item.size).meets (Box.ofTopLeft q item'.size) = false := by
  rcases Row.bind_eq_ok_iff.mp hok with ⟨raw, hraw, hps⟩
  rcases exists_placed hraw hitem hfree with ⟨slot, corner, hcorner, hplaced⟩
  rcases exists_placed hraw hitem' hfree' with ⟨slot', corner', hcorner', hplaced'⟩
  have hsize := hsizes _ (List.mem_of_getElem? hitem)
  have hsize' := hsizes _ (List.mem_of_getElem? hitem')
  rw [← Except.ok.inj hps]
  -- Boxes of one layer are apart by their slots, or by the sweep if there is one.
  by_cases hrank : slot.rank = slot'.rank
  · cases hfixed : (Sweep.fixedBoxes r).isEmpty with
    | true =>
        rw [Sweep.clear, if_pos hfixed]
        exact ⟨corner, corner', hcorner, hcorner',
          hplaced.apart_of_eq hplaced' hexact hstanding hne hsize hsize' hrank⟩
    | false =>
        exact Sweep.clear_apart options.nodeSpacing hitem hitem' hcorner hcorner' hplaced.slot_eq
          hplaced'.slot_eq hsizes hfixed hne hrank
  · -- Whatever is moved within a layer, other layers are out of reach.
    rcases Sweep.clear_pushed options.nodeSpacing hitem hcorner hplaced.slot_eq with
      ⟨p, hp, hpushed⟩
    rcases Sweep.clear_pushed options.nodeSpacing hitem' hcorner' hplaced'.slot_eq with
      ⟨q, hq, hpushed'⟩
    refine ⟨p, q, hp, hq, ?_⟩
    rcases Nat.lt_or_gt_of_ne hrank with hlt | hgt
    · exact hplaced.apart_of_lt hplaced' hexact hspacing hsize hsize' hlt hpushed.y_eq hpushed'.y_eq
    · rw [Box.meets_comm]
      exact hplaced'.apart_of_lt hplaced hexact hspacing hsize' hsize hgt hpushed'.y_eq hpushed.y_eq

/-- What is computed to place all boxes of a request. -/
def operations (layering : Layering) (options : Options) (r : Request) : List Operation :=
  match r.ends? with
  | .ok links =>
      Slots.operations layering r links options ++
        match Slots.ofRequest layering r links options with
        | .ok slots => positionOperations r slots options
        | .error _ => []
  | .error _ => []

end Layered

end Engine

open Engine

/-- If the sizes of boxes are numbers, finite and not negative, spacings are not
    negative, the layering spaces its vertices, and no operation on singles
    rounds or overflows, then the layered engine lets no two free boxes overlap,
    whatever is fixed. -/
theorem layered_keeps_apart (layering : Layering) (options : Options) (r : Request) (plan : Plan)
    (hplan : layered layering options r = .planned plan)
    (hsizes : ∀ item ∈ r.items, item.size.Proper) (hnodes : 0 ≤ options.nodeSpacing)
    (hlayers : 0 ≤ options.layerSpacing)
    (hspaced : ∀ links, r.ends? = .ok links →
      layering.Spaces (Slots.effort options) (Numbering.ofLinks r.isFixed links).arcs)
    (hexact : ∀ op ∈ Layered.operations layering options r, op.Exact) :
    ∀ {i j : Nat} {item item' : Item}, i ≠ j → r.items[i]? = some item → r.items[j]? = some item' →
      item.fixed = none → item'.fixed = none →
      ∃ p q, plan.placements[i]? = some p ∧ plan.placements[j]? = some q ∧
        (Box.ofTopLeft p.position p.size).meets (Box.ofTopLeft q.position q.size) = false := by
  intro i j item item' hne hitem hitem' hfree hfree'
  rw [layered_eq_planned_iff] at hplan
  rcases Row.bind_eq_ok_iff.mp hplan with ⟨links, hlinks, hplan⟩
  rcases Row.bind_eq_ok_iff.mp hplan with ⟨slots, hslots, hplan⟩
  rcases Row.bind_eq_ok_iff.mp hplan with ⟨ps, hps, hplan⟩
  -- The operations of the run are those of the slots and then those of the positions.
  unfold Layered.operations at hexact
  rw [hlinks] at hexact
  dsimp only at hexact
  rw [hslots] at hexact
  rcases List.forall_mem_append.mp hexact with ⟨hfirst, hsecond⟩
  rcases Slots.standing_ofRequest hsizes hnodes (hspaced links hlinks) hfirst hslots with
    ⟨left, hstanding⟩
  rcases Layered.positions_apart hps hsizes hlayers hstanding hsecond hne hitem hitem' hfree
    hfree' with ⟨p, q, hp, hq, hapart⟩
  -- A placement stands at the place of its item, with its position and its size.
  have hplacement : ∀ {k : Nat} {item : Item} {p : Point}, r.items[k]? = some item →
      ps[k]? = some p → plan.placements[k]? = some ⟨item.id, p, item.size⟩ := by
    intro k item p hitem hp
    have hzip : (r.items.zip ps)[k]? = some (item, p) :=
      List.getElem?_zip_eq_some.mpr ⟨hitem, hp⟩
    rw [← Except.ok.inj hplan, List.getElem?_map, hzip]
    rfl
  exact ⟨_, _, hplacement hitem hp, hplacement hitem' hq, hapart⟩

/-- A box has two below it, one of which would stand in a fixed box and is moved
    aside, and another box has no link at all. -/
theorem layered_keeps_apart_siblings :
    let g : Graph := ⟨[.named "A", .named "B", .named "C", .named "D",
      (Node.named "P").pinAt ⟨300, 200⟩], [.between "A" "B", .between "A" "C"]⟩
    let r := Request.ofGraph g
    let layering : Layering := fun _ _ => .ok [[⟨0, 5, 0⟩, ⟨1, 0, 10⟩, ⟨2, 10, 10⟩]]
    (∀ item ∈ r.items, item.size.Proper) ∧ r.ends? = .ok [(0, 1), (0, 2)] ∧
      layering.Spaces (Slots.effort {}) [(0, 1), (0, 2)] ∧
      (∀ op ∈ Layered.operations layering {} r, op.Exact) ∧
      ∃ plan, layered layering {} r = .planned plan ∧
        ∃ p q, plan.placements[1]? = some p ∧ plan.placements[2]? = some q ∧
          (Box.ofTopLeft p.position p.size).meets (Box.ofTopLeft q.position q.size) = false := by
  intro g r layering
  let part : List Seat := [⟨0, 5, 0⟩, ⟨1, 0, 10⟩, ⟨2, 10, 10⟩]
  have hends : r.ends? = .ok [(0, 1), (0, 2)] := by decide +kernel
  have hnumbering : Numbering.ofLinks r.isFixed [(0, 1), (0, 2)] =
      ⟨[0, 1, 2], [(0, 1), (0, 2)]⟩ := by decide +kernel
  have hsizes : ∀ item ∈ r.items, item.size.Proper := by decide +kernel
  have hspaces : layering.Spaces (Slots.effort {}) [(0, 1), (0, 2)] := by
    intro layers hlayers spots hspots
    rw [← Except.ok.inj hlayers] at hspots
    rw [List.mem_singleton.mp hspots]
    exact ⟨by decide +kernel, by decide +kernel⟩
  have hparts : Slots.partsOf layering ⟨[0, 1, 2], [(0, 1), (0, 2)]⟩ {} = .ok [part] := by
    change Except.ok (List.mergeSort [part] _) = _
    rw [List.mergeSort_singleton]
  -- Kernel evaluation does not get through a sort, so the levels are given.
  have hlevels : levels [0, 10, 10] = [0, 10] := by
    unfold levels
    rw [List.mergeSort_of_pairwise (by decide +kernel)]
    decide +kernel
  have hrank : ∀ seat, rankAt part [(0, 1), (0, 2)] seat = levelOf [0, 10] seat.y := by
    intro seat
    unfold rankAt
    rw [show part.map Seat.y = [0, 10, 10] from rfl, hlevels]
    exact if_neg (by decide +kernel)
  have hpart : Slots.addPart (Measure.ofRequest r {}) [(0, 1), (0, 2)]
      (Array.replicate r.items.length none, 50) part =
      (#[some ⟨0, 210⟩, some ⟨1, 110⟩, some ⟨1, 310⟩, none, none], 450) := by
    rw [Slots.addPart_eq]
    unfold Slots.slotAt
    simp only [hrank]
    decide +kernel
  have hslots : Slots.ofRequest layering r [(0, 1), (0, 2)] {} =
      .ok #[some ⟨0, 210⟩, some ⟨1, 110⟩, some ⟨1, 310⟩, some ⟨0, 510⟩, none] := by
    unfold Slots.ofRequest
    dsimp only
    rw [hnumbering]
    refine Row.bind_eq_ok_iff.mpr ⟨_, hparts, ?_⟩
    rw [List.foldl_cons, List.foldl_nil, hpart]
    decide +kernel
  have hexact : ∀ op ∈ Layered.operations layering {} r, op.Exact := by
    unfold Layered.operations Slots.operations
    rw [hends]
    dsimp only
    rw [hslots, hnumbering, hparts]
    dsimp only
    rw [List.foldl_cons, List.foldl_nil, hpart]
    decide +kernel
  have hlists : layering.Lists (Slots.effort {}) [(0, 1), (0, 2)] := ⟨_, rfl, by decide⟩
  rcases Layered.exists_plan_eq_ok layering {} (g := g) (by decide +kernel) (by
    intro links hlinks
    rw [← Except.ok.inj (hends.symm.trans hlinks), hnumbering]
    exact fun _ => hlists) with ⟨plan, hok, _, _⟩
  have hplan : layered layering {} r = .planned plan := layered_eq_planned_iff.mpr hok
  refine ⟨hsizes, hends, hspaces, hexact, plan, hplan, ?_⟩
  exact layered_keeps_apart layering {} r plan hplan hsizes (by decide +kernel) (by decide +kernel)
    (by
      intro links hlinks
      rw [← Except.ok.inj (hends.symm.trans hlinks), hnumbering]
      exact hspaces) hexact (i := 1) (j := 2) (by decide) rfl rfl rfl rfl

end Flowchart
