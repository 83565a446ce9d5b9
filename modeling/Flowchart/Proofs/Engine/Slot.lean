import Flowchart.Engine.Slot
import Flowchart.Proofs.Engine.Numbering
import Flowchart.Proofs.Row

/-!
# Every Free Box Has a Slot

Slots are written into an array, part after part, and what is left over is
written at the end. A part is a row of seats, and all that is written for a
seat depends on the seat and on the part it belongs to: `slotAt` is that slot,
and `addPart_eq` says that a part writes the slots of its seats and nothing
else. What is known about slots is then known about single writes.

A box that takes part in the layering gets its slot from there, if the layering
lists it. `Layering.Lists` is all that is asked of a layering for this: it comes
to an end and lists every vertex of its arcs, each once. Every other free box
is written at the end, so no free box is without a slot.

## Main definitions

* `Slots.write`: Slots after several were written.
* `Slots.slotAt`: The slot of a seat in its part.
* `Layering.Lists`: A layering lists every vertex of its arcs once.

## Theorems

* `slotOf_write_eq_some`: A slot was there before or was written.
* `addPart_eq`: What a part writes.
* `exists_ofRequest_eq_ok`: Slots are found, and every free box has one.
-/

namespace Flowchart

/-- A layering comes to an end and lists every vertex up to the greatest of its
    arcs exactly once. -/
def Layering.Lists (layering : Layering) (effort : Layering.Effort) (arcs : List (Nat × Nat)) :
    Prop :=
  ∃ layers, layering effort arcs = .ok layers ∧
    ∀ v < Layering.orderOf arcs, (layers.flatten.map Layering.Spot.vertex).count v = 1

namespace Engine

/-- The layer of a seat in its part. -/
def rankAt (seats : List Seat) (links : List Ends) (seat : Seat) : Nat :=
  let levels := levels (seats.map Seat.y)
  let raw := seats.map fun seat => levelOf levels seat.y
  let (down, up) := directions ((seats.map Seat.place).zip raw) links
  if down < up then levels.length - 1 - levelOf levels seat.y else levelOf levels seat.y

theorem ranks_eq_map (seats : List Seat) (links : List Ends) :
    ranks seats links = seats.map (rankAt seats links) := by
  unfold ranks rankAt
  dsimp only
  split
  · rw [List.map_map]
    rfl
  · rfl

namespace Slots

variable {slots : Slots}

theorem slotOf_eq_some_iff {i : Nat} {s : Slot} :
    slotOf slots i = some s ↔ slots[i]? = some (some s) := by
  rw [slotOf, Array.getD_eq_getD_getElem?]
  cases slots[i]? with
  | none => simp only [Option.getD_none, reduceCtorEq]
  | some o => simp only [Option.getD_some, Option.some.injEq]

theorem slotOf_set (slots : Slots) (i : Nat) (s : Slot) (j : Nat) :
    slotOf (slots.setIfInBounds i (some s)) j =
      if i = j ∧ i < slots.size then some s else slotOf slots j := by
  rw [slotOf, slotOf, Array.getD_eq_getD_getElem?, Array.getD_eq_getD_getElem?,
    Array.getElem?_setIfInBounds]
  by_cases hij : i = j
  · rw [if_pos hij]
    by_cases hi : i < slots.size
    · rw [if_pos hi, if_pos ⟨hij, hi⟩]
      rfl
    · rw [if_neg hi, if_neg fun h => hi h.2, Array.getElem?_eq_none (by omega)]
  · rw [if_neg hij, if_neg fun h => hij h.1]

/-! ## Writing slots -/

/-- The slots after several were written, one after the other. -/
def write (slots : Slots) (ws : List (Nat × Slot)) : Slots :=
  ws.foldl (fun slots w => slots.setIfInBounds w.1 (some w.2)) slots

@[simp] theorem size_write (slots : Slots) (ws : List (Nat × Slot)) :
    (write slots ws).size = slots.size := by
  induction ws generalizing slots with
  | nil => rfl
  | cons w ws ih =>
      have h := ih (slots.setIfInBounds w.1 (some w.2))
      rw [Array.size_setIfInBounds] at h
      exact h

/-- A slot that is found was there before, or was written. -/
theorem slotOf_write_eq_some {ws : List (Nat × Slot)} {j : Nat} {s : Slot}
    (h : slotOf (write slots ws) j = some s) : slotOf slots j = some s ∨ (j, s) ∈ ws := by
  induction ws generalizing slots with
  | nil => exact Or.inl h
  | cons w ws ih =>
      rcases ih h with h | h
      · rw [slotOf_set] at h
        by_cases hw : w.1 = j ∧ w.1 < slots.size
        · rw [if_pos hw] at h
          rw [← hw.1, ← Option.some.inj h]
          exact Or.inr List.mem_cons_self
        · rw [if_neg hw] at h
          exact Or.inl h
      · exact Or.inr (List.mem_cons_of_mem w h)

/-- A box has a slot afterwards if it had one, or if one was written for it. -/
theorem isSome_slotOf_write {ws : List (Nat × Slot)} {j : Nat} (hj : j < slots.size)
    (h : (slotOf slots j).isSome = true ∨ ∃ s, (j, s) ∈ ws) :
    (slotOf (write slots ws) j).isSome = true := by
  induction ws generalizing slots with
  | nil =>
      rcases h with h | ⟨s, hs⟩
      · exact h
      · exact absurd hs List.not_mem_nil
  | cons w ws ih =>
      have hsize : j < (slots.setIfInBounds w.1 (some w.2)).size := by
        rw [Array.size_setIfInBounds]
        exact hj
      refine ih hsize ?_
      rw [slotOf_set]
      -- The first writing may be the one for the box; otherwise it is among the rest.
      by_cases hw : w.1 = j ∧ w.1 < slots.size
      · rw [if_pos hw]
        exact Or.inl rfl
      · rw [if_neg hw]
        refine h.imp_right ?_
        rintro ⟨s, hs⟩
        rcases List.mem_cons.mp hs with rfl | hs
        · exact absurd ⟨rfl, hj⟩ hw
        · exact ⟨s, hs⟩

/-! ## Parts -/

/-- Where the leftmost seat of a part is. -/
def leftmost (seats : List Seat) : Float :=
  seats.foldl (fun least seat => if seat.x < least then seat.x else least) (1 / 0)

/-- The column of a seat in its part. -/
def columnAt (seats : List Seat) (seat : Seat) : Float32 :=
  Single.ofDouble ((seat.x - leftmost seats) / Layering.spacing)

/-- The last column of a part. -/
def lastColumn (seats : List Seat) : Float32 := (columns seats).foldl Single.max 0

/-- The slot of a seat in its part. -/
def slotAt (m : Measure) (links : List Ends) (left : Float32) (seats : List Seat) (seat : Seat) :
    Slot :=
  ⟨rankAt seats links seat, m.center left (columnAt seats seat)⟩

/-- A part writes the slots of its seats. -/
theorem addPart_eq (m : Measure) (links : List Ends) (slots : Slots) (left : Float32)
    (seats : List Seat) :
    addPart m links (slots, left) seats =
      (write slots (seats.map fun seat => (seat.place, slotAt m links left seats seat)),
        m.next left (lastColumn seats)) := by
  -- Ranks and columns are both computed seat by seat.
  have hzip : ((seats.zip (ranks seats links)).zip (columns seats)) =
      seats.map fun seat => ((seat, rankAt seats links seat), columnAt seats seat) := by
    have hranks : seats.zip (seats.map (rankAt seats links)) =
        seats.map fun seat => (seat, rankAt seats links seat) := by
      have hboth := List.zip_map' (f := id) (g := rankAt seats links) (l := seats)
      rw [List.map_id] at hboth
      exact hboth
    rw [ranks_eq_map, hranks]
    exact List.zip_map'
  rw [addPart]
  dsimp only
  rw [hzip, List.foldl_map, write, List.foldl_map]
  rfl

variable {m : Measure} {links : List Ends}

@[simp] theorem size_foldl_addPart (parts : List (List Seat)) (state : Slots × Float32) :
    (parts.foldl (addPart m links) state).1.size = state.1.size := by
  induction parts generalizing state with
  | nil => rfl
  | cons part parts ih => rw [List.foldl_cons, ih, addPart_eq, size_write]

/-- A box has a slot after all parts if it had one, or if one of them has a seat
    for it. -/
theorem isSome_slotOf_foldl_addPart {parts : List (List Seat)} {state : Slots × Float32} {j : Nat}
    (hj : j < state.1.size)
    (h : (slotOf state.1 j).isSome = true ∨ ∃ part ∈ parts, ∃ seat ∈ part, seat.place = j) :
    (slotOf (parts.foldl (addPart m links) state).1 j).isSome = true := by
  induction parts generalizing state with
  | nil =>
      rcases h with h | ⟨part, hpart, _⟩
      · exact h
      · exact absurd hpart List.not_mem_nil
  | cons part parts ih =>
      rw [List.foldl_cons]
      refine ih (by rw [addPart_eq, size_write]; exact hj) ?_
      rw [addPart_eq]
      -- A slot stays once it is there, and a seat in the first part is written to its slot.
      rcases h with h | ⟨part', hpart, seat, hseat, rfl⟩
      · exact Or.inl (isSome_slotOf_write hj (Or.inl h))
      · rcases List.mem_cons.mp hpart with rfl | hpart
        · refine Or.inl (isSome_slotOf_write hj (Or.inr ⟨_, List.mem_map_of_mem hseat⟩))
        · exact Or.inr ⟨part', hpart, seat, hseat, rfl⟩

/-- The parts are those of the layering that hold a box. -/
theorem mem_parts_iff {members : List Nat} {layers : List (List Layering.Spot)}
    {part : List Seat} :
    part ∈ parts members layers ↔ ∃ spots ∈ layers, part = seats members spots ∧ part ≠ [] := by
  rw [parts, (List.mergeSort_perm _ _).mem_iff, List.mem_filter, List.mem_map]
  simp only [Bool.not_eq_true', List.isEmpty_eq_false_iff, ne_eq, eq_comm (a := part)]
  constructor
  · rintro ⟨⟨spots, hspots, heq⟩, hne⟩
    exact ⟨spots, hspots, heq, hne⟩
  · rintro ⟨spots, hspots, heq, hne⟩
    exact ⟨⟨spots, hspots, heq⟩, hne⟩

theorem mem_seats_iff {members : List Nat} {spots : List Layering.Spot} {seat : Seat} :
    seat ∈ seats members spots ↔
      ∃ spot ∈ spots, members[spot.vertex]? = some seat.place ∧ seat.x = spot.x ∧
        seat.y = spot.y := by
  rw [seats, List.mem_filterMap]
  refine exists_congr fun spot => and_congr_right fun _ => ?_
  rw [Option.map_eq_some_iff]
  constructor
  · rintro ⟨place, hplace, rfl⟩
    exact ⟨hplace, rfl, rfl⟩
  · rintro ⟨hplace, hx, hy⟩
    exact ⟨seat.place, hplace, by rw [← hx, ← hy]⟩

/-- Parts that are found are those of a layering, unless it was not asked. -/
theorem partsOf_eq_ok {layering : Layering} {numbering : Numbering} {options : Options}
    {found : List (List Seat)} (h : partsOf layering numbering options = .ok found) :
    found = [] ∨ ∃ layers, layering (effort options) numbering.arcs = .ok layers ∧
      found = parts numbering.members layers := by
  unfold partsOf at h
  by_cases hempty : numbering.arcs.isEmpty = true
  · rw [if_pos hempty] at h
    exact Or.inl (Except.ok.inj h).symm
  · rw [if_neg hempty] at h
    -- Of the answers only a layering that lists something is turned into parts.
    cases hlayers : layering (effort options) numbering.arcs with
    | error fault =>
        rw [hlayers] at h
        simp only [reduceCtorEq] at h
    | ok layers =>
        rw [hlayers] at h
        cases layers with
        | nil => simp only [reduceCtorEq] at h
        | cons spots layers => exact Or.inr ⟨_, rfl, (Except.ok.inj h).symm⟩

/-- A layering that lists a vertex has a seat for its box. -/
theorem exists_seat_of_lists {layering : Layering} {effort : Layering.Effort} {n : Numbering}
    {layers : List (List Layering.Spot)} (hlayers : layering effort n.arcs = .ok layers)
    (hlists : layering.Lists effort n.arcs) {i : Nat} (hi : i ∈ n.members)
    (hlt : n.members.idxOf i < Layering.orderOf n.arcs) :
    ∃ part ∈ parts n.members layers, ∃ seat ∈ part, seat.place = i := by
  rcases hlists with ⟨layers', hlayers', hcount⟩
  rw [hlayers] at hlayers'
  rw [← Except.ok.inj hlayers'] at hcount
  -- The number of the box is listed once, and so somewhere.
  have hmem : n.members.idxOf i ∈ layers.flatten.map Layering.Spot.vertex := by
    rw [← List.count_pos_iff, hcount _ hlt]
    exact Nat.one_pos
  rcases List.mem_map.mp hmem with ⟨spot, hspot, hvertex⟩
  rcases List.mem_flatten.mp hspot with ⟨spots, hspots, hin⟩
  have hget : n.members[spot.vertex]? = some i := by
    rw [hvertex]
    exact List.getElem?_idxOf hi
  have hseat : (⟨i, spot.x, spot.y⟩ : Seat) ∈ seats n.members spots :=
    mem_seats_iff.mpr ⟨spot, hin, hget, rfl, rfl⟩
  exact ⟨_, mem_parts_iff.mpr ⟨spots, hspots, rfl, List.ne_nil_of_mem hseat⟩, _, hseat, rfl⟩

/-! ## Boxes that are left over -/

/-- The boxes that are left over find their slots, if none of them waits for
    the layering. -/
theorem exists_addAlone_eq_ok (r : Request) (members : List Nat) (spacing : Float32)
    (items : List (Item × Nat)) (slots : Slots) (left : Float32)
    (hmembers : ∀ p ∈ items, p.2 ∈ members →
      (slotOf slots p.2).isSome = true ∨ r.isFixed p.2 = true)
    (hsize : ∀ p ∈ items, p.2 < slots.size) :
    ∃ slots', addAlone r members spacing items (slots, left) = .ok slots' ∧
      (∀ j, (slotOf slots j).isSome = true → (slotOf slots' j).isSome = true) ∧
      ∀ p ∈ items, r.isFixed p.2 = false → (slotOf slots' p.2).isSome = true := by
  induction items generalizing slots left with
  | nil => exact ⟨slots, rfl, fun _ h => h, fun _ h => absurd h List.not_mem_nil⟩
  | cons p items ih =>
      rcases p with ⟨item, i⟩
      rcases List.forall_mem_cons.mp hmembers with ⟨hfirst, hmembers⟩
      rcases List.forall_mem_cons.mp hsize with ⟨hi, hsize⟩
      rw [addAlone]
      by_cases hdone : ((slotOf slots i).isSome || r.isFixed i) = true
      · -- The box needs no slot, or has one.
        rcases ih slots left hmembers hsize with ⟨slots', hok, hkeep, hrest⟩
        rw [if_pos hdone]
        refine ⟨slots', hok, hkeep, List.forall_mem_cons.mpr ⟨fun hfree => hkeep i ?_, hrest⟩⟩
        rw [hfree, Bool.or_false] at hdone
        exact hdone
      · rw [Bool.or_eq_true] at hdone
        rw [if_neg (by rw [Bool.or_eq_true]; exact hdone), if_neg fun h => hdone (hfirst h)]
        -- Slots that were there stay, so nothing is missed afterwards either.
        have hstay : ∀ s : Slot, ∀ j, (slotOf slots j).isSome = true →
            (slotOf (slots.setIfInBounds i (some s)) j).isSome = true := by
          intro s j hj
          rw [slotOf_set]
          split
          · rfl
          · exact hj
        rcases ih (slots.setIfInBounds i (some ⟨0, left + item.size.width / 2⟩))
          (left + (item.size.width + spacing))
          (fun p hp hm => (hmembers p hp hm).imp_left (hstay _ p.2))
          (fun p hp => by rw [Array.size_setIfInBounds]; exact hsize p hp) with
          ⟨slots', hok, hkeep, hrest⟩
        refine ⟨slots', hok, fun j hj => hkeep j (hstay _ j hj), ?_⟩
        refine List.forall_mem_cons.mpr ⟨fun _ => hkeep i ?_, hrest⟩
        rw [slotOf_set, if_pos ⟨rfl, hi⟩]
        rfl

/-- If the layering lists what it is asked about, slots are found, and every
    free box has one. -/
theorem exists_ofRequest_eq_ok (layering : Layering) (r : Request) (links : List Ends)
    (options : Options)
    (hlists : (Numbering.ofLinks r.isFixed links).arcs ≠ [] →
      layering.Lists (effort options) (Numbering.ofLinks r.isFixed links).arcs) :
    ∃ slots, ofRequest layering r links options = .ok slots ∧
      ∀ i < r.items.length, r.isFixed i = false → (slotOf slots i).isSome = true := by
  generalize hn : Numbering.ofLinks r.isFixed links = n at hlists
  have hlt : ∀ i ∈ n.members, n.members.idxOf i < Layering.orderOf n.arcs := by
    rw [← hn]
    exact fun i hi => Numbering.idxOf_lt_orderOf hi
  have harcs : ∀ i ∈ n.members, n.arcs ≠ [] := by
    rw [← hn]
    exact fun i hi => Numbering.arcs_ne_nil_of_mem hi
  -- The parts are found, and have seats for all boxes that take part.
  have hparts : ∃ parts, partsOf layering n options = .ok parts ∧
      ∀ i ∈ n.members, ∃ part ∈ parts, ∃ seat ∈ part, seat.place = i := by
    unfold partsOf
    by_cases hempty : n.arcs.isEmpty = true
    · rw [if_pos hempty]
      exact ⟨[], rfl, fun i hi => absurd (List.isEmpty_iff.mp hempty) (harcs i hi)⟩
    · rw [if_neg hempty]
      have hlists := hlists fun h => hempty (List.isEmpty_iff.mpr h)
      rcases hlists with ⟨layers, hlayers, hcount⟩
      rw [hlayers]
      cases layers with
      | nil =>
          -- An answer without parts does not list the ends of the first arc.
          rcases List.exists_mem_of_ne_nil _ (fun h => hempty (List.isEmpty_iff.mpr h)) with
            ⟨arc, harc⟩
          have hnone := hcount arc.1 (Layering.lt_orderOf harc).1
          rw [List.flatten_nil, List.map_nil, List.count_nil] at hnone
          exact absurd hnone Nat.zero_ne_one
      | cons spots layers =>
          exact ⟨_, rfl, fun i hi =>
            exists_seat_of_lists hlayers ⟨_, hlayers, hcount⟩ hi (hlt i hi)⟩
  rcases hparts with ⟨parts, hok, hseats⟩
  have hsize : ∀ p ∈ r.items.zipIdx, p.2 < r.items.length := by
    intro p hp
    have hget := List.mem_zipIdx_iff_getElem?.mp hp
    exact (List.getElem?_eq_some_iff.mp hget).1
  -- Every member has a slot from the parts, so that none is left over.
  rcases exists_addAlone_eq_ok r n.members options.nodeSpacing r.items.zipIdx
    (parts.foldl (addPart (Measure.ofRequest r options) links)
      (Array.replicate r.items.length none, options.padding)).1
    (parts.foldl (addPart (Measure.ofRequest r options) links)
      (Array.replicate r.items.length none, options.padding)).2
    (fun p hp hm => Or.inl (isSome_slotOf_foldl_addPart
      (by rw [Array.size_replicate]; exact hsize p hp) (Or.inr (hseats p.2 hm))))
    (fun p hp => by rw [size_foldl_addPart, Array.size_replicate]; exact hsize p hp) with
    ⟨slots, halone, _, hfree⟩
  refine ⟨slots, ?_, fun i hi hfixed => ?_⟩
  · rw [ofRequest, hn]
    exact Row.bind_eq_ok_iff.mpr ⟨parts, hok, halone⟩
  · refine hfree (r.items[i], i) ?_ hfixed
    rw [List.mem_zipIdx_iff_getElem?]
    exact List.getElem?_eq_getElem hi

end Slots

end Engine

end Flowchart
