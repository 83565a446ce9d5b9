import Flowchart.Proofs.Engine.Column
import Flowchart.Proofs.Engine.Level

/-!
# Boxes of a Part Stand Apart

A part is laid out from where the part before it ended. Each of its boxes gets
a column, and the column a middle. If no operation on singles loses anything
these are sums of what they were made of, and what is known of columns says
that boxes of one layer stand a box apart. The part ends to the right of its
last column, so whatever comes next does not reach into it.

A middle that is not finite is left out of all this. Nothing meets a box that
has no place.

## Main definitions

* `Layering.Spaced`: What is asked of the spots of a part.
* `Slots.Spread`: The same of its seats.
* `Slots.partOperations`: What is computed to lay out a part.

## Theorems

* `leftmost_spec`: No seat is to the left of the leftmost.
* `columnAt_made`: A column was made of a distance from the leftmost seat.
* `centers_apart`: Boxes of one layer of a part stand a box apart.
* `Measure.next_spec`: They end before the next part starts.
-/

namespace Flowchart

/-- The distance of two heights, or of one from itself, is nothing or more than
    is overlooked, and vertices of one height are at least the distance of
    adjacent vertices apart. An infinite height has no distance from itself. -/
structure Layering.Spaced (spots : List Layering.Spot) : Prop where
  heights : ∀ s ∈ spots, ∀ t ∈ spots,
    ((s.y - t.y).abs == 0) = true ∨ Engine.layerEpsilon ≤ (s.y - t.y).abs
  apart : ∀ s ∈ spots, ∀ t ∈ spots, s.vertex ≠ t.vertex → (s.y == t.y) = true →
    Layering.spacing ≤ (s.x - t.x).abs

/-- All parts that a layering makes of arcs are spaced. -/
def Layering.Spaces (layering : Layering) (effort : Layering.Effort) (arcs : List (Nat × Nat)) :
    Prop :=
  ∀ layers, layering effort arcs = .ok layers → ∀ spots ∈ layers, Layering.Spaced spots

/-- A width and a height that are numbers, finite and not negative. -/
structure Size.Proper (size : Size) : Prop where
  width_finite : size.width.isFinite = true
  width_nonneg : 0 ≤ size.width
  height_finite : size.height.isFinite = true
  height_nonneg : 0 ≤ size.height

instance (size : Size) : Decidable size.Proper :=
  decidable_of_iff (size.width.isFinite = true ∧ 0 ≤ size.width ∧ size.height.isFinite = true ∧
    0 ≤ size.height) ⟨fun ⟨a, b, c, d⟩ => ⟨a, b, c, d⟩, fun ⟨a, b, c, d⟩ => ⟨a, b, c, d⟩⟩

namespace Engine

open Single (units Operation)

namespace Measure

/-- What is computed for the distance between columns. -/
def columnOperation (m : Measure) : Operation := .sum m.widest m.spacing

/-- What is computed for the middle of a column. -/
def centerOperations (m : Measure) (left column : Float32) : List Operation :=
  [.product column m.column, .sum left (column * m.column), .half m.widest,
    .sum (left + column * m.column) (m.widest / 2)]

/-- What is computed for the start of the next part. -/
def nextOperations (m : Measure) (left last : Float32) : List Operation :=
  [.product last m.column, .sum (last * m.column) m.widest,
    .sum (last * m.column + m.widest) m.spacing,
    .sum left (last * m.column + m.widest + m.spacing)]

end Measure

namespace Slots

/-- What is computed for the slot of a seat. -/
def seatOperations (m : Measure) (left : Float32) (seats : List Seat) (seat : Seat) :
    List Operation :=
  .narrowing ((seat.x - leftmost seats) / Layering.spacing) ::
    m.centerOperations left (columnAt seats seat)

/-- What is computed for the slots of a part. -/
def partOperations (m : Measure) (left : Float32) (seats : List Seat) : List Operation :=
  m.columnOperation :: (seats.flatMap (seatOperations m left seats) ++
    m.nextOperations left (lastColumn seats))

/-- The seats of a part are spread as the spots that they were made of. -/
structure Spread (seats : List Seat) : Prop where
  heights : Heights (seats.map Seat.y)
  apart : ∀ s ∈ seats, ∀ t ∈ seats, s.place ≠ t.place → (s.y == t.y) = true →
    Layering.spacing ≤ (s.x - t.x).abs

theorem spread_seats {spots : List Layering.Spot} (h : Layering.Spaced spots)
    (members : List Nat) : Spread (seats members spots) := by
  refine ⟨fun a ha b hb => ?_, fun s hs t ht hne heq => ?_⟩
  · rcases List.mem_map.mp ha with ⟨s, hs, rfl⟩
    rcases List.mem_map.mp hb with ⟨t, ht, rfl⟩
    rcases mem_seats_iff.mp hs with ⟨spot, hspot, _, _, hy⟩
    rcases mem_seats_iff.mp ht with ⟨spot', hspot', _, _, hy'⟩
    rw [hy, hy']
    exact h.heights spot hspot spot' hspot'
  · -- Seats of two boxes come from spots of two vertices.
    rcases mem_seats_iff.mp hs with ⟨spot, hspot, hplace, hx, hy⟩
    rcases mem_seats_iff.mp ht with ⟨spot', hspot', hplace', hx', hy'⟩
    rw [hy, hy'] at heq
    rw [hx, hx']
    refine h.apart spot hspot spot' hspot' (fun hvertex => hne ?_) heq
    rw [hvertex, hplace'] at hplace
    exact (Option.some.inj hplace).symm

/-! ## Columns -/

/-- The least of places from `start` on is not greater than any of them, and is
    one of them or `start`. -/
theorem foldl_least_spec (seats : List Seat) (start : Float) :
    let least := seats.foldl (fun least seat => if seat.x < least then seat.x else least) start
    (least = start ∨ least < start) ∧ (∀ seat ∈ seats, ¬seat.x < least) ∧
      (least = start ∨ ∃ seat ∈ seats, seat.x = least) := by
  induction seats generalizing start with
  | nil => exact ⟨Or.inl rfl, fun seat h => absurd h List.not_mem_nil, Or.inl rfl⟩
  | cons seat seats ih =>
      rw [List.foldl_cons]
      -- The first seat is compared once, and what is left of both goes on into the rest.
      have hfirst : ¬seat.x < (if seat.x < start then seat.x else start) := by
        split
        · exact Double.lt_irrefl _
        · assumption
      have hfrom : (if seat.x < start then seat.x else start) = start ∨
          (seat.x < start ∧ (if seat.x < start then seat.x else start) = seat.x) := by
        by_cases hlt : seat.x < start
        · exact Or.inr ⟨hlt, if_pos hlt⟩
        · exact Or.inl (if_neg hlt)
      generalize (if seat.x < start then seat.x else start) = next at hfirst hfrom ⊢
      rcases ih next with ⟨hle, hrest, hone⟩
      refine ⟨?_, List.forall_mem_cons.mpr ⟨fun hlt => ?_, hrest⟩, ?_⟩
      · rcases hfrom with rfl | ⟨hlt, rfl⟩
        · exact hle
        · refine Or.inr (hle.elim (fun h => ?_) fun h => Double.lt_trans h hlt)
          rw [h]
          exact hlt
      · refine hfirst (hle.elim (fun h => ?_) fun h => Double.lt_trans hlt h)
        rw [h] at hlt
        exact hlt
      · rcases hone with hnext | ⟨seat', hseat, hx⟩
        · rcases hfrom with rfl | ⟨_, rfl⟩
          · exact Or.inl hnext
          · exact Or.inr ⟨seat, List.mem_cons_self, hnext.symm⟩
        · exact Or.inr ⟨seat', List.mem_cons_of_mem _ hseat, hx⟩

/-- No seat is to the left of the leftmost, which is one of them if it has a
    place. -/
theorem leftmost_spec {seats : List Seat} (hf : (leftmost seats).isFinite = true) :
    (∀ seat ∈ seats, seat.x.isFinite = true →
      Double.units (leftmost seats) ≤ Double.units seat.x) ∧
      ∃ seat ∈ seats, seat.x = leftmost seats := by
  -- The search starts at infinity, which is no place.
  rcases foldl_least_spec seats (1 / 0) with ⟨_, hall, hone⟩
  refine ⟨fun seat hseat hx => ?_, hone.resolve_left fun h => ?_⟩
  · have hnot := hall seat hseat
    rw [Double.lt_iff] at hnot
    exact Int.not_lt.mp fun hlt =>
      hnot ⟨Double.isNaN_of_isFinite hx, Double.isNaN_of_isFinite hf, hlt⟩
  · have hinfinite : (1 / 0 : Float).isFinite = false := by decide +kernel
    rw [leftmost, h, hinfinite] at hf
    exact Bool.false_ne_true hf

section column

variable {seats : List Seat} {seat : Seat}

/-- A column was made of the distance from the leftmost seat. -/
theorem columnAt_made (hseat : seat ∈ seats)
    (hexact : (Operation.narrowing ((seat.x - leftmost seats) / Layering.spacing)).Exact)
    (hf : (columnAt seats seat).isFinite = true) :
    seat.x.isFinite = true ∧ (leftmost seats).isFinite = true ∧
      Column.Made (Double.units (leftmost seats)) (Double.units seat.x)
        (units (columnAt seats seat)) := by
  -- A finite column was made of a finite quotient, and so on down to the places.
  rcases Operation.narrowing_exact hexact hf with ⟨hquotient, hnarrow⟩
  have hdifference := Double.isFinite_of_div hquotient
  rcases Double.isFinite_of_sub hdifference with ⟨hx, hleast⟩
  refine ⟨hx, hleast, (leftmost_spec hleast).1 seat hseat hx,
    Double.units (seat.x - leftmost seats), Double.units_sub hdifference, ?_⟩
  have hdiv := Double.units_div (b := Layering.spacing) (k := 10) (by decide +kernel)
    (by decide +kernel) (by decide) hquotient
  rw [← hnarrow] at hdiv
  exact hdiv

/-- The column of the leftmost seat is the first. -/
theorem columnAt_leftmost (hx : seat.x = leftmost seats)
    (hf : (leftmost seats).isFinite = true) : columnAt seats seat = 0 := by
  rw [columnAt, hx, Double.sub_self hf]
  decide +kernel

end column

end Slots

/-! ## Middles -/

namespace Measure

variable {m : Measure} {left column : Float32}

/-- A finite middle is the sum that it stands for. -/
structure CenterAt (m : Measure) (left column : Float32) : Prop where
  left_finite : left.isFinite = true
  half_finite : (m.widest / 2).isFinite = true
  distance_finite : m.column.isFinite = true
  column_finite : column.isFinite = true
  distance_eq : units m.column = units m.widest + units m.spacing
  half_eq : 2 * units (m.widest / 2) = units m.widest
  offset_eq : units (column * m.column) * 2 ^ 149 = units column * units m.column
  eq : units (m.center left column) =
    units left + units (column * m.column) + units (m.widest / 2)
  side_fits : Single.Fits (units left + units (column * m.column))
  center_fits : Single.Fits
    (units left + units (column * m.column) + units (m.widest / 2))

theorem center_at (hdistance : m.columnOperation.Exact)
    (hexact : ∀ op ∈ m.centerOperations left column, op.Exact)
    (hf : (m.center left column).isFinite = true) : CenterAt m left column := by
  simp only [centerOperations, List.forall_mem_cons] at hexact
  rcases hexact with ⟨hproduct, hside, hhalf, hcenter, _⟩
  -- From the outside in, a finite result has finite operands.
  rcases Operation.sum_exact hcenter hf with ⟨hsf, hhf, hc⟩
  rcases Operation.sum_exact hside hsf with ⟨hlf, hpf, hs⟩
  rcases Operation.product_exact hproduct hpf with ⟨hnf, hcf, hp⟩
  rcases Operation.half_exact hhalf hhf with ⟨_, hh⟩
  rcases Operation.sum_exact hdistance hcf with ⟨_, _, hsum⟩
  rw [hs] at hc
  refine ⟨hlf, hhf, hcf, hnf, hsum, hh, hp, hc, ?_, ?_⟩
  · rw [← hs]
    exact Single.fits_units hsf
  · rw [← hc]
    exact Single.fits_units hf

/-- A column has a finite middle if another one has. -/
theorem CenterAt.isFinite_center {column' : Float32} (h : CenterAt m left column)
    (hexact : ∀ op ∈ m.centerOperations left column', op.Exact)
    (hf : column'.isFinite = true) : (m.center left column').isFinite = true := by
  simp only [centerOperations, List.forall_mem_cons] at hexact
  rcases hexact with ⟨hproduct, hside, _, hcenter, _⟩
  exact (hcenter (hside h.left_finite (hproduct hf h.distance_finite).1).1 h.half_finite).1

/-- Widths and distances that are not negative. -/
structure Nonneg (m : Measure) : Prop where
  widest : 0 ≤ units m.widest
  spacing : 0 ≤ units m.spacing

theorem CenterAt.frame (h : CenterAt m left column) (hm : m.Nonneg) :
    Column.Frame (units left) (units m.widest) (units (m.widest / 2)) (units m.column) where
  widest_nonneg := hm.widest
  twice_half := h.half_eq
  widest_le := by
    have hspacing := hm.spacing
    rw [h.distance_eq]
    omega
  left_fits := Single.fits_units h.left_finite
  half_fits := Single.fits_units h.half_finite
  column_fits := Single.fits_units h.distance_finite

theorem CenterAt.at_column (h : CenterAt m left column) (hpos : 0 ≤ units column) :
    Column.At (units left) (units (m.widest / 2)) (units m.column) (units column)
      (units (column * m.column)) where
  nonneg := hpos
  fits := Single.fits_units h.column_finite
  product := h.offset_eq
  side_fits := h.side_fits
  center_fits := h.center_fits

/-- The first column is no distance from the left side. -/
theorem CenterAt.first (h : CenterAt m left 0) :
    Column.At (units left) (units (m.widest / 2)) (units m.column) 0 0 := by
  have hzero : units ((0 : Float32) * m.column) = 0 := by
    have hoffset := h.offset_eq
    rw [Single.units_zero, Int.zero_mul] at hoffset
    omega
  have hfirst := h.at_column (Int.le_refl 0)
  rw [hzero] at hfirst
  exact hfirst

/-- The widest box keeps to the right of the left side. -/
theorem CenterAt.left_le (h : CenterAt m left column) (hm : m.Nonneg) (hpos : 0 ≤ units column) :
    2 * units left + units m.widest ≤ 2 * units (m.center left column) := by
  have hwidest := hm.widest
  have hspacing := hm.spacing
  have hstart := Int.mul_nonneg hpos (b := units m.column) (by
    rw [h.distance_eq]
    omega)
  rw [← h.offset_eq] at hstart
  have hhalf := h.half_eq
  rw [h.eq]
  omega

/-- The next part starts to the right of the last column, and of the part. -/
theorem next_spec (hm : m.Nonneg) {last : Float32} (hlast : 0 ≤ units last)
    (hdistance : m.columnOperation.Exact) (hexact : ∀ op ∈ m.nextOperations left last, op.Exact)
    (hf : (m.next left last).isFinite = true) :
    left.isFinite = true ∧ units left ≤ units (m.next left last) ∧
      ∀ {column}, CenterAt m left column → units column ≤ units last →
        2 * units (m.center left column) + units m.widest ≤ 2 * units (m.next left last) := by
  have hwidest := hm.widest
  have hspacing := hm.spacing
  simp only [nextOperations, List.forall_mem_cons] at hexact
  rcases hexact with ⟨hproduct, hbox, hgap, hnext, _⟩
  -- From the outside in, as for the center of a column.
  rcases Operation.sum_exact hnext hf with ⟨hlf, hgf, hn⟩
  rcases Operation.sum_exact hgap hgf with ⟨hbf, _, hg⟩
  rcases Operation.sum_exact hbox hbf with ⟨hpf, _, hb⟩
  rcases Operation.product_exact hproduct hpf with ⟨_, hcf, hp⟩
  have hcolumn : 0 ≤ units m.column := by
    rcases Operation.sum_exact hdistance hcf with ⟨_, _, hd⟩
    change 0 ≤ units (m.widest + m.spacing)
    omega
  have hoffset := Int.mul_nonneg hlast hcolumn
  rw [← hp] at hoffset
  refine ⟨hlf, ?_, fun hc hle => ?_⟩
  -- The last column and the box in it come before the gap to the next part.
  · change units left ≤ units (left + (last * m.column + m.widest + m.spacing))
    omega
  · have hbefore := Int.mul_le_mul_of_nonneg_right hle hcolumn
    rw [← hc.offset_eq, ← hp] at hbefore
    have hhalf := hc.half_eq
    rw [hc.eq]
    change _ ≤ 2 * units (left + (last * m.column + m.widest + m.spacing))
    omega

end Measure

namespace Slots

variable {m : Measure} {left : Float32} {seats : List Seat}

/-- The last column is not before any other, and not before the first. -/
theorem lastColumn_spec (seats : List Seat) :
    0 ≤ units (lastColumn seats) ∧ ∀ seat ∈ seats, (columnAt seats seat).isNaN = false →
      units (columnAt seats seat) ≤ units (lastColumn seats) := by
  rcases Single.foldl_max_spec (a := 0) rfl (columns seats) with ⟨_, hfirst, hall⟩
  exact ⟨hfirst, fun seat hseat hnan => hall _ (List.mem_map_of_mem hseat) hnan⟩

section exact

variable (hexact : ∀ op ∈ partOperations m left seats, op.Exact)

include hexact

theorem centerOperations_exact {seat : Seat} (hseat : seat ∈ seats) :
    ∀ op ∈ m.centerOperations left (columnAt seats seat), op.Exact :=
  fun op hop => hexact op (List.mem_cons_of_mem _ (List.mem_append_left _
    (List.mem_flatMap.mpr ⟨seat, hseat, List.mem_cons_of_mem _ hop⟩)))

/-- What is known of a seat with a finite middle. -/
theorem seat_spec {seat : Seat} (hseat : seat ∈ seats)
    (hf : (m.center left (columnAt seats seat)).isFinite = true) :
    Measure.CenterAt m left (columnAt seats seat) ∧ seat.x.isFinite = true ∧
      (leftmost seats).isFinite = true ∧
      Column.Made (Double.units (leftmost seats)) (Double.units seat.x)
        (units (columnAt seats seat)) := by
  have hc := Measure.center_at (hexact _ List.mem_cons_self) (centerOperations_exact hexact hseat)
    hf
  refine ⟨hc, columnAt_made hseat (hexact _ ?_) hc.column_finite⟩
  exact List.mem_cons_of_mem _ (List.mem_append_left _
    (List.mem_flatMap.mpr ⟨seat, hseat, List.mem_cons_self⟩))

/-- The leftmost seat has the first column, and a middle like the others. -/
theorem first_spec {column : Float32} (hc : Measure.CenterAt m left column)
    (hleast : (leftmost seats).isFinite = true) :
    Column.At (units left) (units (m.widest / 2)) (units m.column) 0 0 := by
  rcases (leftmost_spec hleast).2 with ⟨first, hmem, hx⟩
  have hcenter := centerOperations_exact hexact hmem
  rw [columnAt_leftmost hx hleast] at hcenter
  exact (Measure.center_at (hexact _ List.mem_cons_self) hcenter
    (hc.isFinite_center hcenter (by decide +kernel))).first

end exact

/-- Boxes of one layer have one height, so their places are ten apart, but for
    the rounding of a difference. -/
theorem places_apart (hspread : Spread seats) {links : List Ends} {s t : Seat} (hs : s ∈ seats)
    (ht : t ∈ seats) (hne : s.place ≠ t.place)
    (hrank : rankAt seats links s = rankAt seats links t) (hxs : s.x.isFinite = true)
    (hxt : t.x.isFinite = true) :
    2 ^ 52 * (10 * Double.one) ≤
      (2 ^ 52 + 1) * (Double.units s.x - Double.units t.x).natAbs := by
  have hheight := units_y_eq_of_rankAt_eq hspread.heights hs ht hrank
  have hyf := hspread.heights.isFinite (List.mem_map_of_mem hs)
  have hyf' := hspread.heights.isFinite (List.mem_map_of_mem ht)
  have hfar := hspread.apart s hs t ht hne ((Double.beq_iff _ _).mpr
    ⟨Double.isNaN_of_isFinite hyf, Double.isNaN_of_isFinite hyf', hheight⟩)
  rw [Double.le_iff, Double.units_abs] at hfar
  -- The difference of the two places was rounded before it was compared.
  have hten : Double.units Layering.spacing = 10 * Double.one := by decide +kernel
  have hsub := Double.natAbs_units_sub_le hxs hxt
  rw [hten] at hfar
  omega

/-- Two boxes of one layer of a part stand a box apart. -/
theorem centers_apart (hm : m.Nonneg) (hspread : Spread seats)
    (hexact : ∀ op ∈ partOperations m left seats, op.Exact) {links : List Ends} {s t : Seat}
    (hs : s ∈ seats) (ht : t ∈ seats) (hne : s.place ≠ t.place)
    (hrank : rankAt seats links s = rankAt seats links t)
    (hsf : (m.center left (columnAt seats s)).isFinite = true)
    (htf : (m.center left (columnAt seats t)).isFinite = true) :
    units m.widest ≤
      (units (m.center left (columnAt seats s)) -
        units (m.center left (columnAt seats t))).natAbs := by
  rcases seat_spec hexact hs hsf with ⟨hcs, hxs, hleast, hmade⟩
  rcases seat_spec hexact ht htf with ⟨hct, hxt, _, hmade'⟩
  have hfirst := first_spec hexact hcs hleast
  have hapart := places_apart hspread hs ht hne hrank hxs hxt
  -- The left end and half a box are added to both columns, and so they do not count.
  have hdiff : units (m.center left (columnAt seats s)) - units (m.center left (columnAt seats t)) =
      units (columnAt seats s * m.column) - units (columnAt seats t * m.column) := by
    rw [hcs.eq, hct.eq]
    omega
  rw [hdiff]
  -- Either seat may be the one to the right.
  rcases Int.le_total (Double.units s.x) (Double.units t.x) with hle | hle
  · have hcolumns := Column.apart (hcs.frame hm) hfirst (hcs.at_column hmade.nonneg)
      (hct.at_column hmade'.nonneg) (hmade.gap hmade' hle (by omega))
    omega
  · exact Column.apart (hcs.frame hm) hfirst (hct.at_column hmade'.nonneg)
      (hcs.at_column hmade.nonneg) (hmade'.gap hmade hle (by omega))

end Slots

end Engine

end Flowchart
