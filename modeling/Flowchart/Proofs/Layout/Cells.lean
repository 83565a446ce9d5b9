import Flowchart.Config
import Flowchart.Proofs.Layout.Extent

/-!
# What a Grid Has Room For

When the sheet of a grid contains the boxes in its cells.

The size of the sheet is reckoned from columns and rows, with a margin on either
side; the size of the boxes does not enter into it. A box that is wider than the
distance of two columns and a margin therefore sticks out on the right, unless a
pinned node happens to have made the drawing larger. Nothing in the settings that
are accepted rules this out.

What can be said of every graph is that it is enough to look at two cells. A sum of
singles is rounded, so it is not evident that a box in a farther column reaches
farther; but rounding keeps the order, and with distances that are not negative no
box is farther than one in the last column, or in the last row. Boxes that are
pinned are no trouble: the drawing grows until it contains them.

## Main definitions

* `Drawing.Holds`: A drawing has room for its boxes along an axis.
* `Graph.PinsNumbers`: No node is pinned at what is not a number.
* `Grid.Usable`: The distances of a grid are finite and not negative.
* `Grid.last`: The farthest cell.
* `Grid.Fits`: The sheet has room for the box in the farthest cell.

## Theorems

* `Grid.index_le_last`: No cell is farther than the last.
* `Grid.far_box_le`: Boxes in farther columns and rows are farther.
* `Grid.le_bounds`: A drawing contains its sheet and what is pinned.
* `Grid.holds_of_fits`: Where the last box has room, all have.
* `Grid.fits_of_holds`: Where all have room whatever is pinned, the last box has.
* `Config.usable_of_flaw?`: The grid of settings that are accepted can be used.
* `grid_holds_iff`: Which accepted settings leave room for the boxes of all graphs.
* `grid_does_not_always_hold`: Some do not.
-/

namespace Flowchart

/-- Along an axis a drawing has room for the boxes of all its nodes. -/
def Drawing.Holds (d : Drawing) (axis : Axis) : Prop :=
  ∀ n ∈ d.graph.nodes, ∃ b, n.box? = some b ∧ b.far axis ≤ d.bounds.along axis

/-- No node is pinned at what is not a number. -/
def Graph.PinsNumbers (g : Graph) : Prop :=
  ∀ n ∈ g.nodes, ∀ p, n.pinnedPosition = some p → ∀ axis : Axis, (p.along axis.side).isNaN = false

namespace Grid

/-- The distances of a grid are finite and not negative. -/
structure Usable (grid : Grid) : Prop where
  spacing : grid.columnSpacing.isFinite = true ∧ 0 ≤ grid.columnSpacing
  rowSpacing : grid.rowSpacing.isFinite = true ∧ 0 ≤ grid.rowSpacing
  margin : grid.margin.isFinite = true ∧ 0 ≤ grid.margin
  nodeSize : ∀ axis, (grid.nodeSize.along axis).isFinite = true

/-- The distance from one cell to the next along an axis. -/
def spacing (grid : Grid) : Axis → Float32
  | .across => grid.columnSpacing
  | .down => grid.rowSpacing

/-- The column and the row of a cell. -/
def index (grid : Grid) (i : Nat) : Axis → Nat
  | .across => i % grid.width
  | .down => i / grid.width

/-- The cell of so many that is farthest along an axis: it is in the last column,
    or in the last row. -/
def last (grid : Grid) (count : Nat) : Axis → Nat
  | .across => min count grid.width - 1
  | .down => count - 1

/-- The box in a cell. -/
def box (grid : Grid) (i : Nat) : Box := .ofTopLeft (grid.cell i) grid.nodeSize

/-- Along an axis the sheet for so many cells has room for the box in the farthest
    of them. -/
def Fits (grid : Grid) (count : Nat) (axis : Axis) : Prop :=
  (grid.box (grid.last count axis)).far axis ≤ (grid.extent count).along axis

instance {grid : Grid} {count : Nat} {axis : Axis} : Decidable (grid.Fits count axis) :=
  inferInstanceAs (Decidable (_ ≤ _))

variable {grid : Grid} {count i j : Nat} {axis : Axis}

theorem far_box (grid : Grid) (i : Nat) (axis : Axis) :
    (grid.box i).far axis = Float32.ofNat (grid.index i axis) * grid.spacing axis + grid.margin +
      grid.nodeSize.along axis := by
  rw [box, Box.far_ofTopLeft]
  cases axis <;> rfl

/-! ## Columns and rows -/

theorem width_pos (grid : Grid) : 0 < grid.width := Nat.le_max_right _ _

theorem last_lt (hcount : 0 < count) (axis : Axis) : grid.last count axis < count := by
  have hwidth := grid.width_pos
  cases axis with
  | across =>
      dsimp only [last]
      omega
  | down => exact Nat.sub_lt hcount Nat.one_pos

/-- No cell is farther than the last. -/
theorem index_le_last (hi : i < count) (axis : Axis) :
    grid.index i axis ≤ grid.index (grid.last count axis) axis := by
  have hwidth := grid.width_pos
  cases axis with
  | across =>
      dsimp only [index, last]
      -- The last column is in use as soon as there are cells enough for one row.
      rw [Nat.mod_eq_of_lt (a := min count grid.width - 1) (by omega)]
      have hle := Nat.mod_le i grid.width
      have hlt := Nat.mod_lt i hwidth
      omega
  | down => exact Nat.div_le_div_right (by dsimp only [last]; omega)

/-- A box in a farther column, or row, is farther, if it is somewhere. -/
theorem far_box_le (h : grid.Usable) (hij : grid.index i axis ≤ grid.index j axis)
    (hj : ((grid.box j).far axis).isNaN = false) :
    (grid.box i).far axis ≤ (grid.box j).far axis := by
  have hspacing : (grid.spacing axis).isFinite = true ∧ 0 ≤ grid.spacing axis := by
    cases axis with
    | across => exact h.spacing
    | down => exact h.rowSpacing
  have hwhole := (Single.reads_ofNat (grid.index i axis)).le
    (Single.reads_ofNat (grid.index j axis)) (Nat.mul_le_mul_right _ (Nat.mul_le_mul_right _ hij))
  rw [far_box] at hj
  rw [far_box, far_box]
  -- Size and margin are the same for both, and so is the factor of the distance.
  refine Single.add_le_add_of_isFinite (Single.add_le_add_of_isFinite ?_ h.margin.1)
    (h.nodeSize axis)
  exact Single.mul_le_mul (Single.reads_ofNat _).nonneg hwhole hspacing.1 hspacing.2
    (Single.isNaN_of_add (Single.isNaN_of_add hj))

/-! ## The sheet -/

theorem position_of_free {n : Node} (h : n.pinnedPosition = none) (i : Nat) :
    grid.position n i = grid.cell i := by
  rw [position, h]
  rfl

theorem position_of_pinned {n : Node} {p : Point} (h : n.pinnedPosition = some p) (i : Nat) :
    grid.position n i = p := by
  rw [position, h]
  rfl

/-- A drawing is as large as its sheet at least, and contains what is pinned. -/
theorem le_bounds (h : grid.Usable) {g : Graph}
    (hextent : ((grid.extent g.nodes.length).along axis).isNaN = false) :
    (grid.extent g.nodes.length).along axis ≤ (grid.layout g).bounds.along axis ∧
      ∀ b ∈ grid.pinnedBoxes g.nodes, (b.far axis).isNaN = false →
        b.far axis ≤ (grid.layout g).bounds.along axis := by
  rcases Single.foldl_max_spec hextent
    ((grid.pinnedBoxes g.nodes).map fun b => b.far axis + grid.margin) with ⟨hnan, hle, hroom⟩
  rw [← Size.along_foldl_growTo] at hnan hle hroom
  refine ⟨(Single.le_iff _ _).mpr ⟨hextent, hnan, hle⟩, fun b hb hfar => ?_⟩
  have hgrown := Single.isNaN_add hfar h.margin.1
  refine Single.le_trans (Single.le_add_right hfar h.margin.1 h.margin.2) ?_
  exact (Single.le_iff _ _).mpr ⟨hgrown, hnan, hroom _ (List.mem_map_of_mem hb) hgrown⟩

/-- A sheet with room for the last boxes has room for all, and is made large enough
    for what is pinned. -/
theorem holds_of_fits (h : grid.Usable) {g : Graph} (hfits : grid.Fits g.nodes.length axis)
    (hpins : g.PinsNumbers) : (grid.layout g).Holds axis := by
  rcases (Single.le_iff _ _).mp hfits with ⟨hlast, hextent, _⟩
  rcases le_bounds h hextent with ⟨hsheet, hpinned⟩
  intro n hn
  rcases List.mem_map.mp hn with ⟨⟨n, i⟩, hmem, rfl⟩
  have hget := List.mem_zipIdx_iff_getElem?.mp hmem
  refine ⟨_, Node.box?_placed _ _ _, ?_⟩
  -- A free node is in its cell, and a pinned one is what the drawing was made larger for.
  cases hpin : n.pinnedPosition with
  | none =>
      have hi : i < g.nodes.length := (List.getElem?_eq_some_iff.mp hget).1
      rw [position_of_free hpin]
      exact Single.le_trans (far_box_le h (index_le_last hi axis) hlast)
        (Single.le_trans hfits hsheet)
  | some p =>
      have hbox : Box.ofTopLeft p grid.nodeSize ∈ grid.pinnedBoxes g.nodes := by
        refine List.mem_filterMap.mpr ⟨n, List.mem_of_getElem? hget, ?_⟩
        rw [hpin]
        rfl
      rw [position_of_pinned hpin]
      refine hpinned _ hbox ?_
      rw [Box.far_ofTopLeft]
      exact Single.isNaN_add (hpins n (List.mem_of_getElem? hget) p hpin axis) (h.nodeSize axis)

/-- Where nothing is pinned, the sheet is all the room there is. -/
theorem fits_of_holds (hcount : 0 < count)
    (h : ∀ g : Graph, g.nodes.length = count → g.PinsNumbers → (grid.layout g).Holds axis) :
    grid.Fits count axis := by
  -- A graph of as many nodes, none of them pinned, asks for no more than the cells.
  let free : Graph := ⟨(List.range count).map fun i => .named (toString i), []⟩
  have hlength : free.nodes.length = count := by
    rw [List.length_map, List.length_range]
  have hfree : ∀ n ∈ free.nodes, n.pinnedPosition = none :=
    List.forall_mem_map.mpr fun _ _ => rfl
  have hpins : free.PinsNumbers := fun n hn p hp => by
    rw [hfree n hn] at hp
    cases hp
  have hbounds : (grid.layout free).bounds = grid.extent count := by
    have hnone : grid.pinnedBoxes free.nodes = [] :=
      List.filterMap_eq_nil_iff.mpr fun n hn => by rw [hfree n hn, Option.map_none]
    rw [layout, hnone, hlength]
    rfl
  -- The node in the last cell is drawn there.
  have hlast : grid.last count axis < free.nodes.length := by
    rw [hlength]
    exact last_lt hcount axis
  have hmem : (free.nodes[grid.last count axis], grid.last count axis) ∈ free.nodes.zipIdx :=
    List.mem_zipIdx_iff_getElem?.mpr (List.getElem?_eq_getElem hlast)
  rcases h free hlength hpins _ (List.mem_map_of_mem hmem) with ⟨b, hb, hroom⟩
  rw [hbounds] at hroom
  dsimp only at hb
  rw [Node.box?_placed, Option.some.injEq,
    position_of_free (hfree _ (List.getElem_mem hlast))] at hb
  rw [← hb] at hroom
  exact hroom

end Grid

/-! ## Settings -/

/-- The distances of settings that are accepted are finite and not negative. -/
theorem Config.isDistance_of_flaw? {c : Config} (hc : c.flaw? = none) :
    ∀ distance ∈ c.distances, distance.2.isFinite = true ∧ 0 ≤ distance.2 := by
  rintro ⟨key, x⟩ hx
  unfold flaw? at hc
  split at hc
  · cases hc
  · rename_i hfind
    have hgood : isDistance x = true := by
      have hnot := List.find?_eq_none.mp hfind _ hx
      rwa [Bool.not_eq_true, Bool.not_eq_false'] at hnot
    rw [isDistance, Bool.and_eq_true, Bool.not_eq_true', decide_eq_false_iff_not] at hgood
    exact ⟨hgood.1, Single.le_of_not_lt (Single.isNaN_of_isFinite hgood.1) rfl hgood.2⟩

/-- The grid of settings that are accepted can be used. -/
theorem Config.usable_of_flaw? {c : Config} (hc : c.flaw? = none) : c.grid.Usable := by
  have hgood := isDistance_of_flaw? hc
  simp only [distances, List.forall_mem_cons] at hgood
  rcases hgood with ⟨_, _, _, hcolumn, hrow, hmargin, hacross, hdown, _⟩
  refine ⟨hcolumn, hrow, hmargin, fun axis => ?_⟩
  cases axis with
  | across => exact hacross.1
  | down => exact hdown.1

/-- Under settings that are accepted, the drawings of so many nodes on a grid have
    room for all boxes, whatever is pinned, if and only if the sheet for as many cells
    has room for the box in the last column and for the one in the last row. -/
theorem grid_holds_iff (c : Config) (hc : c.flaw? = none) {count : Nat} (hcount : 0 < count) :
    (∀ g : Graph, g.nodes.length = count → g.PinsNumbers → ∀ axis, (c.grid.layout g).Holds axis) ↔
      ∀ axis, c.grid.Fits count axis := by
  constructor
  · intro h axis
    exact Grid.fits_of_holds hcount fun g hlength hpins => h g hlength hpins axis
  · rintro h g rfl hpins axis
    exact Grid.holds_of_fits (c.usable_of_flaw? hc) (h axis) hpins

/-- The usual grid has room for two nodes, one of them pinned beyond its cells. -/
theorem grid_holds_iff_usual :
    let g : Graph := ⟨[.named "A", (Node.named "P").pinAt ⟨900, -30⟩], []⟩
    ({} : Config).flaw? = none ∧ 0 < g.nodes.length ∧ g.PinsNumbers ∧
      (Grid.layout {} g).bounds = ⟨1070, 200⟩ ∧ ∀ axis, (Grid.layout {} g).Holds axis := by
  intro g
  have hflaw : ({} : Config).flaw? = none := by decide +kernel
  have hcount : 0 < g.nodes.length := by decide
  have hpins : g.PinsNumbers := by
    refine List.forall_mem_cons.mpr ⟨fun _ hp => (nomatch hp), List.forall_mem_singleton.mpr ?_⟩
    rintro p ⟨⟩ axis
    cases axis <;> decide +kernel
  have hfits : ∀ axis, Grid.Fits {} g.nodes.length axis := fun axis => by
    cases axis <;> decide +kernel
  exact ⟨hflaw, hcount, hpins, by decide +kernel,
    (grid_holds_iff {} hflaw hcount).mpr hfits g rfl hpins⟩

/-- There are settings that are accepted and let a box stick out: the sheet does not
    depend on the size of the nodes, and nothing is pinned that would make it larger. -/
theorem grid_does_not_always_hold :
    ¬ ∀ (c : Config) (g : Graph), c.flaw? = none → g.nodes ≠ [] →
      ∀ axis, (c.grid.layout g).Holds axis := by
  intro h
  rcases h { grid := { nodeSize := ⟨300, 60⟩ } } ⟨[.named "A"], []⟩ (by decide +kernel)
    (List.cons_ne_nil _ _) .across _ (List.mem_singleton.mpr rfl) with ⟨b, hb, hroom⟩
  rw [Node.box?_placed, Option.some.injEq] at hb
  rw [← hb] at hroom
  exact absurd hroom (by decide +kernel)

end Flowchart
