import Flowchart.Viewport
import Flowchart.Proofs.Layout.Cells
import Flowchart.Proofs.Session.Pins
import Flowchart.Proofs.Single.Quotient

/-!
# Fitted Viewports

A renderer that fits a drawing into its canvas also has to find its way back: a pointer on the
screen stands for a point of the drawing, and a node that is dropped there is pinned to that
point in every layout to come. The way back divides by the scale. All that can go wrong is that
the scale is zero, and then it does go wrong: the point of the screen to which the origin of the
drawing is shifted is divided zero by zero.

A drawing without an inside is not scaled, but nobody asks about the canvas. The scale is zero
exactly if a length of the canvas is zero, or so small beside that of the drawing that the
quotient is less than any single. Otherwise every drag through a fitted viewport keeps pins
numbers. Nothing else is ever wrong with a fitted viewport, since a part of a length and the
difference of two of them are finite.

## Main definitions

* `Size.HasInside`: A drawing that can be scaled.
* `Size.ShownOn`: A canvas is not too small for a drawing.
* `Viewport.Sound`: A viewport is finite and does not enlarge.

## Theorems

* `Graph.PinsNumbers.drag`: A drag to a number keeps pins numbers.
* `Viewport.Sound.pos_iff_toDrawing`, `Viewport.Sound.pos_iff_drag`: When one finds the way
  back.
* `Viewport.sound_fit`: Fitted viewports are sound.
* `Viewport.scale_fit_pos_iff`: When the scale of a fitted viewport is not zero.
* `fitted_viewport_inverts`: When a fitted viewport can be inverted.
-/

namespace Flowchart

open Single (units)

/-- A size that is positive in both directions. -/
def Size.HasInside (s : Size) : Prop := ∀ axis, 0 < s.along axis

/-- A canvas is not too small for a drawing: in both directions the quotient of the lengths is
    more than half of the least single. -/
def Size.ShownOn (drawing canvas : Size) : Prop :=
  ∀ axis, units (drawing.along axis) < 2 ^ 150 * units (canvas.along axis)

/-- A canvas that is a pixel wide and high is not too small for any drawing. -/
theorem Size.shownOn_of_one_le {drawing canvas : Size}
    (hd : ∀ axis, (drawing.along axis).isFinite = true) (hc : ∀ axis, 1 ≤ canvas.along axis) :
    drawing.ShownOn canvas := by
  intro axis
  have hlt := Single.natAbs_units_lt (hd axis)
  have hle := ((Single.le_iff _ _).mp (hc axis)).2.2
  have hpixel : (Single.top : Int) < 2 ^ 150 * units 1 := by decide +kernel
  omega

/-! ## Drags -/

namespace Graph

theorem of_mem_modifyFirst {id : String} {f : Node → Node} {ns : List Node} {n : Node}
    (h : n ∈ modifyFirst id f ns) : n ∈ ns ∨ ∃ m ∈ ns, n = f m := by
  induction ns with
  | nil => exact absurd h List.not_mem_nil
  | cons m ns ih =>
      rw [modifyFirst] at h
      split at h
      · rcases List.mem_cons.mp h with rfl | h
        · exact Or.inr ⟨m, List.mem_cons_self, rfl⟩
        · exact Or.inl (List.mem_cons_of_mem m h)
      · rcases List.mem_cons.mp h with rfl | h
        · exact Or.inl List.mem_cons_self
        · rcases ih h with h | ⟨x, hx, rfl⟩
          · exact Or.inl (List.mem_cons_of_mem m h)
          · exact Or.inr ⟨x, List.mem_cons_of_mem m hx, rfl⟩

/-- To drop a node at a number keeps all pins numbers. -/
theorem PinsNumbers.drag {g : Graph} (h : g.PinsNumbers) {d : Drag}
    (hd : ∀ axis : Axis, (d.position.along axis.side).isNaN = false) : (g.drag d).PinsNumbers := by
  intro n hn p hp
  rw [nodes_drag] at hn
  rcases of_mem_modifyFirst hn with hn | ⟨m, _, rfl⟩
  · exact h n hn p hp
  · have hpin : (m.pinAt d.position).pinnedPosition = some d.position := rfl
    rw [← Option.some.inj (hpin.symm.trans hp)]
    exact hd

end Graph

namespace Viewport

/-- How far a viewport shifts along an axis. -/
def translate (view : Viewport) : Axis → Float32
  | .across => view.translateX
  | .down => view.translateY

/-- A viewport is finite and does not enlarge, nor turn the drawing over. -/
structure Sound (view : Viewport) : Prop where
  scale : view.scale.isFinite = true
  nonneg : 0 ≤ view.scale
  le_one : view.scale ≤ 1
  translate : ∀ axis, (view.translate axis).isFinite = true

theorem along_toDrawing (view : Viewport) (screen : Point) (axis : Axis) :
    (view.toDrawing screen).along axis.side =
      (screen.along axis.side - view.translate axis) / view.scale := by
  cases axis <;> rfl

/-! ## The way back -/

namespace Sound

variable {view : Viewport} (h : view.Sound)

include h

/-- With a positive scale one finds back from every point of the screen. -/
theorem isNaN_toDrawing (hpos : 0 < view.scale) {screen : Point}
    (hscreen : ∀ axis : Axis, (screen.along axis.side).isFinite = true) (axis : Axis) :
    ((view.toDrawing screen).along axis.side).isNaN = false := by
  rw [along_toDrawing]
  exact Single.isNaN_div (Single.units_sub (hscreen axis) (h.translate axis)).1 h.scale
    ((Single.lt_iff _ _).mp hpos).2.2

/-- Without one, the shifted origin leads nowhere. -/
theorem isNaN_toDrawing_origin (hzero : ¬0 < view.scale) (axis : Axis) :
    ((view.toDrawing ⟨view.translateX, view.translateY⟩).along axis.side).isNaN = true := by
  have horigin : (⟨view.translateX, view.translateY⟩ : Point).along axis.side =
      view.translate axis := by
    cases axis <;> rfl
  have hunits : units view.scale = 0 := by
    rcases (Single.nonneg_iff _).mp h.nonneg with ⟨hnan, hle⟩
    have hnot : ¬0 < units view.scale := fun hlt => hzero ((Single.lt_iff _ _).mpr ⟨rfl, hnan, hlt⟩)
    omega
  rw [along_toDrawing, horigin]
  rcases Single.units_sub_self (h.translate axis) with ⟨hfinite, hnothing⟩
  exact Single.isNaN_zero_div hfinite hnothing h.scale hunits

theorem origin_finite (axis : Axis) :
    ((⟨view.translateX, view.translateY⟩ : Point).along axis.side).isFinite = true := by
  cases axis
  · exact h.translate .across
  · exact h.translate .down

/-- One finds back from all points of the screen exactly if the scale is positive. -/
theorem pos_iff_toDrawing : 0 < view.scale ↔
    ∀ screen : Point, (∀ axis : Axis, (screen.along axis.side).isFinite = true) →
      ∀ axis : Axis, ((view.toDrawing screen).along axis.side).isNaN = false := by
  refine ⟨fun hpos screen hscreen => h.isNaN_toDrawing hpos hscreen, fun hback => ?_⟩
  by_contra hzero
  have hnan := hback _ h.origin_finite .across
  rw [h.isNaN_toDrawing_origin hzero] at hnan
  exact Bool.false_ne_true hnan.symm

/-- Drags keep pins numbers exactly if the scale is positive. -/
theorem pos_iff_drag : 0 < view.scale ↔
    ∀ g : Graph, g.PinsNumbers → ∀ (node : String) (screen : Point),
      (∀ axis : Axis, (screen.along axis.side).isFinite = true) →
      (g.drag ⟨node, view.toDrawing screen⟩).PinsNumbers := by
  refine ⟨fun hpos g hg node screen hscreen => hg.drag (h.isNaN_toDrawing hpos hscreen),
    fun hdrag => ?_⟩
  by_contra hzero
  -- The only node of a graph is dropped on the shifted origin.
  let g : Graph := ⟨[.named "A"], []⟩
  have hg : g.PinsNumbers := List.forall_mem_singleton.mpr fun _ hp => nomatch hp
  have hpins := hdrag g hg "A" _ h.origin_finite
  have hnan := hpins _ List.mem_cons_self _ rfl .across
  rw [h.isNaN_toDrawing_origin hzero] at hnan
  exact Bool.false_ne_true hnan.symm

end Sound

/-! ## Fitting -/

section fit

variable {drawing canvas : Size} (hd : ∀ axis, (drawing.along axis).isFinite = true)
  (hc : ∀ axis, (canvas.along axis).isFinite = true ∧ 0 ≤ canvas.along axis)

/-- The scale at which a length of a drawing fits into that of a canvas. -/
def ratio (drawing canvas : Size) (axis : Axis) : Float32 := canvas.along axis / drawing.along axis

include hd

theorem fit_of_not_hasInside (h : ¬drawing.HasInside) : fit drawing canvas = identity := by
  have hflat : (drawing.width ≤ 0 || drawing.height ≤ 0) = true := by
    by_contra hfalse
    simp only [Bool.or_eq_true, decide_eq_true_iff, not_or] at hfalse
    refine h fun axis => ?_
    by_contra hlt
    have hle := Single.le_of_not_lt rfl (Single.isNaN_of_isFinite (hd axis)) hlt
    cases axis
    · exact hfalse.1 hle
    · exact hfalse.2 hle
  rw [fit, if_pos hflat]

omit hd in
theorem fit_of_hasInside (canvas : Size) (h : drawing.HasInside) :
    (fit drawing canvas).scale = fitScale drawing canvas ∧ ∀ axis,
      (fit drawing canvas).translate axis =
        (canvas.along axis - drawing.along axis * fitScale drawing canvas) / 2 := by
  have hsolid : ¬(drawing.width ≤ 0 || drawing.height ≤ 0) = true := by
    simp only [Bool.or_eq_true, decide_eq_true_iff, not_or]
    exact ⟨fun hle => Single.not_lt_of_le hle (h .across),
      fun hle => Single.not_lt_of_le hle (h .down)⟩
  rw [fit, if_neg hsolid]
  refine ⟨rfl, fun axis => ?_⟩
  cases axis <;> rfl

include hc

/-- The ratio of two lengths is a number and not negative, and it is zero if the canvas is too
    small. -/
theorem ratio_spec (h : drawing.HasInside) (axis : Axis) :
    (ratio drawing canvas axis).isNaN = false ∧ 0 ≤ units (ratio drawing canvas axis) ∧
      (0 < units (ratio drawing canvas axis) ↔
        units (drawing.along axis) < 2 ^ 150 * units (canvas.along axis)) := by
  have hpos := ((Single.lt_iff _ _).mp (h axis)).2.2
  exact ⟨Single.isNaN_div (Single.isNaN_of_isFinite (hc axis).1) (hd axis) hpos,
    Single.units_div_pos_iff (hc axis).1 (hc axis).2 (hd axis) hpos⟩

/-- The least of the ratios and of one. -/
theorem fitScale_spec (h : drawing.HasInside) : (fitScale drawing canvas).isFinite = true ∧
    0 ≤ fitScale drawing canvas ∧ fitScale drawing canvas ≤ 1 ∧
    (0 < fitScale drawing canvas ↔ drawing.ShownOn canvas) := by
  rcases ratio_spec hd hc h .across with ⟨hnan, hnonneg, hpos⟩
  rcases ratio_spec hd hc h .down with ⟨hnan', hnonneg', hpos'⟩
  rcases Single.min_spec hnan hnan' with ⟨hmin, hunits⟩
  rcases Single.min_spec hmin (b := 1) rfl with ⟨hscale, hunits'⟩
  change (fitScale drawing canvas).isNaN = false at hscale
  change units (fitScale drawing canvas) = _ at hunits'
  rw [hunits] at hunits'
  have hone : 0 < units 1 ∧ units 1 < Single.top := by decide +kernel
  -- A ratio is positive exactly if the canvas has room along its axis.
  have hshown : drawing.ShownOn canvas ↔
      0 < units (ratio drawing canvas .across) ∧ 0 < units (ratio drawing canvas .down) := by
    rw [hpos, hpos']
    refine ⟨fun hshown => ⟨hshown .across, hshown .down⟩, fun ⟨hx, hy⟩ axis => ?_⟩
    cases axis
    · exact hx
    · exact hy
  refine ⟨Single.isFinite_of_natAbs_lt hscale (by omega),
    (Single.nonneg_iff _).mpr ⟨hscale, by omega⟩,
    (Single.le_iff _ _).mpr ⟨hscale, rfl, by omega⟩, ?_⟩
  rw [hshown, Single.lt_iff, Single.units_zero]
  constructor
  · rintro ⟨_, _, hlt⟩
    omega
  · rintro ⟨hx, hy⟩
    exact ⟨rfl, hscale, by omega⟩

/-- A fitted viewport is finite and does not enlarge. -/
theorem sound_fit : (fit drawing canvas).Sound := by
  by_cases h : drawing.HasInside
  · rcases fitScale_spec hd hc h with ⟨hfinite, hnonneg, hle, _⟩
    rcases fit_of_hasInside canvas h with ⟨hscale, htranslate⟩
    refine ⟨by rw [hscale]; exact hfinite, by rw [hscale]; exact hnonneg, by rw [hscale]; exact hle,
      fun axis => ?_⟩
    -- What is taken from a length of the canvas is a part of one of the drawing.
    have hpos : 0 ≤ drawing.along axis := by
      rcases (Single.lt_iff _ _).mp (h axis) with ⟨_, hnan, hlt⟩
      exact (Single.nonneg_iff _).mpr ⟨hnan, Int.le_of_lt hlt⟩
    rcases Single.isFinite_mul_of_le_one (hd axis) hpos hfinite hnonneg hle with ⟨hpart, hpart'⟩
    rw [htranslate]
    exact (Single.units_half
      (Single.isFinite_sub_of_nonneg (hc axis).1 hpart (hc axis).2 hpart')).1
  · rw [fit_of_not_hasInside hd h]
    refine ⟨rfl, by decide +kernel, by decide +kernel, fun axis => ?_⟩
    cases axis <;> rfl

/-- The scale of a fitted viewport is positive exactly if the drawing is not scaled or the canvas
    is not too small for it. -/
theorem scale_fit_pos_iff :
    0 < (fit drawing canvas).scale ↔ (drawing.HasInside → drawing.ShownOn canvas) := by
  by_cases h : drawing.HasInside
  · rcases fit_of_hasInside canvas h with ⟨hscale, _⟩
    rw [hscale, (fitScale_spec hd hc h).2.2.2]
    exact ⟨fun hshown _ => hshown, fun hshown => hshown h⟩
  · rw [fit_of_not_hasInside hd h]
    exact iff_of_true (by decide +kernel) fun hinside => absurd hinside h

end fit

end Viewport

/-- A viewport that fits a finite drawing into a finite canvas of no negative length is finite
    itself and does not enlarge. It is positive unless the drawing is to be scaled and the canvas
    is too small for it, and so in particular if the canvas is a pixel wide and high. Exactly then
    one finds back from every point of the screen, and no drag pins a node at what is not a
    number. -/
theorem fitted_viewport_inverts (drawing canvas : Size)
    (hd : ∀ axis, (drawing.along axis).isFinite = true)
    (hc : ∀ axis, (canvas.along axis).isFinite = true ∧ 0 ≤ canvas.along axis) :
    let view := Viewport.fit drawing canvas
    view.Sound ∧ (0 < view.scale ↔ (drawing.HasInside → drawing.ShownOn canvas)) ∧
      ((∀ axis, 1 ≤ canvas.along axis) → 0 < view.scale) ∧
      (0 < view.scale ↔ ∀ screen : Point,
        (∀ axis : Axis, (screen.along axis.side).isFinite = true) →
        ∀ axis : Axis, ((view.toDrawing screen).along axis.side).isNaN = false) ∧
      (0 < view.scale ↔ ∀ g : Graph, g.PinsNumbers → ∀ (node : String) (screen : Point),
        (∀ axis : Axis, (screen.along axis.side).isFinite = true) →
        (g.drag ⟨node, view.toDrawing screen⟩).PinsNumbers) := by
  intro view
  have hsound : view.Sound := Viewport.sound_fit hd hc
  have hpos := Viewport.scale_fit_pos_iff hd hc
  exact ⟨hsound, hpos, fun hpixel => hpos.mpr fun _ => Size.shownOn_of_one_le hd hpixel,
    hsound.pos_iff_toDrawing, hsound.pos_iff_drag⟩

/-- A wide drawing at half its size, and a node that is dropped in the middle of the canvas. -/
theorem fitted_viewport_inverts_halved :
    let drawing : Size := ⟨1600, 600⟩
    let canvas : Size := ⟨800, 600⟩
    let view := Viewport.fit drawing canvas
    (∀ axis, (drawing.along axis).isFinite = true) ∧
      (∀ axis, (canvas.along axis).isFinite = true ∧ 0 ≤ canvas.along axis) ∧
      view = ⟨0.5, 0, 150⟩ ∧ view.Sound ∧ 0 < view.scale ∧
      view.toDrawing ⟨400, 300⟩ = ⟨800, 300⟩ ∧
      ∀ g : Graph, g.PinsNumbers → (g.drag ⟨"A", ⟨800, 300⟩⟩).PinsNumbers := by
  intro drawing canvas view
  have hd : ∀ axis, (drawing.along axis).isFinite = true := fun axis => by
    cases axis <;> decide +kernel
  have hc : ∀ axis, (canvas.along axis).isFinite = true ∧ 0 ≤ canvas.along axis := fun axis => by
    cases axis <;> decide +kernel
  have hpixel : ∀ axis, 1 ≤ canvas.along axis := fun axis => by
    cases axis <;> decide +kernel
  have hscreen : ∀ axis : Axis, ((⟨400, 300⟩ : Point).along axis.side).isFinite = true :=
    fun axis => by cases axis <;> decide +kernel
  have hmiddle : view.toDrawing ⟨400, 300⟩ = ⟨800, 300⟩ := by decide +kernel
  rcases fitted_viewport_inverts drawing canvas hd hc with ⟨hsound, _, hpos, _, hdrag⟩
  have hdrop := hdrag.mp (hpos hpixel)
  refine ⟨hd, hc, by decide +kernel, hsound, hpos hpixel, hmiddle, fun g hg => ?_⟩
  rw [← hmiddle]
  exact hdrop g hg "A" _ hscreen

/-- A canvas without a width has the scale zero, and a node that is dropped on its left edge is
    pinned at what is not a number. A canvas of some width does not have to be wide enough. -/
theorem fitted_viewport_does_not_always_invert :
    (¬ ∀ drawing canvas : Size, (∀ axis, (drawing.along axis).isFinite = true) →
      (∀ axis, (canvas.along axis).isFinite = true ∧ 0 ≤ canvas.along axis) →
      0 < (Viewport.fit drawing canvas).scale) ∧
      (¬ ∀ drawing canvas : Size, (∀ axis, (drawing.along axis).isFinite = true) →
        (∀ axis, (canvas.along axis).isFinite = true ∧ 0 < canvas.along axis) →
        0 < (Viewport.fit drawing canvas).scale) ∧
      let view := Viewport.fit ⟨100, 50⟩ ⟨0, 300⟩
      let g : Graph := ⟨[.named "A"], []⟩
      view = ⟨0, 0, 150⟩ ∧ g.PinsNumbers ∧
        ¬(g.drag ⟨"A", view.toDrawing ⟨0, 200⟩⟩).PinsNumbers := by
  refine ⟨fun h => ?_, fun h => ?_, ?_⟩
  · have hscale := h ⟨100, 50⟩ ⟨0, 300⟩ (fun axis => by cases axis <;> decide +kernel)
      fun axis => by cases axis <;> decide +kernel
    exact absurd hscale (by decide +kernel)
  · -- The exact ratio is positive here, but too small for a single.
    have hscale := h ⟨1e30, 50⟩ ⟨1e-20, 300⟩ (fun axis => by cases axis <;> decide +kernel)
      fun axis => by cases axis <;> decide +kernel
    exact absurd hscale (by decide +kernel)
  · intro view g
    have hg : g.PinsNumbers := List.forall_mem_singleton.mpr fun _ hp => nomatch hp
    refine ⟨by decide +kernel, hg, fun hpins => ?_⟩
    have hnan := hpins _ List.mem_cons_self _ rfl .across
    exact absurd hnan (by decide +kernel)

end Flowchart
