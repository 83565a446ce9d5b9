import Flowchart.Proofs.Engine.Route
import Flowchart.Proofs.Single.Difference

/-!
# Which Bends a Route Can Do Without

A bend is dropped if it is on a line with the point that is kept before it and the point that
follows it. Three points on a line are not enough for that: a path may go out along a line and
come back on it, and then the bend at the far end is all that the drawing shows of the way.
What has to be asked of a path besides is that it goes on, from the point that is kept before a
dropped bend over the bend to the point that follows. Whoever asks for it asks about single
steps, and the point that follows may be dropped in its turn. So the neighbours that are kept
are found by induction on the bends that remain, and a slack adds up on the way.

A path between two boxes always goes on. The path from a box to itself goes out and comes back,
which is harmless as long as the box has a height: then its bends are on no line with their
neighbours.

## Main definitions

* `Single.Within`: A place is between two others, but for a slack.
* `Path.Drops`: Which bends are dropped.
* `Path.Onward`: A path goes on where it drops a bend.
* `Path.KeepsExtent`: Nothing of a path is beyond its simplified form.
* `Path.Advances`: A path never turns back.
* `Path.FlatLoop`: A loop has next to no area.

## Theorems

* `Path.Onward.within`: A dropped bend is between the points that are kept around it.
* `Path.Onward.keepsExtent`: A path that goes on loses no extent.
* `Path.Advances.onward`, `Path.onward_between`: Which paths go on.
* `Path.keepsExtent_loop_iff`: When the path from a box to itself loses no extent.
* `simplified_keeps_extent`: What becomes of a path, and of the routes of a plan.
-/

namespace Flowchart

open Single (units units_zero)

/-- A place is between two others, or beyond one of them by no more than a slack. -/
structure Single.Within (slack : Nat) (a b c : Float32) : Prop where
  start : a.isFinite = true
  finish : b.isFinite = true
  place : c.isFinite = true
  low : min (units a) (units b) ≤ units c + slack
  high : units c ≤ max (units a) (units b) + slack

/-- A point is in the least box around two others, or outside of it by no more than a
    slack. -/
structure Point.Within (slack : Nat) (a b p : Point) : Prop where
  x : Single.Within slack a.x b.x p.x
  y : Single.Within slack a.y b.y p.y

/-- Both coordinates are finite. -/
structure Point.Finite (p : Point) : Prop where
  x : p.x.isFinite = true
  y : p.y.isFinite = true

section within

variable {slack slack' : Nat}

theorem Single.Within.trans {a b c d : Float32} (hc : Single.Within slack a b c)
    (hb : Single.Within slack' a d b) : Single.Within (slack + slack') a d c where
  start := hc.start
  finish := hb.finish
  place := hc.place
  low := by
    have hlow := hc.low
    have hlow' := hb.low
    omega
  high := by
    have hhigh := hc.high
    have hhigh' := hb.high
    omega

theorem Point.Within.trans {a b p q : Point} (hp : Point.Within slack a b p)
    (hb : Point.Within slack' a q b) : Point.Within (slack + slack') a q p :=
  ⟨hp.x.trans hb.x, hp.y.trans hb.y⟩

theorem Single.Within.mono {a b c : Float32} (h : Single.Within slack a b c)
    (hle : slack ≤ slack') : Single.Within slack' a b c where
  start := h.start
  finish := h.finish
  place := h.place
  low := by
    have hlow := h.low
    omega
  high := by
    have hhigh := h.high
    omega

theorem Point.Within.mono {a b p : Point} (h : Point.Within slack a b p) (hle : slack ≤ slack') :
    Point.Within slack' a b p :=
  ⟨h.x.mono hle, h.y.mono hle⟩

/-- A place is between itself and any other. -/
theorem Single.within_left {a b : Float32} (ha : a.isFinite = true) (hb : b.isFinite = true) :
    Single.Within 0 a b a :=
  ⟨ha, hb, ha, by omega, by omega⟩

theorem Single.within_right {a b : Float32} (ha : a.isFinite = true) (hb : b.isFinite = true) :
    Single.Within 0 a b b :=
  ⟨ha, hb, hb, by omega, by omega⟩

theorem Single.within_midpoint {a b : Float32} (h : ((a + b) / 2).isFinite = true) :
    Single.Within 0 a b ((a + b) / 2) := by
  have hsum := Single.isFinite_of_div h
  rcases Single.isFinite_of_add hsum with ⟨ha, hb⟩
  rcases Single.units_midpoint hsum with ⟨_, hlow, hhigh⟩
  exact ⟨ha, hb, h, by omega, by omega⟩

theorem Single.le_of_units_le {a b : Float32} (ha : a.isFinite = true) (hb : b.isFinite = true)
    (h : units a ≤ units b) : a ≤ b :=
  (Single.le_iff a b).mpr ⟨Single.isNaN_of_isFinite ha, Single.isNaN_of_isFinite hb, h⟩

/-- Of two places around a third one is not greater. -/
theorem Single.Within.le_or_le {a b c : Float32} (h : Single.Within 0 a b c) : a ≤ c ∨ b ≤ c := by
  have hlow := h.low
  by_cases hle : units a ≤ units c
  · exact Or.inl (le_of_units_le h.start h.place hle)
  · exact Or.inr (le_of_units_le h.finish h.place (by omega))

/-- Of two places around a third one is not less. -/
theorem Single.Within.ge_or_ge {a b c : Float32} (h : Single.Within 0 a b c) : c ≤ a ∨ c ≤ b := by
  have hhigh := h.high
  by_cases hle : units c ≤ units a
  · exact Or.inl (le_of_units_le h.place h.start hle)
  · exact Or.inr (le_of_units_le h.place h.finish (by omega))

/-- In every direction one of the points around a third is not before it. -/
theorem Point.Within.before {a b p : Point} (h : Point.Within 0 a b p) (side : Side) :
    side.Before (p.along side) (a.along side) ∨ side.Before (p.along side) (b.along side) := by
  cases side with
  | top => exact h.y.le_or_le
  | bottom => exact h.y.ge_or_ge
  | left => exact h.x.le_or_le
  | right => exact h.x.ge_or_ge

end within

namespace Engine

/-! ## Simplification -/

/-- The product that tells whether three points are on a line. -/
theorem isCollinear_iff {a b c : Point} : isCollinear a b c = true ↔
    ((b.x - a.x) * (c.y - a.y) - (b.y - a.y) * (c.x - a.x)).abs < 0.001 :=
  decide_eq_true_iff

theorem isFinite_of_abs_lt {a : Float32} (h : a.abs < 0.001) : a.isFinite = true := by
  have htolerance : units 0.001 < Single.top := by decide +kernel
  rcases Single.abs_lt_iff.mp h with ⟨hnan, _, hlt⟩
  exact Single.isFinite_of_natAbs_lt hnan (by omega)

/-- Points that are on a line are somewhere. -/
theorem finite_of_isCollinear {a b c : Point} (h : isCollinear a b c = true) :
    a.Finite ∧ b.Finite ∧ c.Finite := by
  rcases Single.isFinite_of_sub (isFinite_of_abs_lt (isCollinear_iff.mp h)) with ⟨hleft, hright⟩
  rcases Single.isFinite_of_mul hleft with ⟨hbx, hcy⟩
  rcases Single.isFinite_of_mul hright with ⟨hby, hcx⟩
  rcases Single.isFinite_of_sub hbx with ⟨hbx, hax⟩
  rcases Single.isFinite_of_sub hby with ⟨hby, hay⟩
  exact ⟨⟨hax, hay⟩, ⟨hbx, hby⟩, (Single.isFinite_of_sub hcx).1, (Single.isFinite_of_sub hcy).1⟩

theorem simplify_sublist (previous : Point) (bends : List Point) (finish : Point) :
    (simplify previous bends finish).Sublist bends := by
  induction bends generalizing previous with
  | nil => exact .refl []
  | cons bend rest ih =>
      rw [simplify]
      split
      · exact (ih previous).cons bend
      · exact (ih bend).cons_cons bend

/-- Bends are simplified one after the other, and all that one needs to know of those before it
    is the last point that was kept. -/
theorem simplify_append (previous : Point) (front back : List Point) (finish : Point) :
    simplify previous (front ++ back) finish = simplify previous front (back.headD finish) ++
      simplify ((simplify previous front (back.headD finish)).getLastD previous) back finish := by
  induction front generalizing previous with
  | nil => rfl
  | cons bend rest ih =>
      have hnext : (rest ++ back).headD finish = rest.headD (back.headD finish) := by
        cases rest <;> rfl
      rw [List.cons_append, simplify, simplify, hnext]
      by_cases hline : isCollinear previous bend (rest.headD (back.headD finish)) = true
      · rw [if_pos hline, if_pos hline]
        exact ih previous
      · rw [if_neg hline, if_neg hline, ih bend, List.cons_append, List.getLastD_cons]

namespace Path

variable {path : Path} {front back : List Point} {bend : Point} {slack : Nat}

/-- The point that is kept before a bend. -/
def lastKept (path : Path) (front : List Point) (bend : Point) : Point :=
  (simplify path.start front bend).getLastD path.start

/-- The point that is kept after a bend that is dropped. -/
def nextKept (path : Path) (front : List Point) (bend : Point) (back : List Point) : Point :=
  (simplify (path.lastKept front bend) back path.finish).headD path.finish

/-- A bend of a path is dropped: it is on a line with the point that is kept before it and the
    point that follows it. -/
structure Drops (path : Path) (front : List Point) (bend : Point) (back : List Point) : Prop where
  bends : path.bends = front ++ bend :: back
  straight : isCollinear (path.lastKept front bend) bend (back.headD path.finish) = true

/-- Where a path drops a bend it goes on: the bend is between the point that is kept before it
    and the point that follows it, but for a slack. -/
def Onward (path : Path) (slack : Nat) : Prop :=
  ∀ front bend back, path.Drops front bend back →
    Point.Within slack (path.lastKept front bend) (back.headD path.finish) bend

/-- Nothing of a path is beyond its simplified form, in any direction. -/
def KeepsExtent (path : Path) : Prop :=
  ∀ side : Side, ∀ a ∈ path.points, (a.along side).isNaN = false →
    ∃ b ∈ path.simplified.points, side.Before (a.along side) (b.along side)

/-- What is left of a path around a dropped bend. -/
theorem Drops.simplified (h : path.Drops front bend back) : path.simplified.bends =
    simplify path.start front bend ++ simplify (path.lastKept front bend) back path.finish := by
  change simplify path.start path.bends path.finish = _
  rw [h.bends, simplify_append]
  change _ ++ simplify (path.lastKept front bend) (bend :: back) path.finish = _
  rw [simplify, if_pos h.straight]
  rfl

/-- What is not dropped is kept. -/
theorem mem_simplified (h : path.bends = front ++ bend :: back)
    (hdrops : ¬path.Drops front bend back) :
    bend ∈ path.simplified.bends := by
  change bend ∈ simplify path.start path.bends path.finish
  rw [h, simplify_append]
  change bend ∈ _ ++ simplify (path.lastKept front bend) (bend :: back) path.finish
  rw [simplify, if_neg fun hline => hdrops ⟨h, hline⟩]
  exact List.mem_append_right _ List.mem_cons_self

/-- The points that are kept around a dropped bend are neighbours. -/
theorem Drops.neighbours (h : path.Drops front bend back) :
    [path.lastKept front bend, path.nextKept front bend back] <:+: path.simplified.points := by
  -- The kept points before the bend end with the last kept point, or there are none and it is the
  -- start.
  have hlast : ∀ xs : List Point, ∃ ys, path.start :: xs = ys ++ [xs.getLastD path.start] := by
    intro xs
    have hsplit := List.dropLast_append_getLast (List.cons_ne_nil path.start xs)
    rw [List.getLast_eq_getLastD] at hsplit
    exact ⟨_, hsplit.symm⟩
  -- The points after it begin with the next kept one, or there are none and it is the finish.
  have hnext : ∀ xs : List Point, ∃ ys, xs ++ [path.finish] = xs.headD path.finish :: ys := by
    intro xs
    cases xs with
    | nil => exact ⟨[], rfl⟩
    | cons x xs => exact ⟨xs ++ [path.finish], rfl⟩
  rcases hlast (simplify path.start front bend) with ⟨ys, hys⟩
  rcases hnext (simplify (path.lastKept front bend) back path.finish) with ⟨zs, hzs⟩
  refine ⟨ys, zs, ?_⟩
  calc ys ++ [path.lastKept front bend, path.nextKept front bend back] ++ zs
      = ys ++ [path.lastKept front bend] ++ (path.nextKept front bend back :: zs) := by
        rw [List.append_assoc, List.append_assoc]
        rfl
    _ = path.start :: simplify path.start front bend ++
          (simplify (path.lastKept front bend) back path.finish ++ [path.finish]) := by
        rw [hys, hzs]
        rfl
    _ = path.simplified.points := by
        rw [points, h.simplified, List.cons_append, List.append_assoc]
        rfl

/-- After a bend that is dropped nothing has changed for the next one. -/
theorem Drops.lastKept_append (h : path.Drops front bend back) :
    path.lastKept (front ++ [bend]) (back.headD path.finish) = path.lastKept front bend := by
  unfold lastKept
  rw [simplify_append]
  change (_ ++ simplify (path.lastKept front bend) [bend] (back.headD path.finish)).getLastD _ = _
  rw [simplify, List.headD_nil, if_pos h.straight, simplify, List.append_nil]
  rfl

/-- Where a path goes on, a dropped bend is between the points that are kept around it. -/
theorem Onward.within (honward : path.Onward slack) (h : path.Drops front bend back) :
    Point.Within ((back.length + 1) * slack) (path.lastKept front bend)
      (path.nextKept front bend back) bend := by
  have hstep := honward front bend back h
  -- The points behind the bend are gone through until one is kept: each that is dropped lets the
  -- bend stray by one slack more.
  induction back generalizing front bend with
  | nil =>
      rw [List.length_nil, Nat.zero_add, Nat.one_mul]
      exact hstep
  | cons next rest ih =>
      have hlast : path.lastKept (front ++ [bend]) next = path.lastKept front bend :=
        h.lastKept_append
      by_cases hline : isCollinear (path.lastKept front bend) next (rest.headD path.finish) = true
      · -- The point that follows is dropped too, and the same points are kept around it.
        have hdrops : path.Drops (front ++ [bend]) next rest :=
          ⟨by rw [h.bends, List.append_assoc]; rfl, by rw [hlast]; exact hline⟩
        have hnext := ih hdrops (honward _ _ _ hdrops)
        have hkept : path.nextKept front bend (next :: rest) =
            path.nextKept (front ++ [bend]) next rest := by
          unfold nextKept
          rw [hlast, simplify, if_pos hline]
        rw [hlast, ← hkept] at hnext
        exact (hstep.trans hnext).mono (by
          rw [List.length_cons, Nat.succ_mul (rest.length + 1), Nat.add_comm])
      · -- The point that follows is kept.
        have hkept : path.nextKept front bend (next :: rest) = next := by
          unfold nextKept
          rw [simplify, if_neg hline]
          rfl
        rw [hkept]
        exact hstep.mono (Nat.le_mul_of_pos_left _ (Nat.succ_pos _))

/-- A path that goes on loses nothing of its extent. -/
theorem Onward.keepsExtent (honward : path.Onward 0) : path.KeepsExtent := by
  intro side a ha hnan
  have hself : side.Before (a.along side) (a.along side) := by
    cases side <;> exact Single.le_refl hnan
  rcases mem_points_iff.mp ha with rfl | hbend | rfl
  · exact ⟨path.start, mem_points_iff.mpr (Or.inl rfl), hself⟩
  · rcases List.append_of_mem hbend with ⟨front, back, hbends⟩
    -- A bend that is kept bounds itself, one that is dropped is bounded by the points kept around
    -- it.
    by_cases hdrops : path.Drops front a back
    · have hwithin := honward.within hdrops
      rw [Nat.mul_zero] at hwithin
      have hkept := hdrops.neighbours.subset
      rcases hwithin.before side with hbefore | hbefore
      · exact ⟨_, hkept List.mem_cons_self, hbefore⟩
      · exact ⟨_, hkept (List.mem_cons_of_mem _ List.mem_cons_self), hbefore⟩
    · exact ⟨a, mem_points_iff.mpr (Or.inr (Or.inl (mem_simplified hbends hdrops))), hself⟩
  · exact ⟨path.finish, mem_points_iff.mpr (Or.inr (Or.inr rfl)), hself⟩

/-! ## Paths that never turn back -/

/-- A path never turns back: across and down it only ever goes on in one direction. -/
def Advances (path : Path) : Prop :=
  (path.points.Pairwise (fun a b => a.x ≤ b.x) ∨ path.points.Pairwise fun a b => b.x ≤ a.x) ∧
    (path.points.Pairwise (fun a b => a.y ≤ b.y) ∨ path.points.Pairwise fun a b => b.y ≤ a.y)

theorem mem_lastKept (path : Path) (front : List Point) (bend : Point) :
    path.lastKept front bend ∈ path.start :: front :=
  ((simplify_sublist path.start front bend).cons_cons path.start).subset List.getLastD_mem_cons

/-- A dropped bend comes after the point that is kept before it and before the point that
    follows. -/
theorem Drops.rel {R : Point → Point → Prop} (h : path.Drops front bend back)
    (hpairs : path.points.Pairwise R) :
    R (path.lastKept front bend) bend ∧ R bend (back.headD path.finish) := by
  have hsplit : path.points = path.start :: front ++ bend :: (back ++ [path.finish]) := by
    rw [points, h.bends, List.append_assoc]
    rfl
  rw [hsplit, List.pairwise_append] at hpairs
  rcases hpairs with ⟨_, hback, hacross⟩
  refine ⟨hacross _ (path.mem_lastKept front bend) _ List.mem_cons_self, ?_⟩
  refine (List.pairwise_cons.mp hback).1 _ ?_
  cases back with
  | nil => exact List.mem_cons_self
  | cons c back => exact List.mem_cons_self

/-- A path that never turns back goes on. -/
theorem Advances.onward (h : path.Advances) : path.Onward 0 := by
  intro front bend back hdrops
  rcases finite_of_isCollinear hdrops.straight with ⟨hlast, hbend, hnext⟩
  have hwithin : ∀ {a b c : Float32}, a.isFinite = true → b.isFinite = true → c.isFinite = true →
      a ≤ c ∧ c ≤ b ∨ c ≤ a ∧ b ≤ c → Single.Within 0 a b c := by
    intro a b c ha hb hc hbetween
    rw [Single.le_iff, Single.le_iff, Single.le_iff, Single.le_iff] at hbetween
    exact ⟨ha, hb, hc, by omega, by omega⟩
  exact ⟨hwithin hlast.x hnext.x hbend.x (h.1.imp hdrops.rel hdrops.rel),
    hwithin hlast.y hnext.y hbend.y (h.2.imp hdrops.rel hdrops.rel)⟩

/-! ## Paths that turn twice -/

/-- What has to be asked of a path with two bends for it to go on. -/
theorem onward_pair {a b : Point} (hbends : path.bends = [a, b])
    (hfirst : isCollinear path.start a b = true → Point.Within 0 path.start b a)
    (hboth : isCollinear path.start a b = true → isCollinear path.start b path.finish = true →
      Point.Within 0 path.start path.finish b)
    (hsecond : isCollinear a b path.finish = true → Point.Within 0 a path.finish b) :
    path.Onward 0 := by
  rintro front bend back ⟨hsplit, hline⟩
  rw [hbends] at hsplit
  -- What is dropped stands first or second. Before the second the start is kept last if the first
  -- was dropped, and the first if it was not.
  cases front with
  | nil =>
      rcases List.cons.inj hsplit with ⟨rfl, rfl⟩
      exact hfirst hline
  | cons c front =>
      rcases List.cons.inj hsplit with ⟨rfl, htail⟩
      cases front with
      | nil =>
          rcases List.cons.inj htail with ⟨rfl, rfl⟩
          have hlast : path.lastKept [a] b =
              if isCollinear path.start a b then path.start else a := by
            unfold lastKept
            rw [simplify, List.headD_nil, simplify]
            split <;> rfl
          rw [hlast] at hline ⊢
          by_cases hdropped : isCollinear path.start a b = true
          · rw [if_pos hdropped] at hline ⊢
            exact hboth hdropped hline
          · rw [if_neg hdropped] at hline ⊢
            exact hsecond hline
      | cons d front => cases front <;> cases (List.cons.inj htail).2

/-- A path that turns twice halfway goes on. -/
theorem onward_through (side : Side) (start finish : Point) :
    (through side start finish).Onward 0 := by
  -- In each direction one coordinate of every three points in a row is shared by two of them, and
  -- the other is halfway between the ends.
  have hupright : (upright start finish).Onward 0 := by
    refine onward_pair rfl (fun h => ?_) (fun h h' => ?_) fun h => ?_
    · rcases finite_of_isCollinear h with ⟨hs, ha, hb⟩
      exact ⟨Single.within_left hs.x hb.x, Single.within_right hs.y hb.y⟩
    · rcases finite_of_isCollinear h' with ⟨hs, hb, hf⟩
      exact ⟨Single.within_right hs.x hf.x, Single.within_midpoint hb.y⟩
    · rcases finite_of_isCollinear h with ⟨ha, hb, hf⟩
      exact ⟨Single.within_right ha.x hf.x, Single.within_left ha.y hf.y⟩
  have hsideways : (sideways start finish).Onward 0 := by
    refine onward_pair rfl (fun h => ?_) (fun h h' => ?_) fun h => ?_
    · rcases finite_of_isCollinear h with ⟨hs, ha, hb⟩
      exact ⟨Single.within_right hs.x hb.x, Single.within_left hs.y hb.y⟩
    · rcases finite_of_isCollinear h' with ⟨hs, hb, hf⟩
      exact ⟨Single.within_midpoint hb.x, Single.within_right hs.y hf.y⟩
    · rcases finite_of_isCollinear h with ⟨ha, hb, hf⟩
      exact ⟨Single.within_left ha.x hf.x, Single.within_right ha.y hf.y⟩
  cases side with
  | top => exact hupright
  | bottom => exact hupright
  | left => exact hsideways
  | right => exact hsideways

/-- The path between two boxes goes on. -/
theorem onward_between (source target : Box) : (between source target).Onward 0 := by
  rw [between_eq]
  exact onward_through _ _ _

/-! ## Loops -/

/-- How wide and how high a loop is drawn. -/
def loopSize (box : Box) : Size :=
  ⟨box.maxX + loopOffset - box.maxX,
    box.center.y + box.height / 4 - (box.center.y - box.height / 4)⟩

/-- A loop goes out, but has next to no area. -/
structure FlatLoop (box : Box) : Prop where
  out : box.maxX < box.maxX + loopOffset
  flat : ((loopSize box).width * (loopSize box).height).abs < 0.001

/-- To take away something that is zero, if it is anything, leaves a small product as small as it
    was. -/
theorem abs_sub_lt_iff {p r : Float32} (hr : p.isFinite = true → r.isFinite = true ∧ units r = 0) :
    (p - r).abs < 0.001 ↔ p.abs < 0.001 := by
  have hiff : p.isFinite = true → ((p - r).abs < 0.001 ↔ p.abs < 0.001) := by
    intro hp
    rcases hr hp with ⟨hfinite, hzero⟩
    rcases Single.units_sub_of_units_eq_zero hp hfinite hzero with ⟨hdifference, hunits⟩
    rw [Single.abs_lt_iff, Single.abs_lt_iff, hunits, Single.isNaN_of_isFinite hdifference,
      Single.isNaN_of_isFinite hp]
  exact ⟨fun h => (hiff (Single.isFinite_of_sub (isFinite_of_abs_lt h)).1).mp h,
    fun h => (hiff (isFinite_of_abs_lt h)).mpr h⟩

/-- The first bend of a loop is on a line with its neighbours if the loop has no area. -/
theorem isCollinear_loop_first (box : Box) :
    isCollinear (loop box).start ⟨box.maxX + loopOffset, box.center.y - box.height / 4⟩
      ⟨box.maxX + loopOffset, box.center.y + box.height / 4⟩ = true ↔
      ((loopSize box).width * (loopSize box).height).abs < 0.001 := by
  refine isCollinear_iff.trans (abs_sub_lt_iff fun hp => ?_)
  rcases Single.isFinite_of_mul hp with ⟨hwidth, hheight⟩
  have hzero := Single.units_sub_self (Single.isFinite_of_sub hheight).2
  exact Single.units_mul_eq_zero hzero.1 hwidth (Or.inl hzero.2)

/-- Without the first bend the same is true of the second. -/
theorem isCollinear_loop_second (box : Box) :
    isCollinear (loop box).start ⟨box.maxX + loopOffset, box.center.y + box.height / 4⟩
      (loop box).finish = true ↔
      ((loopSize box).width * (loopSize box).height).abs < 0.001 := by
  refine isCollinear_iff.trans (abs_sub_lt_iff fun hp => ?_)
  rcases Single.isFinite_of_mul hp with ⟨hwidth, hheight⟩
  have hzero := Single.units_sub_self (Single.isFinite_of_sub hwidth).2
  exact Single.units_mul_eq_zero hheight hzero.1 (Or.inr hzero.2)

/-- A loop goes on unless it is flat. -/
theorem onward_loop {box : Box} (h : ¬FlatLoop box) : (loop box).Onward 0 := by
  refine onward_pair rfl (fun hline => ?_) (fun hline hline' => ?_) fun hline => ?_
  · rcases finite_of_isCollinear hline with ⟨hs, ha, hb⟩
    exact ⟨Single.within_right hs.x hb.x, Single.within_left hs.y hb.y⟩
  · -- The loop is on a line, so that it does not go out at all.
    rcases finite_of_isCollinear hline' with ⟨hs, hb, hf⟩
    have hflat := (isCollinear_loop_first box).mp hline
    have hout : ¬box.maxX < box.maxX + loopOffset := fun hout => h ⟨hout, hflat⟩
    have hle : units (box.maxX + loopOffset) ≤ units box.maxX := by
      rw [Single.lt_iff] at hout
      exact Int.not_lt.mp fun hlt =>
        hout ⟨Single.isNaN_of_isFinite hs.x, Single.isNaN_of_isFinite hb.x, hlt⟩
    have hge : units box.maxX ≤ units (box.maxX + loopOffset) :=
      ((Single.le_iff _ _).mp (Single.le_add_right (Single.isNaN_of_isFinite hs.x) rfl
        (by decide +kernel))).2.2
    have hplace : Single.Within 0 box.maxX box.maxX (box.maxX + loopOffset) :=
      ⟨hs.x, hs.x, hb.x, by omega, by omega⟩
    exact ⟨hplace, Single.within_right hs.y hf.y⟩
  · rcases finite_of_isCollinear hline with ⟨ha, hb, hf⟩
    exact ⟨Single.within_left ha.x hf.x, Single.within_right ha.y hf.y⟩

/-- A flat loop is drawn as a straight line on the side of its box. -/
theorem simplified_loop {box : Box} (h : FlatLoop box) :
    (loop box).simplified = ⟨(loop box).start, [], (loop box).finish⟩ := by
  have hbends : (loop box).simplified.bends = [] := by
    have hfirst := (isCollinear_loop_first box).mpr h.flat
    have hsecond := (isCollinear_loop_second box).mpr h.flat
    change simplify (loop box).start [_, _] (loop box).finish = []
    rw [simplify, List.headD_cons, if_pos hfirst, simplify, List.headD_nil, if_pos hsecond,
      simplify]
  rw [← hbends]
  rfl

/-- A loop loses nothing of its extent, unless it is flat. -/
theorem keepsExtent_loop_iff (box : Box) : (loop box).KeepsExtent ↔ ¬FlatLoop box := by
  refine ⟨fun hkeeps hflat => ?_, fun h => (onward_loop h).keepsExtent⟩
  -- Of a flat loop the side of the box is left, and the bends are to the right of it.
  have hbend : ⟨box.maxX + loopOffset, box.center.y - box.height / 4⟩ ∈ (loop box).points :=
    List.mem_cons_of_mem _ List.mem_cons_self
  have hnan := ((Single.lt_iff _ _).mp hflat.out).2.1
  rcases hkeeps .right _ hbend hnan with ⟨p, hp, hbefore⟩
  have hside : p.x = box.maxX := by
    rw [simplified_loop hflat] at hp
    rcases mem_points_iff.mp hp with rfl | hp | rfl
    · rfl
    · exact absurd hp List.not_mem_nil
    · rfl
  change box.maxX + loopOffset ≤ p.x at hbefore
  rw [hside] at hbefore
  exact Single.not_lt_of_le hbefore hflat.out

end Path

/-! ## The routes of a plan -/

/-- Simplification keeps bends in their order. If a path goes on where it drops a bend, but for a
    slack, then a dropped bend is between the two points that are kept around it, but for as many
    slacks as bends could have been dropped together; and if it goes on without a slack, as a path
    does that never turns back, it loses nothing of its extent. The routes of the layered engine
    between two boxes always go on. The route from a box to itself loses nothing of its extent
    unless it goes out and has next to no area. -/
theorem simplified_keeps_extent (path : Path) (slack : Nat) :
    path.simplified.bends.Sublist path.bends ∧
    (∀ front bend back, path.bends = front ++ bend :: back → ¬path.Drops front bend back →
      bend ∈ path.simplified.bends) ∧
    (path.Onward slack → ∀ front bend back, path.Drops front bend back →
      [path.lastKept front bend, path.nextKept front bend back] <:+: path.simplified.points ∧
      Point.Within ((back.length + 1) * slack) (path.lastKept front bend)
        (path.nextKept front bend back) bend) ∧
    (path.Advances → path.Onward 0) ∧ (path.Onward 0 → path.KeepsExtent) ∧
    ∀ layering options r plan, options.simplifyBends = true →
      layered layering options r = .planned plan →
      List.Forall₂ (fun link route => route.id = link.id ∧
        ∃ s t, plan.placement? link.source = some s ∧ plan.placement? link.target = some t ∧
          (link.source ≠ link.target → route.path = (Path.between s.box t.box).simplified ∧
            (Path.between s.box t.box).Onward 0 ∧ (Path.between s.box t.box).KeepsExtent) ∧
          (link.source = link.target → route.path = (Path.loop s.box).simplified ∧
            ((Path.loop s.box).KeepsExtent ↔ ¬Path.FlatLoop s.box))) r.links plan.routes := by
  refine ⟨simplify_sublist _ _ _, fun front bend back => Path.mem_simplified,
    fun honward front bend back h => ⟨h.neighbours, honward.within h⟩, Path.Advances.onward,
    Path.Onward.keepsExtent, ?_⟩
  intro layering options r plan hsimplify hplan
  -- What holds of every path is applied to the routes of a plan, which are simplified link by link.
  rw [layered_eq_planned_iff] at hplan
  refine (Layered.routes_spec hplan).imp ?_
  rintro link route ⟨s, t, hs, ht, hid, hpath⟩
  rw [hsimplify, Path.ofBoxes, if_pos rfl, if_congr decide_eq_true_iff rfl rfl] at hpath
  have honward := Path.onward_between s.box t.box
  refine ⟨hid, s, t, hs, ht, fun hne => ?_, fun heq => ?_⟩
  · rw [if_neg hne] at hpath
    exact ⟨hpath, honward, honward.keepsExtent⟩
  · rw [if_pos heq] at hpath
    exact ⟨hpath, Path.keepsExtent_loop_iff s.box⟩

/-- Of two boxes one is straight below the other, and the bends between them are on a line that
    goes on; the loop of the upper one is drawn in full. -/
theorem simplified_keeps_extent_stacked :
    let box (id : String) (corner : Point) : Item := ⟨id, id, ⟨120, 60⟩, some corner⟩
    let r : Request := ⟨[box "P" ⟨0, 0⟩, box "Q" ⟨0, 100⟩],
      [⟨"e0", "P", "Q", none⟩, ⟨"e1", "P", "P", none⟩]⟩
    let options : Options := { simplifyBends := true }
    let path : Path := .between (.ofTopLeft ⟨0, 0⟩ ⟨120, 60⟩) (.ofTopLeft ⟨0, 100⟩ ⟨120, 60⟩)
    let loop : Path := .loop (.ofTopLeft ⟨0, 0⟩ ⟨120, 60⟩)
    options.simplifyBends = true ∧ path.Onward 0 ∧ path.Drops [] ⟨60, 80⟩ [⟨60, 80⟩] ∧
      Point.Within 0 ⟨60, 60⟩ ⟨60, 100⟩ ⟨60, 80⟩ ∧ loop.KeepsExtent ∧
      ∃ plan e₀ e₁, layered .standard options r = .planned plan ∧ plan.routes = [e₀, e₁] ∧
        e₀.path = path.simplified ∧ e₀.bends = [] ∧ e₁.path = loop.simplified ∧
        e₁.bends = [⟨150, 15⟩, ⟨150, 45⟩] := by
  intro box r options path loop
  let plan : Plan :=
    ⟨[⟨"P", ⟨0, 0⟩, ⟨120, 60⟩⟩, ⟨"Q", ⟨0, 100⟩, ⟨120, 60⟩⟩],
      [⟨"e0", ⟨60, 60⟩, [], ⟨60, 100⟩⟩, ⟨"e1", ⟨120, 15⟩, [⟨150, 15⟩, ⟨150, 45⟩], ⟨120, 45⟩⟩],
      ⟨200, 210⟩⟩
  have hplan : layered .standard options r = .planned plan := by decide +kernel
  have hp : plan.placement? "P" = some ⟨"P", ⟨0, 0⟩, ⟨120, 60⟩⟩ := by decide +kernel
  have hq : plan.placement? "Q" = some ⟨"Q", ⟨0, 100⟩, ⟨120, 60⟩⟩ := by decide +kernel
  have honward : path.Onward 0 := Path.onward_between _ _
  have hdrops : path.Drops [] ⟨60, 80⟩ [⟨60, 80⟩] := ⟨by decide +kernel, by decide +kernel⟩
  rcases simplified_keeps_extent path 0 with ⟨_, _, hkept, _, _, hplans⟩
  rcases hkept honward _ _ _ hdrops with ⟨_, hwithin⟩
  have hlast : path.lastKept [] ⟨60, 80⟩ = ⟨60, 60⟩ := by decide +kernel
  have hnext : path.nextKept [] ⟨60, 80⟩ [⟨60, 80⟩] = ⟨60, 100⟩ := by decide +kernel
  rw [hlast, hnext, Nat.mul_zero] at hwithin
  rcases hplans .standard options r plan rfl hplan with _ | ⟨h₀, _ | ⟨h₁, _⟩⟩
  rcases h₀ with ⟨_, s, t, hs, ht, hbetween, _⟩
  rcases h₁ with ⟨_, s', _, hs', _, _, hloop⟩
  rcases hbetween (by decide) with ⟨hpath, _, _⟩
  rcases hloop rfl with ⟨hpath', hkeeps⟩
  rw [← Option.some.inj (hp.symm.trans hs), ← Option.some.inj (hq.symm.trans ht)] at hpath
  rw [← Option.some.inj (hp.symm.trans hs')] at hpath' hkeeps
  have hround : loop.KeepsExtent := hkeeps.mpr fun hflat => absurd hflat.flat (by decide +kernel)
  exact ⟨rfl, honward, hdrops, hwithin, hround, plan, _, _, hplan, rfl, hpath, rfl, hpath', rfl⟩

/-- A path that goes out and comes back loses the far end of its way, also with a slack of the
    size of a whole pixel. In the same way a box without a height loses its loop, and the drawing
    its right margin. -/
theorem simplified_loses_extent :
    let r : Request := ⟨[⟨"A", "A", ⟨120, 0⟩, none⟩], [⟨"e0", "A", "A", none⟩]⟩
    (¬∀ (path : Path) (front : List Point) (bend : Point) (back : List Point),
      path.Drops front bend back → Point.Within (2 ^ 149) (path.lastKept front bend)
        (path.nextKept front bend back) bend) ∧
      (¬∀ box, (Path.loop box).KeepsExtent) ∧
      (∃ plan, layered .standard { simplifyBends := false } r = .planned plan ∧
        plan.routes = [⟨"e0", ⟨170, 50⟩, [⟨200, 50⟩, ⟨200, 50⟩], ⟨170, 50⟩⟩] ∧
        plan.size = ⟨250, 100⟩) ∧
      ∃ plan, layered .standard { simplifyBends := true } r = .planned plan ∧
        plan.routes = [⟨"e0", ⟨170, 50⟩, [], ⟨170, 50⟩⟩] ∧ plan.size = ⟨220, 100⟩ := by
  intro r
  refine ⟨fun hkeeps => ?_, fun hkeeps => ?_, ?_, ?_⟩
  · -- A way out to the right and half the way back: the bend is dropped, and both ends are to the
    -- left of it.
    let path : Path := ⟨⟨0, 0⟩, [⟨100, 0⟩], ⟨50, 0⟩⟩
    have hwithin := hkeeps path [] ⟨100, 0⟩ [] ⟨rfl, by decide +kernel⟩
    have hfar : ¬units 100 ≤ max (units 0) (units 50) + (2 ^ 149 : Nat) := by decide +kernel
    exact hfar hwithin.x.high
  · -- The loop of a box without a height is flat.
    have hflat : Path.FlatLoop (.ofTopLeft ⟨50, 50⟩ ⟨120, 0⟩) :=
      ⟨by decide +kernel, by decide +kernel⟩
    exact (Path.keepsExtent_loop_iff _).mp (hkeeps _) hflat
  · exact ⟨⟨[⟨"A", ⟨50, 50⟩, ⟨120, 0⟩⟩], _, _⟩, by decide +kernel, rfl, rfl⟩
  · exact ⟨⟨[⟨"A", ⟨50, 50⟩, ⟨120, 0⟩⟩], _, _⟩, by decide +kernel, rfl, rfl⟩

end Engine

end Flowchart
