import Mathlib.Data.List.Forall2
import Mathlib.Data.List.Induction

/-!
# Rows

Several stages of a layout try something for each element of a list and stop at
the first failure: a node that a plan does not place, a box without a slot, a
link to a box that is not there. Both directions of that pattern are stated
here once. If the whole row succeeds, the results stand beside the elements
they were made from, and the row succeeds as soon as every element does.

Others go through a row and keep what they meet for the first time. How that
list changes when one more element comes is stated here too: it grows at its
end or not at all, so nothing in it ever moves.

## Theorems

* `bind_eq_ok_iff`: Of two steps in a row both succeed.
* `mapM_eq_ok_iff`: A row succeeds with the results of its elements.
* `exists_mapM_eq_ok_iff`: A row succeeds exactly if all its elements do.
* `map_mapM`, `mapM_congr`: Rows whose elements fail and succeed alike do.
* `exists_right_of_mem`, `exists_left_of_mem`, `exists_right_of_getElem?`: Every
  element of one of two rows side by side has a partner in the other.
* `map_eq_of_forall₂`: What partners have in common the rows have in common.
* `map_zip_of_fst`: Of two rows only the first is looked at.
* `forall₂_map_zip`: What is made of two rows stands beside the first.
* `rel_of_pairwise_and`, `pairwise_filterMap`: Rows that are in order.
* `eraseDups_concat`, `nodup_eraseDups`: An element is kept when it comes for the
  first time, and so once.
* `idxOf_eraseDups_append`: What was kept keeps its place.
-/

namespace Flowchart

namespace Row

variable {α β ε : Type}

theorem bind_eq_ok_iff {x : Except ε α} {f : α → Except ε β} {b : β} :
    x >>= f = .ok b ↔ ∃ a, x = .ok a ∧ f a = .ok b := by
  cases x with
  | error e => simp only [bind, Except.bind, reduceCtorEq, false_and, exists_false]
  | ok a => simp only [bind, Except.bind, Except.ok.injEq, exists_eq_left']

theorem mapM_eq_ok_iff (f : α → Except ε β) (xs : List α) (ys : List β) :
    xs.mapM f = .ok ys ↔ List.Forall₂ (fun x y => f x = .ok y) xs ys := by
  induction xs generalizing ys with
  | nil =>
      rw [List.forall₂_nil_left_iff]
      exact ⟨fun h => (Except.ok.inj h).symm, fun h => congrArg Except.ok h.symm⟩
  | cons x xs ih =>
      rw [List.mapM_cons, List.forall₂_cons_left_iff]
      simp only [bind_eq_ok_iff, ih]
      constructor
      · rintro ⟨y, hx, zs, hzs, hys⟩
        exact ⟨y, zs, hx, hzs, (Except.ok.inj hys).symm⟩
      · rintro ⟨y, zs, hx, hzs, hys⟩
        exact ⟨y, hx, zs, hzs, congrArg Except.ok hys.symm⟩

theorem exists_mapM_eq_ok_iff (f : α → Except ε β) (xs : List α) :
    (∃ ys, xs.mapM f = .ok ys) ↔ ∀ x ∈ xs, ∃ y, f x = .ok y := by
  simp only [mapM_eq_ok_iff]
  induction xs with
  | nil => simp only [List.forall₂_nil_left_iff, exists_eq, List.not_mem_nil, false_implies,
      implies_true]
  | cons x xs ih =>
      rw [List.forall_mem_cons, ← ih]
      simp only [List.forall₂_cons_left_iff]
      constructor
      · rintro ⟨_, y, ys, hy, hys, _⟩
        exact ⟨⟨y, hy⟩, ⟨ys, hys⟩⟩
      · rintro ⟨⟨y, hy⟩, ⟨ys, hys⟩⟩
        exact ⟨_, y, ys, hy, hys, rfl⟩

/-- To look at the results of a row is to look at each of them. -/
theorem map_mapM {γ : Type} (f : α → Except ε β) (view : β → γ) (xs : List α) :
    (xs.mapM f).map (List.map view) = xs.mapM fun x => (f x).map view := by
  induction xs with
  | nil => rfl
  | cons x xs ih =>
      rw [List.mapM_cons, List.mapM_cons, ← ih]
      cases f x with
      | error e => rfl
      | ok b => cases xs.mapM f <;> rfl

/-- Partners that succeed or fail alike make rows that do. -/
theorem mapM_congr {γ : Type} {R : α → γ → Prop} {xs : List α} {ys : List γ}
    (h : List.Forall₂ R xs ys) {f : α → Except ε β} {f' : γ → Except ε β}
    (hf : ∀ x y, R x y → f x = f' y) : xs.mapM f = ys.mapM f' := by
  induction h with
  | nil => rfl
  | cons hxy _ ih => rw [List.mapM_cons, List.mapM_cons, hf _ _ hxy, ih]

theorem exists_right_of_mem {R : α → β → Prop} {xs : List α} {ys : List β}
    (h : List.Forall₂ R xs ys) {x : α} (hx : x ∈ xs) : ∃ y ∈ ys, R x y := by
  induction h with
  | nil => exact absurd hx List.not_mem_nil
  | cons hxy _ ih =>
      rcases List.mem_cons.mp hx with rfl | hx
      · exact ⟨_, List.mem_cons_self, hxy⟩
      · rcases ih hx with ⟨y, hy, hr⟩
        exact ⟨y, List.mem_cons_of_mem _ hy, hr⟩

theorem exists_left_of_mem {R : α → β → Prop} {xs : List α} {ys : List β}
    (h : List.Forall₂ R xs ys) {y : β} (hy : y ∈ ys) : ∃ x ∈ xs, R x y :=
  exists_right_of_mem h.flip hy

theorem exists_right_of_getElem? {R : α → β → Prop} {xs : List α} {ys : List β}
    (h : List.Forall₂ R xs ys) {i : Nat} {x : α} (hx : xs[i]? = some x) :
    ∃ y, ys[i]? = some y ∧ R x y := by
  rcases List.getElem?_eq_some_iff.mp hx with ⟨hi, rfl⟩
  have hj : i < ys.length := h.length_eq ▸ hi
  exact ⟨ys[i], List.getElem?_eq_getElem hj, h.get hi hj⟩

/-- What partners have in common the rows have in common. -/
theorem map_eq_of_forall₂ {γ : Type} {R : α → α → Prop} {xs ys : List α}
    (h : List.Forall₂ R xs ys) (f : α → γ) (hf : ∀ x y, R x y → f y = f x) :
    ys.map f = xs.map f := by
  induction h with
  | nil => rfl
  | cons hxy _ ih => rw [List.map_cons, List.map_cons, hf _ _ hxy, ih]

/-- Of two rows side by side the second does not matter, if only the first is
    looked at. -/
theorem map_zip_of_fst {γ : Type} {xs : List α} {ys : List β} (hlength : ys.length = xs.length)
    (f : α × β → γ) (f' : α → γ) (hf : ∀ p, f p = f' p.1) : (xs.zip ys).map f = xs.map f' := by
  have hcomp : f = f' ∘ Prod.fst := funext hf
  rw [hcomp, ← List.map_map, List.map_fst_zip (Nat.le_of_eq hlength.symm)]

/-- What is made of the partners in two rows stands beside the first. -/
theorem forall₂_map_zip {γ : Type} {R : α → β → Prop} {S : α → γ → Prop} {xs : List α}
    {ys : List β} (h : List.Forall₂ R xs ys) {f : α × β → γ}
    (hf : ∀ x y, R x y → S x (f (x, y))) : List.Forall₂ S xs ((xs.zip ys).map f) := by
  induction h with
  | nil => exact .nil
  | cons hxy _ ih => exact .cons (hf _ _ hxy) ih

/-- In a row that is in order, what holds of the later partner of each holds wherever the order
    says so. -/
theorem rel_of_pairwise_and {R S : α → α → Prop} {xs : List α}
    (h : xs.Pairwise fun x y => R x y ∧ S x y) (hasymm : ∀ {x y}, R x y → ¬R y x) {x y : α}
    (hx : x ∈ xs) (hy : y ∈ xs) (hxy : R x y) : S x y := by
  rcases List.getElem_of_mem hx with ⟨i, hi, rfl⟩
  rcases List.getElem_of_mem hy with ⟨j, hj, rfl⟩
  rcases Nat.lt_trichotomy i j with hlt | rfl | hgt
  · exact (List.pairwise_iff_getElem.mp h i j hi hj hlt).2
  · exact absurd hxy (hasymm hxy)
  · exact absurd (List.pairwise_iff_getElem.mp h j i hj hi hgt).1 (hasymm hxy)

/-- What is taken from a row is in order if it keeps its place. -/
theorem pairwise_filterMap {f : α → Option β} {place : α → Nat} {place' : β → Nat}
    (hf : ∀ a b, f a = some b → place' b = place a) {xs : List α}
    (h : xs.Pairwise fun a a' => place a < place a') :
    (xs.filterMap f).Pairwise fun b b' => place' b < place' b' := by
  rw [List.pairwise_filterMap]
  refine h.imp ?_
  intro a a' hlt b hb b' hb'
  rw [hf a b hb, hf a' b' hb']
  exact hlt

/-! ## One more element -/

/-- In a row that was extended by one element stands what stood there, or at its
    end what is new. -/
theorem getElem?_concat_eq_some_iff {xs : List α} {x y : α} {v : Nat} :
    (xs ++ [x])[v]? = some y ↔ xs[v]? = some y ∨ v = xs.length ∧ x = y := by
  rw [List.getElem?_append]
  by_cases hv : v < xs.length
  · rw [if_pos hv]
    have : v ≠ xs.length := by omega
    simp [this]
  · have hnone : xs[v]? = none := List.getElem?_eq_none (by omega)
    rw [if_neg hv, hnone, List.getElem?_singleton]
    by_cases hend : v = xs.length
    · simp [hend]
    · have : v - xs.length ≠ 0 := by omega
      simp [hend, this]

section eraseDups

variable [BEq α] [LawfulBEq α]

/-- An element that comes last is kept if it did not come before. -/
theorem eraseDups_concat (xs : List α) (x : α) :
    (xs ++ [x]).eraseDups = if x ∈ xs then xs.eraseDups else xs.eraseDups ++ [x] := by
  rw [List.eraseDups_append]
  by_cases hx : x ∈ xs
  · simp [hx, List.removeAll]
  · simp [hx, List.removeAll, List.eraseDups_cons]

theorem nodup_eraseDups (xs : List α) : xs.eraseDups.Nodup := by
  induction xs using List.reverseRecOn with
  | nil => simp
  | append_singleton xs x ih =>
      rw [eraseDups_concat]
      by_cases hx : x ∈ xs
      · rwa [if_pos hx]
      · rw [if_neg hx, List.nodup_append]
        refine ⟨ih, by simp, ?_⟩
        intro a ha b hb heq
        rw [List.mem_eraseDups] at ha
        rw [List.mem_singleton] at hb
        exact hx (by rwa [heq, hb] at ha)

/-- What was kept keeps its place when more comes. -/
theorem idxOf_eraseDups_append {xs : List α} {x : α} (h : x ∈ xs) (ys : List α) :
    (xs ++ ys).eraseDups.idxOf x = xs.eraseDups.idxOf x := by
  rw [List.eraseDups_append, List.idxOf_append_of_mem (List.mem_eraseDups.mpr h)]

end eraseDups

end Row

end Flowchart
