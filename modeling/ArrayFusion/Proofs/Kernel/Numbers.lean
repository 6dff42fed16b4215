import ArrayFusion.Kernel.Symbols
import Mathlib.Data.List.Forall2

/-!
# Numbers of symbols

Bases, views and constants are numbered in the order of their first use. Two uses have the same
number if and only if they are uses of the same symbol, and the numbers depend on nothing but which
uses are the same.
-/

namespace ArrayFusion

section FirstOfEach

variable {α β : Type} {same : α → α → Bool} {same' : β → β → Bool} {xs : List α} {x y : α}

/-- One of several elements that are the same stays. -/
theorem exists_mem_firstOfEach (equiv : Equivalence fun x y => same x y = true) (h : x ∈ xs) :
    ∃ y ∈ firstOfEach same xs, same y x = true := by
  induction xs with
  | nil => contradiction
  | cons z xs ih =>
    rw [firstOfEach]
    by_cases own : same z x = true
    · exact ⟨z, List.mem_cons_self, own⟩
    · rcases List.mem_cons.mp h with rfl | later
      · exact absurd (equiv.refl x) own
      · obtain ⟨y, hy, equal⟩ := ih later
        refine ⟨y, List.mem_cons_of_mem z (List.mem_filter.mpr ⟨hy, ?_⟩), equal⟩
        cases joined : same z y with
        | false => rfl
        | true => exact absurd (equiv.trans joined equal) own

/-- Lists whose elements are the same in the same places keep elements in the same places. -/
theorem forall₂_firstOfEach {R : α → β → Prop} {ys : List β}
    (respects : ∀ x x', R x x' → ∀ y y', R y y' → same x y = same' x' y')
    (related : List.Forall₂ R xs ys) :
    List.Forall₂ R (firstOfEach same xs) (firstOfEach same' ys) := by
  induction related with
  | nil => exact .nil
  | @cons x x' xs ys first rest ih =>
    refine .cons first (List.rel_filter ?_ ih)
    intro y y' hy
    show (!same x y) = true ↔ (!same' x' y') = true
    rw [respects x x' first y y' hy]

end FirstOfEach

namespace Symbols

variable {α β : Type} {same : α → α → Bool} {same' : β → β → Bool} {xs : List α} {x y : α}

/-- The number of an element that is there is the place of the first one that is the same. -/
theorem position_spec {p : α → Bool} (h : ∃ z ∈ xs, p z = true) :
    ∃ z, xs[position p xs]? = some z ∧ p z = true := by
  cases found : xs.findIdx? p with
  | none =>
    obtain ⟨z, hz, sat⟩ := h
    rw [List.findIdx?_eq_none_iff.mp found z hz] at sat
    contradiction
  | some n =>
    obtain ⟨inside, sat, -⟩ := List.findIdx?_eq_some_iff_getElem.mp found
    rw [position, found]
    exact ⟨xs[n], List.getElem?_eq_getElem inside, sat⟩

/-- Elements that are the same have the same number, and no other ones. -/
theorem position_eq_iff (equiv : Equivalence fun x y => same x y = true)
    (hx : ∃ z ∈ xs, same z x = true) (hy : ∃ z ∈ xs, same z y = true) :
    position (same · x) xs = position (same · y) xs ↔ same x y = true := by
  constructor
  · intro numbers
    obtain ⟨z, first, left⟩ := position_spec hx
    obtain ⟨w, second, right⟩ := position_spec hy
    obtain rfl : z = w := Option.some.inj (by rw [← first, ← second, numbers])
    exact equiv.trans (equiv.symm left) right
  · intro equal
    refine congrArg (position · xs) (funext fun z => ?_)
    rw [Bool.eq_iff_iff]
    exact ⟨fun h => equiv.trans h equal, fun h => equiv.trans h (equiv.symm equal)⟩

/-- Numbers depend on which elements are the same. -/
theorem position_congr {R : α → β → Prop} {ys : List β} {p : α → Bool} {q : β → Bool}
    (respects : ∀ x y, R x y → p x = q y) (related : List.Forall₂ R xs ys) :
    position p xs = position q ys := by
  have place : xs.findIdx? p = ys.findIdx? q := by
    induction related with
    | nil => rfl
    | cons first rest ih =>
      rw [List.findIdx?_cons, List.findIdx?_cons, respects _ _ first, ih]
  rw [position, position, place]

end Symbols

theorem View.sameAccess_equivalence : Equivalence fun v w : View => v.sameAccess w = true where
  refl v := sameAccess_iff.mpr ⟨rfl, rfl, rfl⟩
  symm h := by
    obtain ⟨base, start, axes⟩ := sameAccess_iff.mp h
    exact sameAccess_iff.mpr ⟨base.symm, start.symm, axes.symm⟩
  trans h h' := by
    obtain ⟨base, start, axes⟩ := sameAccess_iff.mp h
    obtain ⟨base', start', axes'⟩ := sameAccess_iff.mp h'
    exact sameAccess_iff.mpr ⟨base.trans base', start.trans start', axes.trans axes'⟩

/-- Shape and strides make the axes of a view. -/
theorem View.axes_eq {v w : View} (shape : w.shape = v.shape) (strides : w.strides = v.strides) :
    w.axes = v.axes := by
  have injective : Function.Injective fun a : Axis => (a.size, a.stride) := by
    rintro ⟨size, stride⟩ ⟨size', stride'⟩ same
    obtain ⟨rfl, rfl⟩ := Prod.mk.inj same
    rfl
  refine List.map_injective_iff.mpr injective ?_
  have pairs : ∀ v : View, v.axes.map (fun a => (a.size, a.stride)) = v.shape.zip v.strides :=
    fun v => (List.zip_map' ..).symm
  rw [pairs, pairs, shape, strides]

end ArrayFusion
