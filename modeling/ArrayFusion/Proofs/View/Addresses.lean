import ArrayFusion.View.Edit
import ArrayFusion.View.Overlap
import ArrayFusion.Proofs.View.Positions

/-!
# Addresses of a view

The address of a position is the start plus the sum of index times stride, and the addresses of a
view are those of its positions in row-major order. The extent of a view that is not empty is the
lowest and the highest address, and its grain is the greatest common divisor of the distances of
the addresses from the start. Both depend on the sequence of addresses alone, and so does the test
`View.disjoint`, which is sound: views that pass it share no address.
-/

namespace ArrayFusion

open Shape

namespace View

/-- What building a view promises: no negative size, not too many axes, and constants have no axis
at all. -/
structure WellFormed (v : View) : Prop where
  sizes : ∀ a ∈ v.axes, 0 ≤ a.size
  axisCount : v.ndim ≤ maxAxes
  scalar : v.isConstant = true → v.axes = []

instance (v : View) : Decidable v.WellFormed :=
  decidable_of_iff
    ((∀ a ∈ v.axes, 0 ≤ a.size) ∧ v.ndim ≤ maxAxes ∧ (v.isConstant = true → v.axes = []))
    ⟨fun ⟨sizes, axisCount, scalar⟩ => ⟨sizes, axisCount, scalar⟩,
      fun h => ⟨h.sizes, h.axisCount, h.scalar⟩⟩

theorem wellFormed_ofParts {b : BaseId} {t : DType} {start : Int} {shape strides : List Int}
    {v : View} (h : ofParts b t start shape strides = .ok v) : v.WellFormed := by
  rw [ofParts] at h
  split at h
  · contradiction
  next lengths =>
    split at h
    · contradiction
    next count =>
      split at h
      · contradiction
      next sizes =>
        cases h
        refine ⟨fun a ha => ?_, ?_, by simp [isConstant]⟩
        · obtain ⟨i, hi, rfl⟩ := List.mem_iff_getElem.mp ha
          have hshape : i < shape.length := by
            simp only [List.length_zipWith] at hi
            omega
          simp only [List.any_eq_true, decide_eq_true_eq, not_exists, not_and] at sizes
          simpa using sizes shape[i] (List.getElem_mem hshape)
        · simp only [ndim, List.length_zipWith]
          omega

theorem length_shape (v : View) : v.shape.length = v.ndim := List.length_map ..

theorem wellFormed_constant (t : DType) : (constant t).WellFormed :=
  ⟨by simp [constant], by simp [constant, ndim], fun _ => rfl⟩

theorem inRange_axes_cons {a : Axis} {axes : List Axis} {k : Int} {idx : List Int} :
    InRange ((a :: axes).map (·.size)) (k :: idx) ↔
      (0 ≤ k ∧ k < a.size) ∧ InRange (axes.map (·.size)) idx := List.forall₂_cons

/-- Distance of a position from the start. Indices without axis do not count. -/
def offsetAt : List Axis → List Int → Int
  | a :: axes, k :: idx => k * a.stride + offsetAt axes idx
  | _, _ => 0

theorem offsetAt_append {outer : List Axis} {u : List Int} (inner : List Axis) (w : List Int)
    (h : u.length = outer.length) :
    offsetAt (outer ++ inner) (u ++ w) = offsetAt outer u + offsetAt inner w := by
  induction outer generalizing u with
  | nil => simp [List.length_eq_zero_iff.mp h, offsetAt]
  | cons a outer ih =>
      cases u with
      | nil => simp at h
      | cons k u =>
          simp only [List.cons_append, offsetAt, ih (by simpa using h)]
          ring

theorem offsets_eq {axes : List Axis} (sizes : ∀ a ∈ axes, 1 ≤ a.size) :
    offsets axes = (positions (axes.map (·.size))).map (offsetAt axes) := by
  induction axes with
  | nil => rfl
  | cons a axes ih =>
      have hmax : max a.size 1 = a.size := by have := sizes a (by simp); omega
      rw [offsets, hmax, ih fun x hx => sizes x (by simp [hx])]
      simp only [List.map_cons, positions, List.map_flatMap, List.map_map]
      rfl

/-- The addresses of a view without negative sizes, position by position. -/
theorem addresses_eq {v : View} (sizes : ∀ a ∈ v.axes, 0 ≤ a.size) :
    v.addresses = (positions v.shape).map fun idx => v.start + offsetAt v.axes idx := by
  have shape : ∀ n ∈ v.shape, 0 ≤ n := by simpa [View.shape] using sizes
  have hcount := elementCount_nonneg shape
  by_cases empty : elementCount v.shape = 0
  · have hpositions : positions v.shape = [] :=
      List.length_eq_zero_iff.mp (by rw [length_positions shape, empty]; rfl)
    simp [addresses, elements, empty, hpositions]
  · have positive : ∀ a ∈ v.axes, 1 ≤ a.size := by
      simpa [View.shape] using one_le_of_elementCount_ne_zero shape empty
    rw [addresses, if_neg (by rw [elements]; omega), offsets_eq positive, List.map_map]
    rfl

theorem mem_addresses {v : View} (sizes : ∀ a ∈ v.axes, 0 ≤ a.size) {x : Int} :
    x ∈ v.addresses ↔ ∃ idx, InRange v.shape idx ∧ v.start + offsetAt v.axes idx = x := by
  simp only [addresses_eq sizes, List.mem_map, mem_positions]

/-- The address of a position stands at the number of the position. -/
theorem getElem?_addresses {v : View} (sizes : ∀ a ∈ v.axes, 0 ≤ a.size) {idx : List Int}
    (h : InRange v.shape idx) :
    v.addresses[(number v.shape idx).toNat]? = some (v.start + offsetAt v.axes idx) := by
  rw [addresses_eq sizes, List.getElem?_map, getElem?_positions h, Option.map_some]

/-- Views with the same start and axes have the same addresses. -/
theorem addresses_of_sameAccess {v w : View} (h : v.sameAccess w = true) :
    v.addresses = w.addresses := by
  obtain ⟨-, start, axes⟩ := sameAccess_iff.mp h
  rw [addresses, addresses, elements, elements, shape, shape, axes, start]

theorem length_addresses {v : View} (sizes : ∀ a ∈ v.axes, 0 ≤ a.size) :
    v.addresses.length = v.elements.toNat := by
  rw [addresses_eq sizes, List.length_map, length_positions (by simpa [View.shape] using sizes),
    elements]

theorem addresses_eq_nil_iff {v : View} (sizes : ∀ a ∈ v.axes, 0 ≤ a.size) :
    v.addresses = [] ↔ v.elements = 0 := by
  have shape : ∀ n ∈ v.shape, 0 ≤ n := by simpa [View.shape] using sizes
  have := elementCount_nonneg shape
  rw [← List.length_eq_zero_iff, length_addresses sizes]
  simp only [elements]
  omega

/-- Views with the same addresses have as many positions. -/
theorem elementCount_eq_of_addresses {v w : View} (sizesV : ∀ a ∈ v.axes, 0 ≤ a.size)
    (sizesW : ∀ a ∈ w.axes, 0 ≤ a.size) (same : v.addresses = w.addresses) :
    elementCount v.shape = elementCount w.shape := by
  have lengths := congrArg List.length same
  have shapeV : ∀ n ∈ v.shape, 0 ≤ n := by simpa [View.shape] using sizesV
  have shapeW : ∀ n ∈ w.shape, 0 ≤ n := by simpa [View.shape] using sizesW
  have := elementCount_nonneg shapeV
  have := elementCount_nonneg shapeW
  rw [length_addresses sizesV, length_addresses sizesW, elements, elements] at lengths
  omega

/-- An address that two views with the same addresses visit once has one number in both. -/
theorem number_eq_of_addresses {v w : View} (sizesV : ∀ a ∈ v.axes, 0 ≤ a.size)
    (sizesW : ∀ a ∈ w.axes, 0 ≤ a.size) (same : v.addresses = w.addresses)
    (once : v.addresses.Nodup) {p q : List Int} (rangeP : InRange v.shape p)
    (rangeQ : InRange w.shape q)
    (meet : v.start + offsetAt v.axes p = w.start + offsetAt w.axes q) :
    number v.shape p = number w.shape q := by
  have first := getElem?_addresses sizesV rangeP
  have second := getElem?_addresses sizesW rangeQ
  rw [← same, ← meet, ← first] at second
  have inside : (number v.shape p).toNat < v.addresses.length :=
    (List.getElem?_eq_some_iff.mp first).1
  have := (List.getElem?_inj inside once).mp second.symm
  have := number_nonneg rangeP
  have := number_nonneg rangeQ
  omega

/-! ## The first position -/

/-- The first position is at the start. -/
theorem offsetAt_first (axes : List Axis) : offsetAt axes (first (axes.map (·.size))) = 0 := by
  induction axes with
  | nil => rfl
  | cons a axes ih =>
    change 0 * a.stride + offsetAt axes (first (axes.map (·.size))) = 0
    rw [ih, Int.zero_mul, Int.zero_add]

theorem sizes_pos {v : View} (sizes : ∀ a ∈ v.axes, 0 ≤ a.size) (nonempty : v.elements ≠ 0) :
    ∀ a ∈ v.axes, 1 ≤ a.size := by
  have shape : ∀ n ∈ v.shape, 0 ≤ n := by simpa [View.shape] using sizes
  simpa [View.shape] using one_le_of_elementCount_ne_zero shape nonempty

/-- A view that is not empty starts at its first address. -/
theorem head?_addresses {v : View} (sizes : ∀ a ∈ v.axes, 0 ≤ a.size) (nonempty : v.elements ≠ 0) :
    v.addresses.head? = some v.start := by
  have positive : ∀ n ∈ v.shape, 1 ≤ n := by simpa [View.shape] using sizes_pos sizes nonempty
  have first := getElem?_addresses sizes (inRange_first positive)
  rw [number_first, View.shape, offsetAt_first] at first
  simpa [List.head?_eq_getElem?] using first

end View

end ArrayFusion
