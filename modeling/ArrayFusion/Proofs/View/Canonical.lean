import ArrayFusion.Proofs.View.Reshape

/-!
# Simplified views are canonical

A view that is not empty has one start and one sequence of offsets for its addresses, and joined
axes are determined by their offsets. So views of one base have the same addresses exactly if they
are the same after `View.simplify`, which leaves as few axes as any view with these addresses has.

The same fact makes `View.toShape` complete. Axes of any sizes that give the addresses join to the
axes that `spread` starts from. Going through the sizes from the innermost one, `spread` takes the
joins back one by one, so none of its divisions fails.
-/

namespace ArrayFusion.View

/-! ## Start and offsets -/

theorem addresses_of_pos {v : View} (nonempty : 1 ≤ v.elements) :
    v.addresses = (offsets v.axes).map (v.start + ·) := by
  rw [addresses, if_neg (by omega)]

theorem first_address {v : View} (nonempty : 1 ≤ v.elements) :
    v.addresses[0]? = some v.start := by
  rw [addresses_of_pos nonempty, List.getElem?_map, head?_offsets, Option.map_some, Int.add_zero]

/-- Only views with positions have addresses. -/
theorem elements_pos_of_addresses {v w : View} (nonempty : 1 ≤ v.elements)
    (same : w.addresses = v.addresses) : 1 ≤ w.elements := by
  by_contra empty
  have first := first_address nonempty
  rw [← same, addresses, if_pos (by omega)] at first
  contradiction

/-- The addresses of a view that is not empty determine its start and its offsets. -/
theorem addresses_eq_iff {v w : View} (nonemptyV : 1 ≤ v.elements) (nonemptyW : 1 ≤ w.elements) :
    v.addresses = w.addresses ↔ v.start = w.start ∧ offsets v.axes = offsets w.axes := by
  constructor
  · intro same
    have start : v.start = w.start := by
      have first := first_address nonemptyV
      rw [same, first_address nonemptyW] at first
      exact (Option.some.inj first).symm
    refine ⟨start, ?_⟩
    rw [addresses_of_pos nonemptyV, addresses_of_pos nonemptyW, start] at same
    exact List.map_injective_iff.mpr (fun x y h => Int.add_left_cancel h) same
  · rintro ⟨start, same⟩
    rw [addresses_of_pos nonemptyV, addresses_of_pos nonemptyW, start, same]

/-- An axis without positive size has the offsets of an axis of size one. -/
theorem offsets_map_max (axes : List Axis) :
    offsets (axes.map fun a => ⟨max a.size 1, a.stride⟩) = offsets axes := by
  induction axes with
  | nil => rfl
  | cons a axes ih =>
    have idempotent : max (max a.size 1) 1 = max a.size 1 := by omega
    rw [List.map_cons, offsets, offsets, ih, idempotent]

/-! ## Simplified views -/

theorem length_joinAxis (outer : List Axis) (a : Axis) :
    (joinAxis outer a).length ≤ outer.length + 1 := by
  by_cases one : a.size = 1
  · rw [joinAxis_one outer one]
    omega
  cases outer with
  | nil =>
    rw [joinAxis, if_neg one]
    rfl
  | cons last rest =>
    rw [joinAxis_cons last rest one]
    split <;> simp

/-- Joining does not add axes. -/
theorem length_joinedAxes (axes : List Axis) : (joinedAxes axes).length ≤ axes.length := by
  suffices general : ∀ outer, (axes.foldl joinAxis outer).length ≤ outer.length + axes.length by
    have := general []
    rwa [List.length_nil, Nat.zero_add] at this
  induction axes with
  | nil => intro outer; simp
  | cons a axes ih =>
    intro outer
    have first := length_joinAxis outer a
    have rest := ih (joinAxis outer a)
    rw [List.foldl_cons, List.length_cons]
    omega

/-- Axes with the same offsets join to the same axes. -/
theorem joinedAxes_eq {xs ys : List Axis} (sizesX : ∀ a ∈ xs, 1 ≤ a.size)
    (sizesY : ∀ a ∈ ys, 1 ≤ a.size) (same : offsets xs = offsets ys) :
    joinedAxes xs = joinedAxes ys := by
  obtain ⟨joinedX, offsetsX⟩ := joined_joinedAxes sizesX
  obtain ⟨joinedY, offsetsY⟩ := joined_joinedAxes sizesY
  apply joinedX.eq_of_offsets_eq joinedY
  rw [offsetsX, offsetsY, same]

section Simplify

variable {v w : View}

theorem simplify_eq (array : v.isConstant = false) (nonempty : 1 ≤ v.elements) :
    v.simplify = { v with
      axes := (if joinedAxes v.axes = [] then [⟨1, 1⟩] else (joinedAxes v.axes).reverse) } := by
  have computes : ¬ (v.isConstant = true ∨ v.elements = 0) := by
    have : v.elements ≠ 0 := by omega
    simp [array, this]
  rw [simplify, if_neg computes]
  simp only [List.isEmpty_iff]

theorem base_simplify : v.simplify.base = v.base := by
  rw [simplify]
  split <;> rfl

theorem start_simplify : v.simplify.start = v.start := by
  rw [simplify]
  split <;> rfl

theorem isConstant_simplify : v.simplify.isConstant = v.isConstant := by
  rw [isConstant, base_simplify, isConstant]

theorem offsets_simplify (array : v.isConstant = false) (sizes : ∀ a ∈ v.axes, 0 ≤ a.size)
    (nonempty : 1 ≤ v.elements) : offsets v.simplify.axes = offsets v.axes := by
  have same := (joined_joinedAxes (sizes_pos sizes (by omega))).2
  rw [simplify_eq array nonempty]
  dsimp only
  split
  next single => rw [← same, single]; rfl
  next => exact same

/-- No axis of a simplified view is empty. -/
theorem sizes_simplify (array : v.isConstant = false) (sizes : ∀ a ∈ v.axes, 0 ≤ a.size)
    (nonempty : 1 ≤ v.elements) : ∀ a ∈ v.simplify.axes, 1 ≤ a.size := by
  have joined := (joined_joinedAxes (sizes_pos sizes (by omega))).1
  rw [simplify_eq array nonempty]
  intro a ha
  dsimp only at ha
  split at ha
  next => rw [List.mem_singleton.mp ha]
  next =>
    have size := joined.sizes a (List.mem_reverse.mp ha)
    omega

theorem elements_simplify (array : v.isConstant = false) (sizes : ∀ a ∈ v.axes, 0 ≤ a.size)
    (nonempty : 1 ≤ v.elements) : 1 ≤ v.simplify.elements := by
  have positive : ∀ n ∈ v.simplify.shape, 1 ≤ n := by
    simpa [shape] using sizes_simplify array sizes nonempty
  have product (shape : List Int) (positive : ∀ n ∈ shape, 1 ≤ n) : 1 ≤ elementCount shape := by
    induction shape with
    | nil => exact Int.le_refl 1
    | cons n shape ih =>
      obtain ⟨first, rest⟩ := List.forall_mem_cons.mp positive
      exact Int.mul_pos first (ih rest)
  exact product v.simplify.shape positive

/-- Simplifying keeps the addresses in their order. -/
theorem addresses_simplify (array : v.isConstant = false) (sizes : ∀ a ∈ v.axes, 0 ≤ a.size)
    (nonempty : 1 ≤ v.elements) : v.simplify.addresses = v.addresses := by
  apply (addresses_eq_iff (elements_simplify array sizes nonempty) nonempty).mpr
  exact ⟨start_simplify, offsets_simplify array sizes nonempty⟩

/-- Views with the same offsets have the same axes once they are simplified. -/
theorem axes_simplify_eq (arrayV : v.isConstant = false) (arrayW : w.isConstant = false)
    (sizesV : ∀ a ∈ v.axes, 0 ≤ a.size) (sizesW : ∀ a ∈ w.axes, 0 ≤ a.size)
    (nonemptyV : 1 ≤ v.elements) (nonemptyW : 1 ≤ w.elements)
    (same : offsets v.axes = offsets w.axes) : v.simplify.axes = w.simplify.axes := by
  have joined := joinedAxes_eq (sizes_pos sizesV (by omega)) (sizes_pos sizesW (by omega)) same
  rw [simplify_eq arrayV nonemptyV, simplify_eq arrayW nonemptyW, joined]

theorem addresses_eq_iff_simplify (arrayV : v.isConstant = false) (base : v.base = w.base)
    (sizesV : ∀ a ∈ v.axes, 0 ≤ a.size) (sizesW : ∀ a ∈ w.axes, 0 ≤ a.size)
    (nonemptyV : 1 ≤ v.elements) (nonemptyW : 1 ≤ w.elements) :
    v.addresses = w.addresses ↔ v.simplify.sameAccess w.simplify = true := by
  have arrayW : w.isConstant = false := by rwa [isConstant, ← base]
  rw [sameAccess_iff]
  constructor
  · intro same
    obtain ⟨start, offsets⟩ := (addresses_eq_iff nonemptyV nonemptyW).mp same
    refine ⟨?_, ?_, ?_⟩
    · rw [base_simplify, base_simplify, base]
    · rw [start_simplify, start_simplify, start]
    · exact axes_simplify_eq arrayV arrayW sizesV sizesW nonemptyV nonemptyW offsets
  · rintro ⟨-, start, axes⟩
    apply (addresses_eq_iff nonemptyV nonemptyW).mpr
    rw [start_simplify, start_simplify] at start
    refine ⟨start, ?_⟩
    rw [← offsets_simplify arrayV sizesV nonemptyV, axes, offsets_simplify arrayW sizesW nonemptyW]

theorem simplify_simplify (array : v.isConstant = false) (sizes : ∀ a ∈ v.axes, 0 ≤ a.size)
    (nonempty : 1 ≤ v.elements) : v.simplify.simplify = v.simplify := by
  have arrayS : v.simplify.isConstant = false := isConstant_simplify.trans array
  have nonemptyS := elements_simplify array sizes nonempty
  have sizesS : ∀ a ∈ v.simplify.axes, 0 ≤ a.size := by
    intro a ha
    have := sizes_simplify array sizes nonempty a ha
    omega
  have axes := axes_simplify_eq arrayS array sizesS sizes nonemptyS nonempty
    (offsets_simplify array sizes nonempty)
  have rest : v.simplify.simplify = { v.simplify with axes := v.simplify.simplify.axes } := by
    rw [simplify_eq arrayS nonemptyS]
  rw [rest, axes]

/-- A simplified view has no more axes than any view with the same addresses, whatever its sizes
are. -/
theorem ndim_simplify_le (array : v.isConstant = false) (sizes : ∀ a ∈ v.axes, 0 ≤ a.size)
    (nonempty : 1 ≤ v.elements) (axes : 1 ≤ w.ndim) (same : w.addresses = v.addresses) :
    v.simplify.ndim ≤ w.ndim := by
  have nonemptyW := elements_pos_of_addresses nonempty same
  obtain ⟨-, offsets⟩ := (addresses_eq_iff nonemptyW nonempty).mp same
  rw [← offsets_map_max] at offsets
  have positive : ∀ a ∈ w.axes.map fun a => (⟨max a.size 1, a.stride⟩ : Axis), 1 ≤ a.size := by
    intro a ha
    obtain ⟨b, -, rfl⟩ := List.mem_map.mp ha
    exact Int.le_max_right b.size 1
  have joined := joinedAxes_eq positive (sizes_pos sizes (by omega)) offsets
  have short := length_joinedAxes (w.axes.map fun a => ⟨max a.size 1, a.stride⟩)
  rw [joined, List.length_map] at short
  rw [simplify_eq array nonempty, ndim]
  dsimp only
  split
  · exact axes
  · rwa [List.length_reverse]

end Simplify

section Spread

variable {rest stride size : Int} {joined : List Axis} {sizes : List Int}

theorem spread_one : spread rest stride joined (1 :: sizes) =
    (spread rest stride joined sizes).map (stride :: ·) := by
  conv_lhs => unfold spread
  rw [if_pos rfl]

/-- What is left of an axis is divided. -/
theorem spread_of_ne_one (notOne : size ≠ 1) (more : rest ≠ 1) :
    spread rest stride joined (size :: sizes) =
      if rest.tmod size = 0 then
        (spread (rest.tdiv size) (stride * size) joined sizes).map (stride :: ·)
      else none := by
  rw [spread, if_neg notOne]
  intro next joined one
  exact absurd one more

/-- Once an axis is used up, the next one is taken. -/
theorem spread_next {next : Axis} (notOne : size ≠ 1) (more : next.size ≠ 1) :
    spread 1 stride (next :: joined) (size :: sizes) =
      spread next.size next.stride joined (size :: sizes) := by
  rw [spread_of_ne_one notOne more, spread, if_neg notOne]

/-- A size that divides what is left of an axis takes its share. -/
theorem spread_share (notOne : size ≠ 1) (more : rest * size ≠ 1) (positive : size ≠ 0) :
    spread (rest * size) stride joined (size :: sizes) =
      (spread rest (stride * size) joined sizes).map (stride :: ·) := by
  rw [spread_of_ne_one notOne more, Int.mul_tmod_left, if_pos rfl, Int.mul_tdiv_cancel _ positive]

end Spread

/-- Spreading joined axes over sizes succeeds, before the innermost axis is taken and when it is. -/
structure Spreads (joined : List Axis) (sizes : List Int) : Prop where
  before : ∀ stride, ∃ strides, spread 1 stride joined sizes = some strides
  within : ∀ first outer, joined = first :: outer →
    ∃ strides, spread first.size first.stride outer sizes = some strides

namespace Spreads

variable {joined : List Axis} {sizes : List Int}

theorem nil : Spreads [] [] := ⟨fun _ => ⟨[], rfl⟩, fun _ _ h => by contradiction⟩

theorem one (h : Spreads joined sizes) : Spreads joined (1 :: sizes) := by
  constructor
  · intro stride
    obtain ⟨strides, found⟩ := h.before stride
    exact ⟨stride :: strides, by rw [spread_one, found, Option.map_some]⟩
  · intro first outer same
    obtain ⟨strides, found⟩ := h.within first outer same
    exact ⟨first.stride :: strides, by rw [spread_one, found, Option.map_some]⟩

/-- It is enough to look at the innermost axis once it is taken. -/
theorem of_within {first : Axis} {outer : List Axis} {size : Int} (notOne : size ≠ 1)
    (more : first.size ≠ 1)
    (within : ∃ strides, spread first.size first.stride outer (size :: sizes) = some strides) :
    Spreads (first :: outer) (size :: sizes) := by
  constructor
  · intro stride
    rwa [spread_next notOne more]
  · rintro _ _ ⟨⟩
    exact within

/-- An axis that is not joined to the next outer one is spread over its own size. -/
theorem own {a : Axis} (h : Spreads joined sizes) (size : 2 ≤ a.size) :
    Spreads (a :: joined) (a.size :: sizes) := by
  apply of_within (by omega) (by omega)
  obtain ⟨strides, found⟩ := h.before (a.stride * a.size)
  have share : spread (1 * a.size) a.stride joined (a.size :: sizes) =
      (spread 1 (a.stride * a.size) joined sizes).map (a.stride :: ·) :=
    spread_share (by omega) (by omega) (by omega)
  rw [Int.one_mul, found] at share
  exact ⟨_, share⟩

/-- An axis that continues the next outer one takes a share of what they are joined to. -/
theorem join {last : Axis} {outer : List Axis} {n stride : Int}
    (h : Spreads (last :: outer) sizes) (continues : last.stride = stride * n)
    (sizeLast : 2 ≤ last.size) (size : 2 ≤ n) :
    Spreads (⟨last.size * n, stride⟩ :: outer) (n :: sizes) := by
  have large : last.size * n ≠ 1 := by
    have := Int.mul_le_mul sizeLast size (by omega) (by omega)
    omega
  apply of_within (by omega) large
  obtain ⟨strides, found⟩ := h.within last outer rfl
  have share : spread (last.size * n) stride outer (n :: sizes) =
      (spread last.size (stride * n) outer sizes).map (stride :: ·) :=
    spread_share (by omega) large (by omega)
  rw [← continues, found] at share
  exact ⟨_, share⟩

theorem joinAxis {a : Axis} (h : Spreads joined sizes) (normal : Joined joined)
    (size : 1 ≤ a.size) : Spreads (joinAxis joined a) (a.size :: sizes) := by
  by_cases single : a.size = 1
  · rw [joinAxis_one joined single, single]
    exact h.one
  cases joined with
  | nil =>
    rw [View.joinAxis, if_neg single]
    exact h.own (by omega)
  | cons last outer =>
    rw [joinAxis_cons last outer single]
    split
    next continues => exact h.join continues (normal.sizes last (by simp)) (by omega)
    next => exact h.own (by omega)

end Spreads

/-- Joined axes can be spread over the sizes of the axes that they were joined from. -/
theorem spreads_joinedAxes {axes : List Axis} (sizes : ∀ a ∈ axes, 1 ≤ a.size) :
    Spreads (joinedAxes axes) (axes.map (·.size)).reverse := by
  induction axes using List.reverseRecOn with
  | nil => exact .nil
  | append_singleton axes a ih =>
    have before : ∀ x ∈ axes, 1 ≤ x.size := fun x hx => sizes x (by simp [hx])
    have step : joinedAxes (axes ++ [a]) = joinAxis (joinedAxes axes) a := by
      rw [joinedAxes, List.foldl_append]
      rfl
    rw [step, List.map_append, List.reverse_append]
    exact (ih before).joinAxis (joined_joinedAxes before).1 (sizes a (by simp))

/-- Strides are found if there are any. -/
theorem exists_stridesFor {v : View} {shape strides : List Int} (array : v.isConstant = false)
    (sizes : ∀ a ∈ v.axes, 0 ≤ a.size) (nonempty : 1 ≤ v.elements)
    (positive : ∀ n ∈ shape, 1 ≤ n) (length : strides.length = shape.length)
    (same : offsets (List.zipWith Axis.mk shape strides) = offsets v.axes) :
    ∃ found, stridesFor v.simplify.axes shape = some found := by
  have sizesV := sizes_pos sizes (by omega : v.elements ≠ 0)
  have shapes := map_size_zipWith length
  have sizesW : ∀ a ∈ List.zipWith Axis.mk shape strides, 1 ≤ a.size := by
    intro a ha
    exact positive _ (shapes ▸ List.mem_map_of_mem ha)
  have spreads := spreads_joinedAxes sizesW
  rw [joinedAxes_eq sizesW sizesV same, shapes] at spreads
  rw [stridesFor, simplify_filter sizesV array (by omega)]
  cases joined : joinedAxes v.axes with
  | nil =>
    obtain ⟨found, spread⟩ := spreads.before 1
    rw [joined] at spread
    exact ⟨_, congrArg _ spread⟩
  | cons first outer =>
    obtain ⟨found, spread⟩ := spreads.within first outer joined
    exact ⟨_, congrArg _ spread⟩

/-- A view with positions has another shape of as many positions as soon as strides are found. -/
theorem toShape_eq {v : View} (nonempty : 1 ≤ v.elements) {shape : List Int}
    (short : shape.length ≤ maxAxes) (count : elementCount shape = v.elements) :
    v.toShape shape = (stridesFor v.simplify.axes shape).elim (.error (.noStridesFor v shape))
      fun strides => .ok { v with axes := List.zipWith Axis.mk shape strides } := by
  rw [toShape, if_neg (by omega), if_neg (by omega)]
  cases stridesFor v.simplify.axes shape <;> rfl

end ArrayFusion.View
