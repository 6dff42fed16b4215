import ArrayFusion.Proofs.View.Overlap

/-!
# Exactness of the test for disjoint views along one axis

A view with one axis covers the members of one residue class that lie within its extent. Two such
views whose strides differ at most in sign share an address as soon as their extents meet and their
starts are congruent: the higher one of the two lower ends lies in both. These are the two facts
that `View.disjoint` looks at, so the test decides there whether the views share an address. For
all other views it is sound.
-/

namespace ArrayFusion.View

open Shape

/-- A multiple of the stride that the axis reaches belongs to an index inside the axis. -/
theorem index_of_mul_stride_bounds {n k s : Int} (size : 1 ≤ n) (moves : s ≠ 0)
    (low : min ((n - 1) * s) 0 ≤ k * s) (high : k * s ≤ max ((n - 1) * s) 0) :
    0 ≤ k ∧ k < n := by
  rcases Int.lt_or_gt_of_ne moves with falls | rises
  · have last : (n - 1) * s ≤ 0 := Int.mul_nonpos_of_nonneg_of_nonpos (by omega) falls.le
    have first : k * s ≤ 0 * s := by omega
    have final : (n - 1) * s ≤ k * s := by omega
    have := (mul_le_mul_right_of_neg falls).mp first
    have := (mul_le_mul_right_of_neg falls).mp final
    omega
  · have last : 0 ≤ (n - 1) * s := Int.mul_nonneg (by omega) rises.le
    have first : 0 * s ≤ k * s := by omega
    have final : k * s ≤ (n - 1) * s := by omega
    have := Int.le_of_mul_le_mul_right first rises
    have := Int.le_of_mul_le_mul_right final rises
    omega

variable {v w : View} {a b : Axis}

theorem elements_of_axis (axis : v.axes = [a]) : v.elements = a.size := by
  simp [elements, shape, axis, elementCount]

/-- The addresses of a view with one axis: one residue class within the extent. -/
theorem mem_addresses_of_axis (axis : v.axes = [a]) (size : 1 ≤ a.size) (moves : a.stride ≠ 0)
    (x : Int) : x ∈ v.addresses ↔
      (v.extent.1 ≤ x ∧ x ≤ v.extent.2) ∧ a.stride ∣ x - v.start := by
  have sizes : ∀ c ∈ v.axes, 0 ≤ c.size := by simp [axis]; omega
  constructor
  · intro hx
    refine ⟨extent_bounds sizes hx, ?_⟩
    obtain ⟨idx, hidx, rfl⟩ := (mem_addresses sizes).mp hx
    have distance := dvd_offsetAt (d := a.stride) (by simp [axis]) hidx
    rwa [Int.add_comm, Int.add_sub_cancel]
  · rintro ⟨⟨low, high⟩, k, hk⟩
    rw [Int.mul_comm] at hk
    simp only [extent_eq, axis, reachBelow, reachAbove, List.map_cons, List.map_nil,
      List.sum_cons, List.sum_nil] at low high
    have inside := index_of_mul_stride_bounds size moves
      (by omega : _ ≤ k * a.stride) (by omega : k * a.stride ≤ _)
    refine (mem_addresses sizes).mpr ⟨[k], ?_, ?_⟩
    · show InRange (v.axes.map (·.size)) [k]
      rw [axis]
      exact inRange_axes_cons.mpr ⟨inside, .nil⟩
    · simp only [axis, offsetAt]
      omega

/-- If the lower end of a view lies within the extent of another one with congruent start, then it
is an address of both. -/
theorem lowest_mem_addresses (axisV : v.axes = [a]) (axisW : w.axes = [b]) (sizeV : 1 ≤ a.size)
    (sizeW : 1 ≤ b.size) (same : a.stride.natAbs = b.stride.natAbs) (moves : a.stride ≠ 0)
    (congruent : a.stride ∣ v.start - w.start) (low : v.extent.1 ≤ w.extent.1)
    (high : w.extent.1 ≤ v.extent.2) : w.extent.1 ∈ v.addresses ∧ w.extent.1 ∈ w.addresses := by
  have inW : w.extent.1 ∈ w.addresses :=
    (extent_mem_addresses (by simp [axisW]; omega) (by rw [elements_of_axis axisW]; omega)).1
  have distance : a.stride ∣ w.extent.1 - w.start := by
    rw [← Int.natAbs_dvd, same, Int.natAbs_dvd]
    exact ((mem_addresses_of_axis axisW sizeW (by omega) _).mp inW).2
  refine ⟨(mem_addresses_of_axis axisV sizeV moves _).mpr ⟨⟨low, high⟩, ?_⟩, inW⟩
  have total := Int.dvd_sub distance congruent
  rwa [show w.extent.1 - w.start - (v.start - w.start) = w.extent.1 - v.start by omega] at total

theorem grain_of_axis (axis : v.axes = [a]) :
    grain v.axes = if 1 < a.size then a.stride.natAbs else 0 := by
  simp [axis, grain]

/-- Views along one axis that fail the test have congruent starts. -/
theorem dvd_of_not_disjoint (hv : v.isConstant = false) (base : v.base = w.base)
    (indexV : v.usesIndexArrays = false) (indexW : w.usesIndexArrays = false)
    (axisV : v.axes = [a]) (axisW : w.axes = [b]) (sizeV : 1 ≤ a.size) (sizeW : 1 ≤ b.size)
    (same : a.stride.natAbs = b.stride.natAbs) (moves : a.stride ≠ 0)
    (meets : v.disjoint w ≠ true) : a.stride ∣ v.start - w.start := by
  rw [Ne, disjoint_iff hv base indexV indexW, grain_of_axis axisV, grain_of_axis axisW, ← same]
    at meets
  simp only [not_or, not_and_or, Classical.not_not] at meets
  obtain ⟨-, -, apart, apart', interleaved⟩ := meets
  rw [← Int.natAbs_dvd]
  by_cases single : a.size = 1 ∧ b.size = 1
  -- Two single addresses: the extents meet only if they are the same one.
  · simp only [extent_eq, axisV, axisW, reachBelow, reachAbove, List.map_cons, List.map_nil,
      List.sum_cons, List.sum_nil, single.1, single.2, Int.sub_self, Int.zero_mul] at apart apart'
    have starts : v.start = w.start := by omega
    simp [starts]
  · have common : (if 1 < a.size then a.stride.natAbs else 0).gcd
        (if 1 < b.size then a.stride.natAbs else 0) = a.stride.natAbs := by
      split <;> split <;> simp
      omega
    rw [common] at interleaved
    rcases interleaved with small | congruent
    · rw [show a.stride.natAbs = 1 by omega]
      exact one_dvd _
    · exact congruent

/-- Views along one axis whose strides differ at most in sign pass the test exactly if they share
no address. -/
theorem disjoint_iff_of_axis (hv : v.isConstant = false) (base : v.base = w.base)
    (indexV : v.usesIndexArrays = false) (indexW : w.usesIndexArrays = false)
    (axisV : v.axes = [a]) (axisW : w.axes = [b]) (sizeV : 1 ≤ a.size) (sizeW : 1 ≤ b.size)
    (same : a.stride.natAbs = b.stride.natAbs) (moves : a.stride ≠ 0) :
    v.disjoint w = true ↔ ∀ x ∈ v.addresses, x ∉ w.addresses := by
  refine ⟨fun passes x inV => disjoint_sound passes hv base indexV indexW
    (by simp [axisV]; omega) (by simp [axisW]; omega) inV, fun apart => ?_⟩
  by_contra meets
  have congruent := dvd_of_not_disjoint hv base indexV indexW axisV axisW sizeV sizeW same moves
    meets
  rw [disjoint_iff hv base indexV indexW] at meets
  simp only [not_or] at meets
  obtain ⟨-, -, belowV, belowW, -⟩ := meets
  rcases Int.le_total v.extent.1 w.extent.1 with low | low
  · obtain ⟨inV, inW⟩ := lowest_mem_addresses axisV axisW sizeV sizeW same moves congruent low
      (by omega)
    exact apart _ inV inW
  · have congruent' : b.stride ∣ w.start - v.start := by
      rw [← Int.natAbs_dvd, ← same, Int.natAbs_dvd, ← Int.neg_sub, Int.dvd_neg]
      exact congruent
    obtain ⟨inW, inV⟩ := lowest_mem_addresses axisW axisV sizeW sizeV same.symm (by omega)
      congruent' low (by omega)
    exact apart _ inV inW

end ArrayFusion.View
