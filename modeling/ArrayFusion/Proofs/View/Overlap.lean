import ArrayFusion.Proofs.View.Addresses

/-!
# Soundness of the test for disjoint views

The extent of a view that is not empty consists of its lowest and its highest address, and every
common divisor of the distances from the start divides its grain. So both are the same for two views
with the same addresses, and `View.disjoint` can not tell such views apart. Views on one base that
pass the test share no address.
-/

namespace ArrayFusion.View

open Shape

/-! ## Extent -/

/-- How far an axis reaches below and above its first index. -/
def reachBelow (axes : List Axis) : Int := (axes.map fun a => min ((a.size - 1) * a.stride) 0).sum

def reachAbove (axes : List Axis) : Int := (axes.map fun a => max ((a.size - 1) * a.stride) 0).sum

theorem extent_eq (v : View) :
    v.extent = (v.start + reachBelow v.axes, v.start + reachAbove v.axes) := by
  suffices general : ∀ (axes : List Axis) (lo hi : Int),
      axes.foldl (fun x a =>
        let reach := (a.size - 1) * a.stride
        if reach < 0 then (x.1 + reach, x.2) else (x.1, x.2 + reach)) (lo, hi) =
      (lo + reachBelow axes, hi + reachAbove axes) from general v.axes v.start v.start
  intro axes
  induction axes with
  | nil => intro lo hi; simp [reachBelow, reachAbove]
  | cons a axes ih =>
      intro lo hi
      simp only [List.foldl_cons]
      split
      next less =>
        rw [ih]
        simp only [reachBelow, reachAbove, List.map_cons, List.sum_cons, Prod.mk.injEq]
        constructor <;> omega
      next notLess =>
        rw [ih]
        simp only [reachBelow, reachAbove, List.map_cons, List.sum_cons, Prod.mk.injEq]
        constructor <;> omega

/-- An index inside an axis moves no further than the axis reaches. -/
theorem index_mul_stride_bounds {n k s : Int} (lower : 0 ≤ k) (upper : k < n) :
    min ((n - 1) * s) 0 ≤ k * s ∧ k * s ≤ max ((n - 1) * s) 0 := by
  rcases Int.le_total 0 s with hs | hs
  · have low : 0 ≤ k * s := Int.mul_nonneg lower hs
    have high : k * s ≤ (n - 1) * s := Int.mul_le_mul_of_nonneg_right (by omega) hs
    omega
  · have low : (n - 1) * s ≤ k * s := Int.mul_le_mul_of_nonpos_right (by omega) hs
    have high : k * s ≤ 0 := Int.mul_nonpos_of_nonneg_of_nonpos lower hs
    omega

theorem offsetAt_bounds {axes : List Axis} {idx : List Int}
    (h : InRange (axes.map (·.size)) idx) :
    reachBelow axes ≤ offsetAt axes idx ∧ offsetAt axes idx ≤ reachAbove axes := by
  induction axes generalizing idx with
  | nil =>
      cases h
      simp [reachBelow, reachAbove, offsetAt]
  | cons a axes ih =>
      rw [List.map_cons] at h
      cases h with
      | cons head tail =>
          have first := index_mul_stride_bounds (s := a.stride) head.1 head.2
          have rest := ih tail
          simp only [reachBelow, reachAbove, offsetAt, List.map_cons, List.sum_cons] at rest ⊢
          omega

/-- If every axis has an index that is displaced by a given number, then some position is displaced by
all these numbers together. -/
theorem exists_offsetAt_eq_sum {axes : List Axis} {f : Axis → Int}
    (reaches : ∀ a ∈ axes, ∃ k, 0 ≤ k ∧ k < a.size ∧ k * a.stride = f a) :
    ∃ idx, InRange (axes.map (·.size)) idx ∧ offsetAt axes idx = (axes.map f).sum := by
  induction axes with
  | nil => exact ⟨[], .nil, rfl⟩
  | cons a axes ih =>
      obtain ⟨first, rest⟩ := List.forall_mem_cons.mp reaches
      obtain ⟨k, least, most, displaced⟩ := first
      obtain ⟨idx, hidx, hoffset⟩ := ih rest
      refine ⟨k :: idx, inRange_axes_cons.mpr ⟨⟨least, most⟩, hidx⟩, ?_⟩
      rw [offsetAt, displaced, hoffset, List.map_cons, List.sum_cons]

/-- Some position lies as far below the start as the axes reach. -/
theorem exists_offsetAt_eq_reachBelow {axes : List Axis} (sizes : ∀ a ∈ axes, 1 ≤ a.size) :
    ∃ idx, InRange (axes.map (·.size)) idx ∧ offsetAt axes idx = reachBelow axes := by
  apply exists_offsetAt_eq_sum
  intro a ha
  have positive := sizes a ha
  by_cases less : (a.size - 1) * a.stride < 0
  · exact ⟨a.size - 1, by omega, by omega, by omega⟩
  · exact ⟨0, by omega, by omega, by omega⟩

theorem exists_offsetAt_eq_reachAbove {axes : List Axis} (sizes : ∀ a ∈ axes, 1 ≤ a.size) :
    ∃ idx, InRange (axes.map (·.size)) idx ∧ offsetAt axes idx = reachAbove axes := by
  apply exists_offsetAt_eq_sum
  intro a ha
  have positive := sizes a ha
  by_cases less : (a.size - 1) * a.stride < 0
  · exact ⟨0, by omega, by omega, by omega⟩
  · exact ⟨a.size - 1, by omega, by omega, by omega⟩

/-- All addresses lie within the extent. -/
theorem extent_bounds {v : View} (sizes : ∀ a ∈ v.axes, 0 ≤ a.size) {x : Int}
    (h : x ∈ v.addresses) : v.extent.1 ≤ x ∧ x ≤ v.extent.2 := by
  obtain ⟨idx, hidx, rfl⟩ := (mem_addresses sizes).mp h
  have := offsetAt_bounds hidx
  rw [extent_eq]
  constructor <;> simp only <;> omega

/-- The ends of the extent of a view that is not empty are addresses. -/
theorem extent_mem_addresses {v : View} (sizes : ∀ a ∈ v.axes, 0 ≤ a.size)
    (nonempty : v.elements ≠ 0) : v.extent.1 ∈ v.addresses ∧ v.extent.2 ∈ v.addresses := by
  obtain ⟨low, hlow, below⟩ := exists_offsetAt_eq_reachBelow (sizes_pos sizes nonempty)
  obtain ⟨high, hhigh, above⟩ := exists_offsetAt_eq_reachAbove (sizes_pos sizes nonempty)
  rw [extent_eq]
  exact ⟨(mem_addresses sizes).mpr ⟨low, hlow, by rw [below]⟩,
    (mem_addresses sizes).mpr ⟨high, hhigh, by rw [above]⟩⟩

/-- The extent depends only on which addresses occur. -/
theorem extent_congr {v w : View} (hv : ∀ a ∈ v.axes, 0 ≤ a.size)
    (hw : ∀ a ∈ w.axes, 0 ≤ a.size) (same : v.addresses = w.addresses)
    (nonempty : v.elements ≠ 0) : v.extent = w.extent := by
  have nonempty' : w.elements ≠ 0 := by
    rw [Ne, ← addresses_eq_nil_iff hw, ← same, addresses_eq_nil_iff hv]
    exact nonempty
  obtain ⟨lowV, highV⟩ := extent_mem_addresses hv nonempty
  obtain ⟨lowW, highW⟩ := extent_mem_addresses hw nonempty'
  have first := extent_bounds hw (same ▸ lowV)
  have second := extent_bounds hw (same ▸ highV)
  have third := extent_bounds hv (same ▸ lowW)
  have fourth := extent_bounds hv (same ▸ highW)
  exact Prod.ext (by omega) (by omega)

/-! ## Grain -/

/-- The grain is the greatest common divisor of the strides along which the axes move. -/
theorem dvd_grain_iff {d : Nat} {axes : List Axis} :
    d ∣ grain axes ↔ ∀ a ∈ axes, 1 < a.size → (d : Int) ∣ a.stride := by
  suffices general : ∀ (axes : List Axis) (g : Nat),
      d ∣ axes.foldl (fun g a => if 1 < a.size then g.gcd a.stride.natAbs else g) g ↔
        d ∣ g ∧ ∀ a ∈ axes, 1 < a.size → (d : Int) ∣ a.stride by
    rw [grain, general]
    simp
  intro axes
  induction axes with
  | nil => simp
  | cons a axes ih =>
      intro g
      rw [List.foldl_cons, ih]
      by_cases moves : 1 < a.size
      · rw [if_pos moves, Nat.dvd_gcd_iff, ← Int.natCast_dvd]
        simp [moves, and_assoc]
      · rw [if_neg moves]
        simp [moves]

theorem dvd_offsetAt {d : Int} {axes : List Axis}
    (h : ∀ a ∈ axes, 1 < a.size → d ∣ a.stride) {idx : List Int}
    (hidx : InRange (axes.map (·.size)) idx) : d ∣ offsetAt axes idx := by
  induction axes generalizing idx with
  | nil =>
      cases hidx
      exact Int.dvd_zero d
  | cons a axes ih =>
      rw [List.map_cons] at hidx
      cases hidx with
      | @cons _ k _ idx head tail =>
          refine Int.dvd_add ?_ (ih (fun x hx => h x (by simp [hx])) tail)
          by_cases moves : 1 < a.size
          · exact Dvd.dvd.mul_left (h a (by simp) moves) k
          · have first : k = 0 := by omega
            simp [first]

/-- A common divisor of the distances of all positions divides the stride of every axis that
moves: the second index of the axis is a position. -/
theorem dvd_stride_of_dvd_offsetAt {d : Int} {axes : List Axis} (sizes : ∀ a ∈ axes, 1 ≤ a.size)
    (h : ∀ idx, InRange (axes.map (·.size)) idx → d ∣ offsetAt axes idx) :
    ∀ a ∈ axes, 1 < a.size → d ∣ a.stride := by
  induction axes with
  | nil => simp
  | cons b axes ih =>
      have tailSizes : ∀ a ∈ axes, 1 ≤ a.size := fun a ha => sizes a (by simp [ha])
      have positive := sizes b (by simp)
      intro a ha moves
      rcases List.mem_cons.mp ha with rfl | ha
      · have inside : InRange (axes.map (·.size)) (first (axes.map (·.size))) :=
          inRange_first (by simpa using tailSizes)
        have second := h (1 :: first (axes.map (·.size)))
          (inRange_axes_cons.mpr ⟨⟨by omega, moves⟩, inside⟩)
        simpa [offsetAt, offsetAt_first] using second
      · refine ih tailSizes (fun idx hidx => ?_) a ha moves
        simpa [offsetAt] using h (0 :: idx) (inRange_axes_cons.mpr ⟨⟨by omega, by omega⟩, hidx⟩)

/-- A number divides the grain exactly if it divides all distances from the start. -/
theorem dvd_grain_iff_addresses {v : View} (sizes : ∀ a ∈ v.axes, 0 ≤ a.size)
    (nonempty : v.elements ≠ 0) {d : Nat} :
    d ∣ grain v.axes ↔ ∀ x ∈ v.addresses, (d : Int) ∣ x - v.start := by
  rw [dvd_grain_iff]
  constructor
  · intro h x hx
    obtain ⟨idx, hidx, rfl⟩ := (mem_addresses sizes).mp hx
    rw [Int.add_comm, Int.add_sub_cancel]
    exact dvd_offsetAt h hidx
  · intro h
    refine dvd_stride_of_dvd_offsetAt (sizes_pos sizes nonempty) fun idx hidx => ?_
    have distance := h _ ((mem_addresses sizes).mpr ⟨idx, hidx, rfl⟩)
    rwa [Int.add_comm, Int.add_sub_cancel] at distance

theorem start_congr {v w : View} (hv : ∀ a ∈ v.axes, 0 ≤ a.size)
    (hw : ∀ a ∈ w.axes, 0 ≤ a.size) (same : v.addresses = w.addresses)
    (nonempty : v.elements ≠ 0) : v.start = w.start := by
  have nonempty' : w.elements ≠ 0 := by
    rw [Ne, ← addresses_eq_nil_iff hw, ← same, addresses_eq_nil_iff hv]
    exact nonempty
  have first := head?_addresses hv nonempty
  rw [same, head?_addresses hw nonempty'] at first
  exact (Option.some.inj first).symm

theorem grain_congr {v w : View} (hv : ∀ a ∈ v.axes, 0 ≤ a.size)
    (hw : ∀ a ∈ w.axes, 0 ≤ a.size) (same : v.addresses = w.addresses)
    (nonempty : v.elements ≠ 0) : grain v.axes = grain w.axes := by
  have nonempty' : w.elements ≠ 0 := by
    rw [Ne, ← addresses_eq_nil_iff hw, ← same, addresses_eq_nil_iff hv]
    exact nonempty
  have start := start_congr hv hw same nonempty
  have divisors : ∀ d : Nat, d ∣ grain v.axes ↔ d ∣ grain w.axes := by
    intro d
    rw [dvd_grain_iff_addresses hv nonempty, dvd_grain_iff_addresses hw nonempty', same, start]
  exact Nat.dvd_antisymm ((divisors _).mp (Nat.dvd_refl _)) ((divisors _).mpr (Nat.dvd_refl _))

theorem grain_append (axes axes' : List Axis) :
    grain (axes ++ axes') = (grain axes).gcd (grain axes') := by
  refine Nat.dvd_antisymm ?_ ?_
  · refine Nat.dvd_gcd (dvd_grain_iff.mpr fun a ha => ?_) (dvd_grain_iff.mpr fun a ha => ?_)
    · exact dvd_grain_iff.mp (Nat.dvd_refl _) a (by simp [ha])
    · exact dvd_grain_iff.mp (Nat.dvd_refl _) a (by simp [ha])
  · refine dvd_grain_iff.mpr fun a ha => ?_
    rcases List.mem_append.mp ha with ha | ha
    · exact dvd_grain_iff.mp (Nat.gcd_dvd_left _ _) a ha
    · exact dvd_grain_iff.mp (Nat.gcd_dvd_right _ _) a ha

/-! ## The test -/

theorem isConstant_of_base {v : View} {b : BaseId} (h : v.base = some b) :
    v.isConstant = false := by
  rw [isConstant, h]
  rfl

/-- What the test checks of two views on one base that use no index arrays. -/
theorem disjoint_iff {v w : View} (hv : v.isConstant = false) (base : v.base = w.base)
    (indexV : v.usesIndexArrays = false) (indexW : w.usesIndexArrays = false) :
    v.disjoint w = true ↔ v.elements = 0 ∨ w.elements = 0 ∨ v.extent.2 < w.extent.1 ∨
      w.extent.2 < v.extent.1 ∨ (1 < (grain v.axes).gcd (grain w.axes) ∧
        ¬ (((grain v.axes).gcd (grain w.axes) : Nat) : Int) ∣ v.start - w.start) := by
  have hw : w.isConstant = false := by rw [isConstant, ← base]; exact hv
  rw [disjoint, hv, hw, base, indexV, indexW]
  simp only [bne_self_eq_false, Bool.or_self, Bool.false_eq_true, if_false, grain_append]
  by_cases emptyV : v.elements = 0
  · simp [emptyV]
  by_cases emptyW : w.elements = 0
  · simp [emptyW]
  by_cases apart : v.extent.2 < w.extent.1 ∨ w.extent.2 < v.extent.1
  · rcases apart with apart | apart <;> simp [apart]
  · have apart' := not_or.mp apart
    rw [Int.dvd_iff_emod_eq_zero]
    simp [emptyV, emptyW, apart'.1, apart'.2]

/-- Views without index arrays on one base that pass the test share no address. -/
theorem disjoint_sound {v w : View} (h : v.disjoint w = true) (hv : v.isConstant = false)
    (base : v.base = w.base) (indexV : v.usesIndexArrays = false)
    (indexW : w.usesIndexArrays = false) (sizesV : ∀ a ∈ v.axes, 0 ≤ a.size)
    (sizesW : ∀ a ∈ w.axes, 0 ≤ a.size) {x : Int} (inV : x ∈ v.addresses) :
    x ∉ w.addresses := by
  intro inW
  rcases (disjoint_iff hv base indexV indexW).mp h with empty | empty | apart | apart | interleaved
  · rw [(addresses_eq_nil_iff sizesV).mpr empty] at inV
    simp at inV
  · rw [(addresses_eq_nil_iff sizesW).mpr empty] at inW
    simp at inW
  · have first := extent_bounds sizesV inV
    have second := extent_bounds sizesW inW
    omega
  · have first := extent_bounds sizesV inV
    have second := extent_bounds sizesW inW
    omega
  · obtain ⟨-, different⟩ := interleaved
    obtain ⟨idx, hidx, hx⟩ := (mem_addresses sizesV).mp inV
    obtain ⟨idx', hidx', hx'⟩ := (mem_addresses sizesW).mp inW
    have first := dvd_offsetAt (dvd_grain_iff.mp (Nat.gcd_dvd_left _ (grain w.axes))) hidx
    have second := dvd_offsetAt (dvd_grain_iff.mp (Nat.gcd_dvd_right (grain v.axes) _)) hidx'
    apply different
    have distance : v.start - w.start = offsetAt w.axes idx' - offsetAt v.axes idx := by omega
    rw [distance]
    exact Int.dvd_sub second first

/-- The test is symmetric. -/
theorem disjoint_comm (v w : View) : v.disjoint w = w.disjoint v := by
  by_cases constants : v.isConstant = true ∨ w.isConstant = true
  · rcases constants with h | h <;> simp [disjoint, h]
  obtain ⟨hv, hw⟩ := not_or.mp constants
  rw [Bool.not_eq_true] at hv hw
  by_cases base : v.base = w.base
  swap
  · simp [disjoint, base, Ne.symm base]
  by_cases index : v.usesIndexArrays = true ∨ w.usesIndexArrays = true
  · rcases index with h | h <;> simp [disjoint, hv, hw, base, h]
  obtain ⟨indexV, indexW⟩ := not_or.mp index
  rw [Bool.not_eq_true] at indexV indexW
  rw [Bool.eq_iff_iff, disjoint_iff hv base indexV indexW,
    disjoint_iff hw base.symm indexW indexV, Nat.gcd_comm (grain w.axes), ← Int.neg_sub v.start,
    Int.dvd_neg]
  tauto

/-- The test can not tell views on one base apart that have the same addresses. -/
theorem disjoint_congr {v v' : View} (base : v.base = v'.base)
    (indexed : v.usesIndexArrays = v'.usesIndexArrays) (sizes : ∀ a ∈ v.axes, 0 ≤ a.size)
    (sizes' : ∀ a ∈ v'.axes, 0 ≤ a.size) (same : v.addresses = v'.addresses) (w : View) :
    v.disjoint w = v'.disjoint w := by
  have constant : v.isConstant = v'.isConstant := by rw [isConstant, base, isConstant]
  by_cases constants : v.isConstant = true ∨ w.isConstant = true
  · rcases constants with h | h
    · simp [disjoint, h, ← constant]
    · simp [disjoint, h]
  obtain ⟨hv, hw⟩ := not_or.mp constants
  rw [Bool.not_eq_true] at hv hw
  by_cases baseW : v.base = w.base
  swap
  · simp [disjoint, ← base, baseW]
  by_cases pointers : v.usesIndexArrays = true ∨ w.usesIndexArrays = true
  · rcases pointers with h | h
    · simp [disjoint, ← constant, ← base, ← indexed, h]
    · simp [disjoint, ← constant, ← base, h]
  obtain ⟨indexV, indexW⟩ := not_or.mp pointers
  rw [Bool.not_eq_true] at indexV indexW
  rw [Bool.eq_iff_iff, disjoint_iff hv baseW indexV indexW,
    disjoint_iff (constant ▸ hv) (base ▸ baseW) (indexed ▸ indexV) indexW]
  have empty : v.elements = 0 ↔ v'.elements = 0 := by
    rw [← addresses_eq_nil_iff sizes, same, addresses_eq_nil_iff sizes']
  by_cases nonempty : v.elements = 0
  · simp [nonempty, empty.mp nonempty]
  · rw [extent_congr sizes sizes' same nonempty, grain_congr sizes sizes' same nonempty,
      start_congr sizes sizes' same nonempty, empty]

/-! ## Views that the test can not tell apart -/

/-- All that the tests for dependency ask of a view. -/
structure Indistinct (v w : View) : Prop where
  base : w.base = v.base
  index : w.index = v.index
  disjoint : ∀ x, w.disjoint x = v.disjoint x

theorem Indistinct.refl (v : View) : Indistinct v v := ⟨rfl, rfl, fun _ => rfl⟩

/-- The test sees no more of the axes than the addresses that they lead to. -/
theorem Indistinct.of_addresses {v w : View} (rest : w = { v with axes := w.axes })
    (sizes : ∀ a ∈ v.axes, 0 ≤ a.size) (sizes' : ∀ a ∈ w.axes, 0 ≤ a.size)
    (same : w.addresses = v.addresses) : Indistinct v w := by
  have base : w.base = v.base := by rw [rest]
  have index : w.index = v.index := by rw [rest]
  have indexed : w.usesIndexArrays = v.usesIndexArrays := by
    rw [usesIndexArrays, index, usesIndexArrays]
  exact ⟨base, index, disjoint_congr base indexed sizes' sizes same⟩

/-- A constant shares nothing, whatever its axes are. -/
theorem Indistinct.of_isConstant {v w : View} (rest : w = { v with axes := w.axes })
    (constant : v.isConstant = true) : Indistinct v w := by
  have base : w.base = v.base := by rw [rest]
  have constant' : w.isConstant = true := by
    rw [isConstant, base]
    exact constant
  refine ⟨base, by rw [rest], fun x => ?_⟩
  simp only [View.disjoint, constant, constant', Bool.true_or, if_true]

theorem Indistinct.isConstant {v w : View} (h : Indistinct v w) :
    w.isConstant = v.isConstant := by
  rw [View.isConstant, h.base, View.isConstant]

theorem Indistinct.indexBases {v w : View} (h : Indistinct v w) :
    w.indexBases = v.indexBases := by
  rw [View.indexBases, h.index, View.indexBases]

theorem Indistinct.disjoint_eq {v v' w w' : View} (hv : Indistinct v v') (hw : Indistinct w w') :
    v'.disjoint w' = v.disjoint w :=
  calc v'.disjoint w'
    _ = v.disjoint w' := hv.disjoint w'
    _ = w'.disjoint v := disjoint_comm v w'
    _ = w.disjoint v := hw.disjoint v
    _ = v.disjoint w := disjoint_comm w v

end ArrayFusion.View
