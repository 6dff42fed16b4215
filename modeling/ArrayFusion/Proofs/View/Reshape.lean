import ArrayFusion.View.Reshape
import ArrayFusion.Proofs.View.Overlap
import Mathlib.Data.List.Chain

/-!
# Addresses of reshaped views

Joining and spreading axes keeps the offsets in their order, and so does the change of a view to
another shape. Joined axes are determined by their offsets: no axis has size one, and no axis
continues the next inner one. So a view that was given a shape can be given the same shapes as the
view it came from, with the same results.
-/

namespace ArrayFusion.View

open Shape

/-! ## Offsets of composed axes -/

theorem offsets_append (xs ys : List Axis) :
    offsets (xs ++ ys) = (offsets xs).flatMap fun o => (offsets ys).map (o + ·) := by
  induction xs with
  | nil => simp [offsets]
  | cons a xs ih =>
      simp only [List.cons_append, offsets, ih, List.flatMap_assoc, List.map_flatMap,
        List.flatMap_map, List.map_map]
      refine List.flatMap_congr fun i _ => List.flatMap_congr fun o _ => ?_
      simp [Function.comp_def, Int.add_assoc]

theorem offsets_singleton {n : Int} (s : Int) (hn : 1 ≤ n) :
    offsets [⟨n, s⟩] = (List.range n.toNat).map fun (k : Nat) => k * s := by
  have hmax : max n 1 = n := by omega
  simp [offsets, hmax, List.map_eq_flatMap]

/-- An axis of size one adds nothing. -/
theorem offsets_append_one (axes : List Axis) (s : Int) :
    offsets (axes ++ [⟨1, s⟩]) = offsets axes := by
  rw [offsets_append, offsets_singleton s (by omega)]
  simp [List.flatMap_singleton']

theorem range_mul (m n : Nat) :
    List.range (m * n) = (List.range m).flatMap fun i => (List.range n).map (i * n + ·) := by
  induction m with
  | zero => simp
  | succ m ih =>
      rw [Nat.add_mul, Nat.one_mul, List.range_add, ih, List.range_succ, List.flatMap_append]
      simp

/-- Two axes of which the outer one continues the inner one are one axis. -/
theorem offsets_join {m n : Int} (s : Int) (hm : 1 ≤ m) (hn : 1 ≤ n) :
    offsets [⟨m, s * n⟩, ⟨n, s⟩] = offsets [⟨m * n, s⟩] := by
  have product : 1 ≤ m * n := Int.mul_pos (by omega) (by omega)
  rw [← List.singleton_append, offsets_append, offsets_singleton _ hm, offsets_singleton _ hn,
    offsets_singleton _ product, Int.toNat_mul (by omega) (by omega), range_mul]
  simp only [List.flatMap_map, List.map_flatMap, List.map_map]
  refine List.flatMap_congr fun i _ => List.map_congr_left fun j _ => ?_
  simp only [Function.comp_def, Nat.cast_add, Nat.cast_mul, Int.toNat_of_nonneg (by omega : 0 ≤ n)]
  ring

/-- Outer axes with the same offsets can stand for one another. -/
theorem offsets_append_congr {xs ys : List Axis} (zs : List Axis) (h : offsets xs = offsets ys) :
    offsets (xs ++ zs) = offsets (ys ++ zs) := by
  rw [offsets_append, offsets_append, h]

/-- Inner axes with the same offsets can stand for one another. -/
theorem offsets_append_congr_right (xs : List Axis) {ys zs : List Axis}
    (h : offsets ys = offsets zs) : offsets (xs ++ ys) = offsets (xs ++ zs) := by
  rw [offsets_append, offsets_append, h]

/-! ## Joined axes -/

/-- Axes, innermost first, that can not be joined further. -/
structure Joined (axes : List Axis) : Prop where
  sizes : ∀ a ∈ axes, 2 ≤ a.size
  apart : axes.IsChain fun inner outer => outer.stride ≠ inner.stride * inner.size

theorem Joined.tail {a : Axis} {axes : List Axis} (h : Joined (a :: axes)) : Joined axes :=
  ⟨fun x hx => h.sizes x (by simp [hx]), h.apart.tail⟩

theorem joinAxis_one {a : Axis} (outer : List Axis) (one : a.size = 1) :
    joinAxis outer a = outer := by
  unfold joinAxis
  rw [if_pos one]

theorem joinAxis_cons {a : Axis} (last : Axis) (rest : List Axis) (notOne : a.size ≠ 1) :
    joinAxis (last :: rest) a = if last.stride = a.stride * a.size then
      ⟨last.size * a.size, a.stride⟩ :: rest else a :: last :: rest := by
  unfold joinAxis
  rw [if_neg notOne]

theorem joined_joinAxis {outer : List Axis} {a : Axis} (h : Joined outer) (size : 1 ≤ a.size) :
    Joined (joinAxis outer a) := by
  by_cases one : a.size = 1
  · rwa [joinAxis_one outer one]
  cases outer with
  | nil =>
      unfold joinAxis
      rw [if_neg one]
      refine ⟨fun x hx => ?_, by simp⟩
      rw [List.mem_singleton.mp hx]
      omega
  | cons last rest =>
      have hlast := h.sizes last (by simp)
      rw [joinAxis_cons last rest one]
      split
      next continues =>
        constructor
        · intro x hx
          rcases List.mem_cons.mp hx with rfl | hx
          · have := Int.mul_le_mul hlast size (by omega) (by omega)
            simp only
            omega
          · exact h.sizes x (by simp [hx])
        · cases rest with
          | nil => simp
          | cons next rest =>
              obtain ⟨first, others⟩ := List.isChain_cons_cons.mp h.apart
              refine List.isChain_cons_cons.mpr ⟨fun same => first ?_, others⟩
              rw [same, continues]
              ring
      next breaks =>
        constructor
        · intro x hx
          rcases List.mem_cons.mp hx with rfl | hx
          · omega
          · exact h.sizes x hx
        · exact List.isChain_cons_cons.mpr ⟨breaks, h.apart⟩

theorem offsets_joinAxis {outer : List Axis} {a : Axis} (h : Joined outer) (size : 1 ≤ a.size) :
    offsets (joinAxis outer a).reverse = offsets (outer.reverse ++ [a]) := by
  obtain ⟨n, s⟩ := a
  by_cases one : n = 1
  · subst one
    rw [joinAxis_one outer rfl, offsets_append_one]
  cases outer with
  | nil =>
      unfold joinAxis
      rw [if_neg one]
      rfl
  | cons last rest =>
      obtain ⟨m, t⟩ := last
      have hlast : 2 ≤ m := h.sizes ⟨m, t⟩ (by simp)
      rw [joinAxis_cons _ rest one]
      split
      next continues =>
        simp only at continues
        subst continues
        rw [List.reverse_cons, List.reverse_cons, List.append_assoc]
        have joined := offsets_join s (Int.le_trans (by omega) hlast) size
        exact (offsets_append_congr_right _ joined).symm
      next breaks => simp

/-- Joining keeps the offsets, and ends with axes that can not be joined further. -/
theorem joined_joinedAxes {axes : List Axis} (sizes : ∀ a ∈ axes, 1 ≤ a.size) :
    Joined (joinedAxes axes) ∧ offsets (joinedAxes axes).reverse = offsets axes := by
  suffices general : ∀ outer, Joined outer → Joined (axes.foldl joinAxis outer) ∧
      offsets (axes.foldl joinAxis outer).reverse = offsets (outer.reverse ++ axes) from
    general [] ⟨by simp, by simp⟩
  induction axes with
  | nil => intro outer h; exact ⟨h, by simp⟩
  | cons a axes ih =>
      intro outer h
      have size := sizes a (by simp)
      obtain ⟨normal, same⟩ := ih (fun x hx => sizes x (by simp [hx])) _ (joined_joinAxis h size)
      refine ⟨normal, ?_⟩
      rw [List.foldl_cons, same, offsets_append_congr axes (offsets_joinAxis h size),
        List.append_assoc, List.singleton_append]

/-! ## Joined axes are determined by their offsets -/

theorem head?_offsets (axes : List Axis) : (offsets axes)[0]? = some 0 := by
  induction axes with
  | nil => rfl
  | cons a axes ih =>
      obtain ⟨n, hn⟩ : ∃ n, (max a.size 1).toNat = n + 1 := ⟨(max a.size 1).toNat - 1, by omega⟩
      have nonempty : 0 < (offsets axes).length := by
        rw [List.getElem?_eq_some_iff] at ih
        exact ih.1
      rw [offsets, hn, List.range_succ_eq_map, List.flatMap_cons,
        List.getElem?_append_left (by simpa using nonempty)]
      simp [ih]

/-- Offsets of joined axes, block by block. -/
theorem getElem?_offsets_reverse {a : Axis} (outer : List Axis) (size : 1 ≤ a.size) (u : Nat)
    {j : Nat} (hj : (j : Int) < a.size) :
    (offsets (a :: outer).reverse)[u * a.size.toNat + j]? =
      (offsets outer.reverse)[u]?.map (· + j * a.stride) := by
  obtain ⟨n, s⟩ := a
  simp only at size hj ⊢
  rw [List.reverse_cons, offsets_append, offsets_singleton s size,
    getElem?_flatMap (fun o => by simp) _ _ (by omega)]
  cases (offsets outer.reverse)[u]? with
  | none => rfl
  | some o => simp [List.getElem?_range (by omega : j < n.toNat)]

theorem getElem?_offsets_first {a : Axis} (outer : List Axis) (size : 1 ≤ a.size) {j : Nat}
    (hj : (j : Int) < a.size) : (offsets (a :: outer).reverse)[j]? = some (j * a.stride) := by
  have first := getElem?_offsets_reverse outer size 0 hj
  rw [head?_offsets] at first
  simpa using first

/-- Behind the offsets along the innermost axis, the sequence breaks off or leaves the axis. -/
theorem getElem?_offsets_next {a : Axis} {outer : List Axis} (h : Joined (a :: outer)) :
    (offsets (a :: outer).reverse)[a.size.toNat]? ≠ some (a.size * a.stride) := by
  have size := h.sizes a (by simp)
  have block := getElem?_offsets_reverse (a := a) outer (by omega) 1 (j := 0) (by omega)
  rw [Nat.one_mul, Nat.add_zero] at block
  rw [block]
  cases outer with
  | nil => simp [offsets]
  | cons b outer =>
      have sizeB := h.sizes b (by simp)
      obtain ⟨breaks, -⟩ := List.isChain_cons_cons.mp h.apart
      rw [getElem?_offsets_first outer (by omega) (by omega : ((1 : Nat) : Int) < b.size)]
      intro same
      apply breaks
      simp at same
      rw [same]
      ring

theorem size_le_of_offsets_eq {a b : Axis} {xs ys : List Axis} (ha : Joined (a :: xs))
    (stride : a.stride = b.stride)
    (h : offsets (a :: xs).reverse = offsets (b :: ys).reverse) : b.size ≤ a.size := by
  by_contra less
  have sizeA := ha.sizes a (by simp)
  have inside := getElem?_offsets_first (a := b) (j := a.size.toNat) ys (by omega) (by omega)
  apply getElem?_offsets_next ha
  rw [h, inside, stride, Int.toNat_of_nonneg (by omega)]

theorem Joined.eq_of_offsets_eq {xs ys : List Axis} (hx : Joined xs) (hy : Joined ys)
    (h : offsets xs.reverse = offsets ys.reverse) : xs = ys := by
  -- The second offset of axes that are not empty is the stride of the innermost one.
  have second : ∀ {a : Axis} {axes : List Axis}, Joined (a :: axes) →
      (offsets (a :: axes).reverse)[1]? = some a.stride := by
    intro a axes joined
    have size := joined.sizes a (by simp)
    have := getElem?_offsets_first (a := a) (j := 1) axes (by omega) (by omega)
    simpa using this
  induction xs generalizing ys with
  | nil =>
      cases ys with
      | nil => rfl
      | cons b ys =>
          have := second hy
          rw [← h] at this
          simp [offsets] at this
  | cons a xs ih =>
      cases ys with
      | nil =>
          have := second hx
          rw [h] at this
          simp [offsets] at this
      | cons b ys =>
          have stride : a.stride = b.stride := by
            have := second hx
            rw [h, second hy] at this
            exact (Option.some.inj this).symm
          have size : a.size = b.size := Int.le_antisymm
            (size_le_of_offsets_eq hy stride.symm h.symm)
            (size_le_of_offsets_eq hx stride h)
          have positive := hx.sizes a (by simp)
          have outer : offsets xs.reverse = offsets ys.reverse := by
            refine List.ext_getElem? fun u => ?_
            have left := getElem?_offsets_reverse (a := a) (j := 0) xs (by omega) u (by omega)
            have right := getElem?_offsets_reverse (a := b) (j := 0) ys (by omega) u (by omega)
            rw [h, size, right] at left
            simpa using left.symm
          have head : a = b := by
            obtain ⟨n, s⟩ := a
            obtain ⟨m, t⟩ := b
            simp only at stride size
            rw [stride, size]
          rw [head, ih hx.tail hy.tail outer]

/-! ## Spread axes -/

/-- Splits the innermost of some axes in two. -/
theorem offsets_split_last {q n s : Int} (outer : List Axis) (hq : 1 ≤ q) (hn : 1 ≤ n) :
    offsets (outer ++ [⟨q, s * n⟩] ++ [⟨n, s⟩]) = offsets (outer ++ [⟨q * n, s⟩]) := by
  rw [List.append_assoc, List.singleton_append]
  exact offsets_append_congr_right outer (offsets_join s hq hn)

theorem one_le_tdiv {n m : Int} (hn : 1 ≤ n) (hm : 1 ≤ m) (exact : n.tmod m = 0) :
    1 ≤ n.tdiv m ∧ n.tdiv m * m = n := by
  have product : n.tdiv m * m = n := Int.tdiv_mul_cancel (Int.dvd_of_tmod_eq_zero exact)
  refine ⟨?_, product⟩
  by_contra less
  have := Int.mul_nonpos_of_nonpos_of_nonneg (a := n.tdiv m) (b := m) (by omega) (by omega)
  omega

/-- Spread axes have the offsets of the axes that they are spread from. -/
theorem offsets_of_spread {rest stride : Int} {joined : List Axis} {sizes strides : List Int}
    (h : spread rest stride joined sizes = some strides) (hrest : 1 ≤ rest)
    (hjoined : ∀ a ∈ joined, 1 ≤ a.size) (hsizes : ∀ n ∈ sizes, 1 ≤ n) :
    strides.length = sizes.length ∧ offsets (List.zipWith Axis.mk sizes strides).reverse =
      offsets (joined.reverse ++ [⟨rest, stride⟩]) := by
  induction sizes generalizing rest stride joined strides with
  | nil =>
      simp only [spread, List.isEmpty_iff, Option.ite_none_right_eq_some, Option.some.injEq] at h
      obtain ⟨⟨rfl, rfl⟩, rfl⟩ := h
      exact ⟨rfl, (offsets_append_one [] stride).symm⟩
  | cons size sizes ih =>
      have hsize : 1 ≤ size := hsizes size (by simp)
      have htail : ∀ n ∈ sizes, 1 ≤ n := fun n hn => hsizes n (by simp [hn])
      -- Each of the cases puts one axis inside those that the rest of the sizes gives.
      have inner : ∀ {r t s : Int} {axes : List Axis},
          (spread r t axes sizes).map (s :: ·) = some strides → 1 ≤ r → (∀ a ∈ axes, 1 ≤ a.size) →
          strides.length = sizes.length + 1 ∧
            offsets (List.zipWith Axis.mk (size :: sizes) strides).reverse =
              offsets (axes.reverse ++ [⟨r, t⟩] ++ [⟨size, s⟩]) := by
        intro r t s axes found hr haxes
        obtain ⟨others, hothers, rfl⟩ := Option.map_eq_some_iff.mp found
        obtain ⟨length, same⟩ := ih hothers hr haxes htail
        refine ⟨by simp [length], ?_⟩
        rw [List.zipWith_cons_cons, List.reverse_cons]
        exact offsets_append_congr _ same
      unfold spread at h
      split at h
      next one =>
        subst one
        obtain ⟨length, same⟩ := inner h hrest hjoined
        exact ⟨length, by rw [same, offsets_append_one]⟩
      next notOne =>
        split at h
        next rest' joined' next joined'' =>
          split at h
          next divides =>
            have hnext : 1 ≤ next.size := hjoined next (by simp)
            obtain ⟨quotient, product⟩ := one_le_tdiv hnext hsize divides
            obtain ⟨length, same⟩ := inner h quotient fun a ha => hjoined a (by simp [ha])
            refine ⟨length, ?_⟩
            rw [same, offsets_split_last _ quotient hsize, product, offsets_append_one,
              List.reverse_cons]
          · contradiction
        next =>
          split at h
          next divides =>
            obtain ⟨quotient, product⟩ := one_le_tdiv hrest hsize divides
            obtain ⟨length, same⟩ := inner h quotient hjoined
            refine ⟨length, ?_⟩
            rw [same, offsets_split_last _ quotient hsize, product]
          · contradiction

/-- The axes that `toShape` spreads are the joined axes of the view. -/
theorem simplify_filter {v : View} (sizes : ∀ a ∈ v.axes, 1 ≤ a.size)
    (array : v.isConstant = false) (nonempty : v.elements ≠ 0) :
    (v.simplify.axes.filter (·.size ≠ 1)).reverse = joinedAxes v.axes := by
  have normal := (joined_joinedAxes sizes).1
  rw [simplify, if_neg (by simp [array, nonempty])]
  by_cases empty : joinedAxes v.axes = []
  · simp [empty]
  · have all : ∀ a ∈ joinedAxes v.axes, a.size ≠ 1 := by
      intro a ha
      have := normal.sizes a ha
      omega
    simp only [List.isEmpty_iff, empty, if_false]
    rw [← List.filter_reverse, List.reverse_reverse, List.filter_eq_self.mpr (by simpa using all)]

/-- Strides for a shape depend on the joined axes alone. -/
theorem stridesFor_congr {v w : View} (sizesV : ∀ a ∈ v.axes, 1 ≤ a.size)
    (sizesW : ∀ a ∈ w.axes, 1 ≤ a.size) (arrayV : v.isConstant = false)
    (arrayW : w.isConstant = false) (nonemptyV : v.elements ≠ 0) (nonemptyW : w.elements ≠ 0)
    (same : offsets v.axes = offsets w.axes) (shape : List Int) :
    stridesFor v.simplify.axes shape = stridesFor w.simplify.axes shape := by
  obtain ⟨joinedV, offsetsV⟩ := joined_joinedAxes sizesV
  obtain ⟨joinedW, offsetsW⟩ := joined_joinedAxes sizesW
  have equal : joinedAxes v.axes = joinedAxes w.axes :=
    joinedV.eq_of_offsets_eq joinedW (by rw [offsetsV, offsetsW, same])
  rw [stridesFor, stridesFor, simplify_filter sizesV arrayV nonemptyV,
    simplify_filter sizesW arrayW nonemptyW, equal]

theorem offsets_of_stridesFor {v : View} {shape strides : List Int}
    (h : stridesFor v.simplify.axes shape = some strides) (sizes : ∀ a ∈ v.axes, 1 ≤ a.size)
    (array : v.isConstant = false) (nonempty : v.elements ≠ 0) (hshape : ∀ n ∈ shape, 1 ≤ n) :
    strides.length = shape.length ∧
      offsets (List.zipWith Axis.mk shape strides) = offsets v.axes := by
  obtain ⟨normal, same⟩ := joined_joinedAxes sizes
  rw [stridesFor, simplify_filter sizes array nonempty] at h
  have hreverse : ∀ n ∈ shape.reverse, 1 ≤ n := by simpa using hshape
  have zipped : ∀ {ss : List Int}, ss.length = shape.reverse.length →
      (List.zipWith Axis.mk shape.reverse ss).reverse = List.zipWith Axis.mk shape ss.reverse := by
    intro ss length
    rw [List.reverse_zipWith length.symm, List.reverse_reverse]
  obtain ⟨found, hfound, rfl⟩ := Option.map_eq_some_iff.mp h
  cases axes : joinedAxes v.axes with
  | nil =>
      rw [axes] at hfound same
      obtain ⟨length, spread⟩ := offsets_of_spread hfound (by omega) (by simp) hreverse
      refine ⟨by simpa using length, ?_⟩
      rw [← zipped length, spread, ← same, offsets_append_one]
  | cons first joined =>
      rw [axes] at hfound same normal
      have sizeFirst := normal.sizes first (by simp)
      have sizesJoined : ∀ a ∈ joined, 1 ≤ a.size := by
        intro a ha
        have := normal.sizes a (by simp [ha])
        omega
      obtain ⟨length, spread⟩ := offsets_of_spread hfound (by omega) sizesJoined hreverse
      refine ⟨by simpa using length, ?_⟩
      rw [← zipped length, spread, ← same, List.reverse_cons]

/-! ## Views with another shape -/

theorem map_size_zipWith {shape strides : List Int} (h : strides.length = shape.length) :
    (List.zipWith Axis.mk shape strides).map (·.size) = shape := by
  induction shape generalizing strides with
  | nil => rfl
  | cons n shape ih =>
      cases strides with
      | nil => simp at h
      | cons s strides => simpa using ih (by simpa using h)

/-- What giving a view another shape keeps. -/
structure Reshaped (v w : View) : Prop where
  before : v.WellFormed
  after : w.WellFormed
  rest : w = { v with axes := w.axes }
  elements : w.elements = v.elements
  addresses : w.addresses = v.addresses
  offsets : v.elements ≠ 0 → offsets w.axes = offsets v.axes

theorem Reshaped.refl {v : View} (wf : v.WellFormed) : Reshaped v v :=
  ⟨wf, wf, rfl, rfl, rfl, fun _ => rfl⟩

theorem Reshaped.base {v w : View} (h : Reshaped v w) : w.base = v.base := by rw [h.rest]

theorem Reshaped.index {v w : View} (h : Reshaped v w) : w.index = v.index := by rw [h.rest]

theorem Reshaped.isConstant {v w : View} (h : Reshaped v w) : w.isConstant = v.isConstant := by
  rw [View.isConstant, h.base, View.isConstant]

theorem Reshaped.indistinct {v w : View} (h : Reshaped v w) : Indistinct v w :=
  .of_addresses h.rest h.before.sizes h.after.sizes h.addresses

/-- Another shape is given by other axes. -/
theorem rest_of_toShape {v w : View} {shape : List Int} (h : v.toShape shape = .ok w) :
    w = { v with axes := w.axes } := by
  rw [toShape] at h
  split at h
  · contradiction
  split at h
  · cases h
    rfl
  split at h
  · cases h
    rfl
  · contradiction

/-- The new axes run over the shape that was asked for. -/
theorem shape_of_toShape {v w : View} {shape : List Int} (h : v.toShape shape = .ok w)
    (sizes : ∀ a ∈ v.axes, 0 ≤ a.size) (array : v.isConstant = false)
    (hshape : ∀ n ∈ shape, 0 ≤ n) :
    w.shape = shape ∧ shape.length ≤ maxAxes ∧ w.elements = v.elements ∧
      w.addresses = v.addresses ∧ (v.elements ≠ 0 → offsets w.axes = offsets v.axes) := by
  rw [toShape] at h
  split at h
  · contradiction
  next fits =>
    obtain ⟨count, length⟩ := not_or.mp fits
    have count : elementCount shape = v.elements := not_not.mp count
    -- In both remaining cases the new axes have the sizes of the shape.
    have elements : ∀ axes : List Axis, axes.map (·.size) = shape →
        ({ v with axes } : View).elements = v.elements := by
      intro axes sizes
      rw [View.elements, View.shape, sizes, count]
    split at h
    next empty =>
      cases h
      have none : v.addresses = [] := (addresses_eq_nil_iff sizes).mpr empty
      have sizes' : ∀ a ∈ rowMajor shape, 0 ≤ a.size := fun a ha =>
        hshape _ (map_size_rowMajor shape ▸ List.mem_map_of_mem ha)
      have elements' := elements _ (map_size_rowMajor shape)
      refine ⟨map_size_rowMajor shape, not_lt.mp length, elements', ?_,
        fun nonempty => absurd empty nonempty⟩
      rw [none]
      exact (addresses_eq_nil_iff sizes').mpr (elements'.trans empty)
    next nonempty =>
      have positive : ∀ n ∈ shape, 1 ≤ n :=
        one_le_of_elementCount_ne_zero hshape (count ▸ nonempty)
      split at h
      next strides found =>
        cases h
        obtain ⟨same, offsets'⟩ := offsets_of_stridesFor found (sizes_pos sizes nonempty) array
          nonempty positive
        have sized := map_size_zipWith same
        have elements' := elements _ sized
        refine ⟨sized, not_lt.mp length, elements', ?_, fun _ => offsets'⟩
        rw [View.addresses, View.addresses, elements', offsets']
      next => contradiction

theorem reshaped_of_toShape {v w : View} {shape : List Int} (h : v.toShape shape = .ok w)
    (wf : v.WellFormed) (array : v.isConstant = false) (hshape : ∀ n ∈ shape, 0 ≤ n) :
    Reshaped v w ∧ w.shape = shape := by
  have rest := rest_of_toShape h
  obtain ⟨sized, length, elements, addresses, offsets⟩ := shape_of_toShape h wf.sizes array hshape
  have arrayW : w.isConstant = false := by
    rw [rest]
    exact array
  have wf' : w.WellFormed := by
    refine ⟨fun a ha => hshape _ (sized ▸ List.mem_map_of_mem ha), ?_, fun constant => ?_⟩
    · rw [← w.length_shape, sized]
      exact length
    · exact absurd (arrayW.symm.trans constant) Bool.false_ne_true
  exact ⟨⟨wf, wf', rest, elements, addresses, offsets⟩, sized⟩

/-- A view that was given a shape takes the same shapes as the view it came from. -/
theorem toShape_of_reshaped {v w x : View} {shape : List Int} (same : Reshaped v w)
    (array : v.isConstant = false) (h : w.toShape shape = .ok x) : v.toShape shape = .ok x := by
  have arrayW : w.isConstant = false := same.isConstant.trans array
  have with_axes : ∀ axes : List Axis, ({ w with axes } : View) = { v with axes } := by
    intro axes
    rw [same.rest]
  rw [toShape] at h ⊢
  rw [same.elements] at h
  split at h
  · contradiction
  next fits =>
    rw [if_neg fits]
    split at h
    next empty =>
      rw [if_pos empty]
      exact h.symm ▸ congrArg Except.ok (with_axes _).symm
    next nonempty =>
      have nonemptyW : w.elements ≠ 0 := same.elements ▸ nonempty
      rw [if_neg nonempty, stridesFor_congr (sizes_pos same.before.sizes nonempty)
        (sizes_pos same.after.sizes nonemptyW) array arrayW nonempty nonemptyW
        (same.offsets nonempty).symm shape]
      split at h
      next strides found =>
        exact h.symm ▸ congrArg Except.ok (with_axes _).symm
      next => contradiction

end ArrayFusion.View
