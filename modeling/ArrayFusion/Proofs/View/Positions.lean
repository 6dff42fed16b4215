import ArrayFusion.View.Basic
import Mathlib.Data.List.Forall2
import Mathlib.Tactic.Linarith
import Mathlib.Tactic.Ring

/-!
# Positions of a shape

A position gives one index for every axis of a shape. `positions` lists the positions of a shape in
row-major order, and `number` is the place of a position in this list. A shape that is put together
from an outer and an inner part has the positions of the outer part as blocks: the number of a
position is the number of its block times the size of a block, plus the number inside the block.
-/

namespace ArrayFusion

theorem elementCount_cons (n : Int) (shape : List Int) :
    elementCount (n :: shape) = n * elementCount shape := rfl

theorem elementCount_append (outer inner : List Int) :
    elementCount (outer ++ inner) = elementCount outer * elementCount inner := by
  induction outer with
  | nil => simp [elementCount]
  | cons n outer ih => rw [List.cons_append, elementCount_cons, elementCount_cons, ih]; ring

theorem elementCount_nonneg {shape : List Int} (sizes : ∀ n ∈ shape, 0 ≤ n) :
    0 ≤ elementCount shape := by
  induction shape with
  | nil => simp [elementCount]
  | cons n shape ih =>
      rw [elementCount_cons]
      exact Int.mul_nonneg (sizes n (by simp)) (ih fun m hm => sizes m (by simp [hm]))

/-- A shape without negative sizes has positions exactly if no size is zero. -/
theorem one_le_of_elementCount_ne_zero {shape : List Int} (sizes : ∀ n ∈ shape, 0 ≤ n)
    (count : elementCount shape ≠ 0) : ∀ n ∈ shape, 1 ≤ n := by
  induction shape with
  | nil => simp
  | cons m shape ih =>
      rw [elementCount_cons] at count
      have hm := sizes m (by simp)
      have head : m ≠ 0 := fun h => count (by rw [h, Int.zero_mul])
      have tail : elementCount shape ≠ 0 := fun h => count (by rw [h, Int.mul_zero])
      intro n hn
      rcases List.mem_cons.mp hn with rfl | hn
      · omega
      · exact ih (fun k hk => sizes k (by simp [hk])) tail n hn

namespace Shape

/-- Every axis has an index, and no index leaves its axis. -/
def InRange (shape idx : List Int) : Prop := List.Forall₂ (fun n k => 0 ≤ k ∧ k < n) shape idx

/-- Positions of a shape in row-major order. -/
def positions : List Int → List (List Int)
  | [] => [[]]
  | n :: shape =>
    (List.range n.toNat).flatMap fun (k : Nat) => (positions shape).map ((k : Int) :: ·)

/-- Place of a position in row-major order. -/
def number : List Int → List Int → Int
  | _ :: shape, k :: idx => k * elementCount shape + number shape idx
  | _, _ => 0

theorem InRange.length_eq {shape idx : List Int} (h : InRange shape idx) :
    idx.length = shape.length := (List.Forall₂.length_eq h).symm

theorem InRange.append {outer inner u w : List Int} (hu : InRange outer u) (hw : InRange inner w) :
    InRange (outer ++ inner) (u ++ w) := List.rel_append hu hw

theorem InRange.count_pos {shape idx : List Int} (h : InRange shape idx) :
    0 < elementCount shape := by
  induction h with
  | nil => simp [elementCount]
  | cons head _ ih =>
      rw [elementCount_cons]
      exact Int.mul_pos (by omega) ih

theorem mem_positions {shape idx : List Int} : idx ∈ positions shape ↔ InRange shape idx := by
  induction shape generalizing idx with
  | nil => simp [positions, InRange]
  | cons n shape ih =>
      simp only [positions, List.mem_flatMap, List.mem_range, List.mem_map]
      constructor
      · rintro ⟨k, hk, rest, hrest, rfl⟩
        exact .cons ⟨by omega, by omega⟩ (ih.mp hrest)
      · intro h
        cases h with
        | @cons _ k _ rest head tail =>
            refine ⟨k.toNat, by omega, rest, ih.mpr tail, ?_⟩
            rw [Int.toNat_of_nonneg head.1]

theorem length_positions {shape : List Int} (sizes : ∀ n ∈ shape, 0 ≤ n) :
    (positions shape).length = (elementCount shape).toNat := by
  induction shape with
  | nil => simp [positions, elementCount]
  | cons n shape ih =>
      have tail : ∀ m ∈ shape, 0 ≤ m := fun m hm => sizes m (by simp [hm])
      rw [elementCount_cons, Int.toNat_mul (sizes n (by simp)) (elementCount_nonneg tail),
        ← ih tail]
      simp [positions, List.length_flatMap]

theorem number_append {outer u : List Int} (inner w : List Int) (h : u.length = outer.length) :
    number (outer ++ inner) (u ++ w) = number outer u * elementCount inner + number inner w := by
  induction outer generalizing u with
  | nil => simp [List.length_eq_zero_iff.mp h, number]
  | cons n outer ih =>
      cases u with
      | nil => simp at h
      | cons k u =>
          simp only [List.cons_append, number, ih (by simpa using h), elementCount_append]
          ring

theorem number_nonneg {shape idx : List Int} (h : InRange shape idx) : 0 ≤ number shape idx := by
  induction h with
  | nil => simp [number]
  | cons head tail ih =>
      have hcount := InRange.count_pos tail
      have := Int.mul_nonneg head.1 (Int.le_of_lt hcount)
      simp only [number]
      omega

theorem number_lt {shape idx : List Int} (h : InRange shape idx) :
    number shape idx < elementCount shape := by
  induction h with
  | nil => simp [number, elementCount]
  | @cons n k shape idx head tail ih =>
      have hcount := InRange.count_pos tail
      have hblock : (k + 1) * elementCount shape ≤ n * elementCount shape :=
        Int.mul_le_mul_of_nonneg_right (by omega) (Int.le_of_lt hcount)
      rw [Int.add_mul, Int.one_mul] at hblock
      simp only [number, elementCount_cons]
      omega

/-- Element `i` of block `u` of a list of blocks of one length. -/
theorem getElem?_flatMap {α β : Type} {f : α → List β} {b : Nat} (blocks : ∀ x, (f x).length = b)
    (xs : List α) (u : Nat) {i : Nat} (hi : i < b) :
    (xs.flatMap f)[u * b + i]? = xs[u]?.bind fun x => (f x)[i]? := by
  induction xs generalizing u with
  | nil => simp
  | cons x xs ih =>
      rw [List.flatMap_cons]
      cases u with
      | zero => rw [List.getElem?_append_left (by rw [blocks]; omega)]; simp
      | succ u =>
          have place : (u + 1) * b + i - (f x).length = u * b + i := by
            rw [blocks, Nat.add_mul]
            omega
          rw [List.getElem?_append_right (by rw [blocks, Nat.add_mul]; omega), place, ih]
          simp

theorem InRange.sizes_nonneg {shape idx : List Int} (h : InRange shape idx) :
    ∀ n ∈ shape, 0 ≤ n := by
  induction h with
  | nil => simp
  | cons head _ ih =>
      intro n hn
      rcases List.mem_cons.mp hn with rfl | hn
      · omega
      · exact ih n hn

/-- The first position of a shape. -/
def first (shape : List Int) : List Int := List.replicate shape.length 0

theorem inRange_first {shape : List Int} (sizes : ∀ n ∈ shape, 1 ≤ n) :
    InRange shape (first shape) := by
  induction shape with
  | nil => exact .nil
  | cons n shape ih =>
    have positive : 1 ≤ n := sizes n List.mem_cons_self
    exact .cons ⟨Int.le_refl 0, by omega⟩ (ih fun m hm => sizes m (List.mem_cons_of_mem n hm))

theorem number_first (shape : List Int) : number shape (first shape) = 0 := by
  induction shape with
  | nil => rfl
  | cons n shape ih =>
    change 0 * elementCount shape + number shape (first shape) = 0
    rw [ih, Int.zero_mul, Int.zero_add]

theorem getElem?_positions {shape idx : List Int} (h : InRange shape idx) :
    (positions shape)[(number shape idx).toNat]? = some idx := by
  induction h with
  | nil => rfl
  | @cons n k shape idx head tail ih =>
      have tail : InRange shape idx := tail
      have hcount := tail.count_pos
      have hlt := number_lt tail
      have hnonneg := number_nonneg tail
      have block : ∀ j : Nat, ((positions shape).map ((j : Int) :: ·)).length =
          (elementCount shape).toNat := by
        intro j
        rw [List.length_map, length_positions tail.sizes_nonneg]
      have place : (number (n :: shape) (k :: idx)).toNat =
          k.toNat * (elementCount shape).toNat + (number shape idx).toNat := by
        rw [number, Int.toNat_add (Int.mul_nonneg head.1 (Int.le_of_lt hcount)) hnonneg,
          Int.toNat_mul head.1 (Int.le_of_lt hcount)]
      rw [positions, place, getElem?_flatMap block _ _ (by omega), List.getElem?_range (by omega),
        Option.bind_some, List.getElem?_map, ih, Option.map_some, Int.toNat_of_nonneg head.1]

theorem number_inj {shape i j : List Int} (hi : InRange shape i) (hj : InRange shape j)
    (h : number shape i = number shape j) : i = j := by
  have first := getElem?_positions hi
  rw [h, getElem?_positions hj] at first
  exact (Option.some.inj first).symm

/-- No position is listed twice. -/
theorem nodup_positions (shape : List Int) : (positions shape).Nodup := by
  induction shape with
  | nil => simp [positions]
  | cons n shape ih =>
      refine List.pairwise_flatMap.mpr ⟨fun k _ => ?_, ?_⟩
      · exact List.pairwise_map.mpr (ih.imp fun apart same => apart (List.tail_eq_of_cons_eq same))
      · refine List.pairwise_lt_range.imp fun {k k'} less => ?_
        rintro p hp _ hp' rfl
        obtain ⟨q, -, rfl⟩ := List.mem_map.mp hp
        obtain ⟨q', -, same⟩ := List.mem_map.mp hp'
        have := List.head_eq_of_cons_eq same
        omega

/-! ## Neighbouring and projected positions -/

theorem InRange.take {shape idx : List Int} (h : InRange shape idx) (n : Nat) :
    InRange (shape.take n) (idx.take n) := List.forall₂_take n h

theorem InRange.drop {shape idx : List Int} (h : InRange shape idx) (n : Nat) :
    InRange (shape.drop n) (idx.drop n) := List.forall₂_drop n h

theorem InRange.eraseIdx {shape idx : List Int} (h : InRange shape idx) (s : Nat) :
    InRange (shape.eraseIdx s) (idx.eraseIdx s) := by
  rw [List.eraseIdx_eq_take_drop_succ, List.eraseIdx_eq_take_drop_succ]
  exact (h.take s).append (h.drop (s + 1))

theorem InRange.set_one {shape idx : List Int} (h : InRange shape idx) (s : Nat) :
    InRange (shape.set s 1) (idx.set s 0) := by
  induction h generalizing s with
  | nil => exact .nil
  | cons head tail ih =>
      cases s with
      | zero => exact .cons (by decide) tail
      | succ s => exact .cons head (ih s)

/-- One step back along an axis that is not at its first index. -/
theorem InRange.modify_pred {shape idx : List Int} (h : InRange shape idx) {s : Nat}
    (later : idx[s]? ≠ some 0) : InRange shape (idx.modify s (· - 1)) := by
  induction h generalizing s with
  | nil => simp [InRange]
  | @cons n k shape idx head tail ih =>
      cases s with
      | zero =>
          have notFirst : k ≠ 0 := fun first => later (congrArg some first)
          exact .cons ⟨by simp only; omega, by simp only; omega⟩ tail
      | succ s => exact .cons head (ih later)

/-- Positions with the same number in shapes with the same outer part and the same number of
elements agree in their outer parts. -/
theorem take_eq_of_number_eq {shape shape' idx idx' : List Int} {n : Nat}
    (h : InRange shape idx) (h' : InRange shape' idx') (outer : shape.take n = shape'.take n)
    (count : elementCount shape = elementCount shape')
    (same : number shape idx = number shape' idx') : idx.take n = idx'.take n := by
  have block : ∀ {shape idx : List Int}, InRange shape idx → number shape idx =
      number (shape.take n) (idx.take n) * elementCount (shape.drop n) +
        number (shape.drop n) (idx.drop n) := by
    intro shape idx h
    have := number_append (shape.drop n) (idx.drop n) (h.take n).length_eq
    rwa [List.take_append_drop, List.take_append_drop] at this
  have total : ∀ shape : List Int, elementCount shape =
      elementCount (shape.take n) * elementCount (shape.drop n) := by
    intro shape
    rw [← elementCount_append, List.take_append_drop]
  have inner : elementCount (shape.drop n) = elementCount (shape'.drop n) := by
    rw [total shape, total shape', outer] at count
    exact Int.eq_of_mul_eq_mul_left (h'.take n).count_pos.ne' count
  rw [block h, block h', ← inner, outer] at same
  have below := number_lt (h.drop n)
  have below' := number_lt (h'.drop n)
  rw [← inner] at below'
  have quotient : ∀ q r, 0 ≤ r → r < elementCount (shape.drop n) →
      (q * elementCount (shape.drop n) + r) / elementCount (shape.drop n) = q := by
    intro q r nonneg less
    rw [Int.add_comm, Int.add_mul_ediv_right _ _ (by omega), Int.ediv_eq_zero_of_lt nonneg less,
      Int.zero_add]
  have blocks := congrArg (· / elementCount (shape.drop n)) same
  simp only [quotient _ _ (number_nonneg (h.drop n)) below,
    quotient _ _ (number_nonneg (h'.drop n)) below'] at blocks
  exact number_inj (outer ▸ h.take n) (h'.take n) blocks

end Shape

end ArrayFusion
