import ArrayFusion.Proofs.View.Addresses
import Mathlib.Data.List.InsertIdx
import Mathlib.Data.List.Nodup

/-!
# Lines along an axis

Positions that agree on all axes but one make up a line. Row-major order goes through every line from
its first index to its last one. The elements of a line can be joined one after the other, up to each
of its indices.
-/

namespace ArrayFusion

namespace Shape

variable {shape p q j : List Int} {axis : Nat} {x y : Int}

/-- Row-major order goes along every line. -/
theorem number_lt_number (hp : InRange shape p) (hq : InRange shape q) (hx : p[axis]? = some x)
    (hy : q[axis]? = some y) (line : p.eraseIdx axis = q.eraseIdx axis) (less : x < y) :
    number shape p < number shape q := by
  induction hp generalizing q axis with
  | nil => simp at hx
  | @cons n k shape p head tail ih =>
    cases hq with
    | @cons _ k' _ q head' tail' =>
    have rest : InRange shape p := tail
    have count := rest.count_pos
    cases axis with
    | zero =>
      cases hx
      cases hy
      obtain rfl : p = q := line
      have further : x * elementCount shape < y * elementCount shape :=
        Int.mul_lt_mul_of_pos_right less count
      simp only [number]
      omega
    | succ axis =>
      obtain ⟨rfl, rest'⟩ := List.cons_eq_cons.mp line
      have inside := ih tail' hx hy rest'
      simp only [number]
      omega

/-- Positions are listed by their numbers. -/
theorem pairwise_positions (shape : List Int) :
    (positions shape).Pairwise fun p q => number shape p < number shape q := by
  have place : ∀ k (inside : k < (positions shape).length),
      (number shape (positions shape)[k]).toNat = k := by
    intro k inside
    have range : InRange shape (positions shape)[k] := mem_positions.mp (List.getElem_mem inside)
    obtain ⟨listed, same⟩ := List.getElem?_eq_some_iff.mp (getElem?_positions range)
    exact (List.Nodup.getElem_inj_iff (nodup_positions shape)).mp same
  refine List.pairwise_iff_getElem.mpr fun k l hk hl less => ?_
  have first := place k hk
  have second := place l hl
  omega

/-- A position before another one is listed before it. -/
theorem mem_of_number_lt {before after : List (List Int)}
    (split : positions shape = before ++ p :: after) (hq : InRange shape q)
    (less : number shape q < number shape p) : q ∈ before := by
  have order := split ▸ pairwise_positions shape
  have member : q ∈ before ++ p :: after := split ▸ mem_positions.mpr hq
  rcases List.mem_append.mp member with here | later
  · exact here
  · have behind := (List.pairwise_cons.mp (List.pairwise_append.mp order).2.1).1
    rcases List.mem_cons.mp later with rfl | later
    · exact absurd less (Int.lt_irrefl _)
    · exact absurd (behind q later) (Int.not_lt.mpr less.le)

theorem number_lt_of_mem {before after : List (List Int)}
    (split : positions shape = before ++ p :: after) (hq : q ∈ before) :
    number shape q < number shape p := by
  have order := split ▸ pairwise_positions shape
  exact (List.pairwise_append.mp order).2.2 q hq p List.mem_cons_self

/-- An index stays within its axis. -/
theorem InRange.bounds (hp : InRange shape p) (here : p[axis]? = some x) :
    0 ≤ x ∧ ∃ n, shape[axis]? = some n ∧ x < n := by
  induction hp generalizing axis with
  | nil => simp at here
  | @cons n k shape p head tail ih =>
    cases axis with
    | zero =>
      cases here
      exact ⟨head.1, n, rfl, head.2⟩
    | succ axis => exact ih here

/-- A position is known by its line and its index. -/
theorem eq_of_eraseIdx_eq (line : p.eraseIdx axis = q.eraseIdx axis) (hx : p[axis]? = some x)
    (hy : q[axis]? = some x) : p = q := by
  obtain ⟨inside, rfl⟩ := List.getElem?_eq_some_iff.mp hx
  obtain ⟨inside', same⟩ := List.getElem?_eq_some_iff.mp hy
  rw [← List.insertIdx_eraseIdx_getElem inside, ← List.insertIdx_eraseIdx_getElem inside', line,
    same]

/-- Positions of a line that are listed before another one have a smaller index. -/
theorem lt_of_mem {before after : List (List Int)}
    (split : positions shape = before ++ p :: after) (hq : q ∈ before)
    (line : q.eraseIdx axis = p.eraseIdx axis) (hx : q[axis]? = some x) (hy : p[axis]? = some y) :
    x < y := by
  have rangeP : InRange shape p := mem_positions.mp (by rw [split]; simp)
  have rangeQ : InRange shape q :=
    mem_positions.mp (by rw [split]; exact List.mem_append_left _ hq)
  have less := number_lt_of_mem split hq
  rcases Int.lt_trichotomy x y with earlier | rfl | later
  · exact earlier
  · rw [eq_of_eraseIdx_eq line hx hy] at less
    exact absurd less (Int.lt_irrefl _)
  · exact absurd (number_lt_number rangeP rangeQ hy hx line.symm later) (Int.lt_asymm less)

/-- The position of a line at an index. -/
theorem InRange.insertIdx (hj : InRange (shape.eraseIdx axis) j) {n : Int}
    (size : shape[axis]? = some n) (nonneg : 0 ≤ x) (less : x < n) :
    InRange shape (j.insertIdx axis x) := by
  induction shape generalizing axis j with
  | nil => simp at size
  | cons m shape ih =>
    cases axis with
    | zero =>
      cases size
      exact .cons ⟨nonneg, less⟩ hj
    | succ axis =>
      cases hj with
      | cons head tail => exact .cons head (ih tail size)

/-- A step along an axis stays on the line. -/
theorem eraseIdx_modify (p : List Int) (axis : Nat) (f : Int → Int) :
    (p.modify axis f).eraseIdx axis = p.eraseIdx axis := by
  induction p generalizing axis with
  | nil => simp
  | cons k p ih =>
    cases axis with
    | zero => rfl
    | succ axis => exact congrArg (k :: ·) (ih axis)

/-- One step back along an axis leads to a smaller number. -/
theorem number_lt_of_step (hp : InRange shape p) (hq : InRange shape q) (inside : axis < p.length)
    (step : q = p.modify axis (· - 1)) : number shape q < number shape p := by
  have here : p[axis]? = some p[axis] := List.getElem?_eq_getElem inside
  have before : q[axis]? = some (p[axis] - 1) := by
    rw [step, List.getElem?_modify, here]
    simp
  have line : q.eraseIdx axis = p.eraseIdx axis := step ▸ eraseIdx_modify p axis (· - 1)
  exact number_lt_number hq hp before here line (Int.sub_lt_self _ Int.one_pos)

end Shape

/-- The elements of a line, joined one after the other from the first one up to an index. -/
def joinLine (join : Int → Int → Int) (element : List Int → Int) (axis : Nat) (j : List Int)
    (k : Nat) : Int :=
  ((List.range k).map fun n : Nat => element (j.insertIdx axis (n + 1))).foldl join
    (element (j.insertIdx axis 0))

theorem joinLine_zero (join : Int → Int → Int) (element : List Int → Int) (axis : Nat)
    (j : List Int) : joinLine join element axis j 0 = element (j.insertIdx axis 0) := rfl

theorem joinLine_succ (join : Int → Int → Int) (element : List Int → Int) (axis : Nat)
    (j : List Int) (k : Nat) : joinLine join element axis j (k + 1) =
      join (joinLine join element axis j k) (element (j.insertIdx axis (k + 1))) := by
  simp [joinLine, List.range_succ]

end ArrayFusion
