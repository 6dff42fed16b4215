import ArrayFusion.Proofs.Eval.Strides
import ArrayFusion.Proofs.View.Lines

/-!
# Instructions at one index of an axis, and behind the first one

Fixing an axis at an index takes the axis out of every operand that follows it, and skipping the
first index moves these operands on by one step. A sliced instruction is then accessed at the
positions of the other axes, where the whole one is with the index put back in, and an advanced one
is accessed one step further.

There is one exception. A fold along the axis becomes a copy. If its output keeps the axis with size
one, the output of the copy still has it while the input has lost it, so that the axes behind it are
one place apart.
-/

namespace ArrayFusion

open Shape View

/-- Place among all axes of an axis that has some place among the other ones. -/
def skip (axis b : Nat) : Nat := if b < axis then b else b + 1

theorem getElem?_eraseIdx_skip {α : Type} (xs : List α) (axis b : Nat) :
    (xs.eraseIdx axis)[b]? = xs[skip axis b]? := by
  rw [List.getElem?_eraseIdx, skip]
  split <;> rfl

section Fold

variable {axis s : Nat} (other : s ≠ axis) (b : Nat)

include other

/-- Without a third axis, the axes before and behind that of a fold are the same ones. -/
theorem skip_eq_iff : skip axis b = s ↔ b = if axis < s then s - 1 else s := by
  unfold skip
  split <;> split <;> omega

theorem lt_skip_iff : s < skip axis b ↔ (if axis < s then s - 1 else s) < b := by
  unfold skip
  split <;> split <;> omega

/-- The output of a fold has the axes behind that of the fold one place earlier, and so the third
one. -/
theorem skip_of_behind (behind : s < skip axis b) :
    skip (if s < axis then axis - 1 else axis) (b - 1) = skip axis b - 1 := by
  unfold skip at *
  split at behind <;> split <;> split <;> omega

omit other in
theorem skip_of_before (before : skip axis b < s) :
    skip (if s < axis then axis - 1 else axis) b = skip axis b := by
  unfold skip at *
  split at before <;> split <;> grind

end Fold

theorem sum_range_skip (f : Nat → Int) {axis n : Nat} (inside : axis ≤ n) :
    ((List.range (n + 1)).map f).sum =
      f axis + ((List.range n).map fun b => f (skip axis b)).sum := by
  induction n, inside using Nat.le_induction with
  | base =>
      have before : ∀ b ∈ List.range axis, f (skip axis b) = f b := by
        intro b hb
        rw [skip, if_pos (List.mem_range.mp hb)]
      rw [List.map_congr_left before, List.range_succ, List.map_append, List.sum_append,
        List.map_singleton, List.sum_singleton, Int.add_comm]
  | succ n inside ih =>
      have last : skip axis n = n + 1 := if_neg (Nat.not_lt.mpr inside)
      rw [List.range_succ, List.map_append, List.sum_append, ih, List.range_succ, List.map_append,
        List.sum_append, List.map_singleton, List.map_singleton, last, Int.add_assoc]

namespace View

variable (v : View) (a b : Nat) (index : Int)

theorem axes_advanceAxis :
    (v.advanceAxis a).axes[b]?.map (·.stride) = v.axes[b]?.map (·.stride) := by
  rw [advanceAxis]
  cases found : v.axes[a]? with
  | none => rfl
  | some x =>
      simp only [List.getElem?_set]
      split
      next same =>
        have inside := (List.getElem?_eq_some_iff.mp found).1
        rw [if_pos (same ▸ inside), ← same, found]
        rfl
      next => rfl

theorem ndim_advanceAxis : (v.advanceAxis a).ndim = v.ndim := by
  rw [advanceAxis]
  cases v.axes[a]? <;> simp [ndim]

theorem start_advanceAxis :
    (v.advanceAxis a).start = v.start + (v.axes[a]?.map (·.stride)).getD 0 := by
  rw [advanceAxis]
  cases v.axes[a]? <;> simp

theorem base_advanceAxis : (v.advanceAxis a).base = v.base ∧ (v.advanceAxis a).dtype = v.dtype := by
  rw [advanceAxis]
  cases v.axes[a]? <;> exact ⟨rfl, rfl⟩

theorem shape_advanceAxis : (v.advanceAxis a).shape = v.shape.modify a (· - 1) := by
  rw [advanceAxis, shape, shape]
  cases found : v.axes[a]? with
  | none =>
      have outside : v.axes.length ≤ a := List.getElem?_eq_none_iff.mp found
      exact (List.modify_eq_self (by rwa [List.length_map])).symm
  | some x =>
      obtain ⟨inside, rfl⟩ := List.getElem?_eq_some_iff.mp found
      rw [List.modify_eq_set_getElem?]
      simp [List.map_set, inside]

theorem axes_fixAxis : (v.fixAxis a index).axes = v.axes.eraseIdx a := by
  rw [fixAxis]
  cases found : v.axes[a]? with
  | none => exact (List.eraseIdx_of_length_le (List.getElem?_eq_none_iff.mp found)).symm
  | some x => rfl

theorem start_fixAxis : (v.fixAxis a index).start =
    v.start + index * (v.axes[a]?.map (·.stride)).getD 0 := by
  rw [fixAxis]
  cases v.axes[a]? with
  | none => simp
  | some x => rfl

theorem base_fixAxis :
    (v.fixAxis a index).base = v.base ∧ (v.fixAxis a index).dtype = v.dtype := by
  rw [fixAxis]
  cases v.axes[a]? <;> exact ⟨rfl, rfl⟩

theorem isConstant_fixAxis : (v.fixAxis a index).isConstant = v.isConstant := by
  rw [isConstant, isConstant, (v.base_fixAxis a index).1]

theorem shape_fixAxis : (v.fixAxis a index).shape = v.shape.eraseIdx a := by
  rw [shape, shape, axes_fixAxis, List.eraseIdx_map]

theorem strides_fixAxis : (v.fixAxis a index).strides = v.strides.eraseIdx a := by
  rw [strides, strides, axes_fixAxis, List.eraseIdx_map]

end View

namespace Instruction

variable {i : Instruction} {v : View} {axis b k : Nat} {index : Int}

/-! ## All indices but the first -/

theorem moved_advanceAxis (i : Instruction) (axis : Nat) : Moved i (i.advanceAxis axis) where
  opcode := rfl
  constant _ := rfl
  operands := forall₂_alongAxis i axis View.advanceAxis (fun _ => ⟨rfl, rfl⟩) base_advanceAxis

theorem ndim_advanceAxis (i : Instruction) (axis : Nat) : (i.advanceAxis axis).ndim = i.ndim :=
  ndim_congr rfl
    (forall₂_alongAxis i axis View.advanceAxis (fun _ => rfl) View.ndim_advanceAxis)

theorem strideAt_advanceAxis (i : Instruction) (axis k b : Nat) :
    (i.advanceAxis axis).strideAt k b = i.strideAt k b := by
  have follows : (i.advanceAxis axis).operandAxis? k b = i.operandAxis? k b := by
    refine operandAxis?_congr (moved_advanceAxis i axis).opcode rfl ?_ k b
    refine forall₂_alongAxis i axis View.advanceAxis (fun _ => ⟨rfl, rfl⟩) fun v a => ?_
    rw [View.isConstant, View.isConstant, (base_advanceAxis v a).1, View.ndim_advanceAxis]
    exact ⟨rfl, rfl⟩
  rw [strideAt, strideAt, follows, advanceAxis, getElem?_alongAxis]
  cases i.operands[k]? with
  | none => rfl
  | some v =>
      cases i.operandAxis? k b with
      | none => rfl
      | some c =>
          simp only [Option.map_some, Option.bind_some]
          cases i.operandAxis? k axis with
          | none => rfl
          | some a => rw [axes_advanceAxis]

theorem startOf_advanceAxis (i : Instruction) (axis k : Nat) :
    (i.advanceAxis axis).startOf k = i.startOf k + i.strideAt k axis := by
  rw [startOf, startOf, strideAt, advanceAxis, getElem?_alongAxis]
  cases i.operands[k]? with
  | none => rfl
  | some v =>
      cases i.operandAxis? k axis with
      | none => simp
      | some a => simp [start_advanceAxis]

/-- Without its first index, an instruction accesses what it did one index later. -/
theorem offset_advanceAxis {ts ts' : Turns} (inside : axis < i.ndim)
    (next : ts'.index axis = ts.index axis + 1)
    (same : ∀ b < i.ndim, b ≠ axis → ts'.index b = ts.index b) (k : Nat) :
    (i.advanceAxis axis).offset ts k = i.offset ts' k := by
  obtain ⟨n, axes⟩ : ∃ n, i.ndim = n + 1 := ⟨i.ndim - 1, by omega⟩
  have others : ∀ b ∈ List.range n, ts'.index (skip axis b) * i.strideAt k (skip axis b) =
      ts.index (skip axis b) * i.strideAt k (skip axis b) := by
    intro b hb
    have := List.mem_range.mp hb
    rw [same _ (by unfold skip; split <;> omega) (by unfold skip; split <;> omega)]
  rw [offset_eq_sum, offset_eq_sum, ndim_advanceAxis, startOf_advanceAxis, axes]
  simp only [strideAt_advanceAxis]
  rw [sum_range_skip _ (by omega : axis ≤ n), sum_range_skip _ (by omega : axis ≤ n), next,
    List.map_congr_left others]
  ring

/-! ## One index -/

/-- The operand stands still along an axis of the positions. -/
def StandsStill (i : Instruction) (axis k : Nat) (v : View) : Prop :=
  (v.isConstant || i.isIndirect k) = true ∨
    k = 0 ∧ i.opcode.isReduction = true ∧ i.sweepAxis? = some axis

/-- The instruction folds along the axis, and its output has this axis too. -/
def KeepsAxis (i : Instruction) (axis : Nat) : Prop :=
  i.opcode.isReduction = true ∧ i.sweepAxis? = some axis ∧
    ∃ out ∈ i.operands[0]?, out.ndim = i.ndim

/-- Place of the operand whose positions an instruction is carried out at. -/
def leading : Opcode → Nat
  | .reduce _ | .accumulate _ | .scatter | .condScatter => 1
  | _ => 0

/-- Place in an operand of an axis of the positions. The output of a fold may lack the axis of the
fold, so that later axes come one place earlier. -/
def ownAxis (i : Instruction) (axis k : Nat) (v : View) : Nat :=
  if (k = 0 ∧ i.opcode.isReduction = true) ∧ v.ndim + 1 = i.ndim ∧ ∃ s ∈ i.sweepAxis?, s < axis then
    axis - 1
  else axis

theorem ownAxis_direct (notFold : ¬ (k = 0 ∧ i.opcode.isReduction = true)) (axis : Nat) (v : View) :
    i.ownAxis axis k v = axis :=
  if_neg fun fold => notFold fold.1

theorem StandsStill.operandAxis? (hv : i.operands[k]? = some v) (still : i.StandsStill axis k v) :
    i.operandAxis? k axis = none := by
  rcases still with fixed | ⟨rfl, reduction, along⟩
  · simp [Instruction.operandAxis?, hv, fixed]
  · simp [Instruction.operandAxis?, hv, reduction, along]

/-- An operand that moves along an axis follows it at its own place, if it has this place at all. -/
theorem operandAxis?_of_moves (fit : i.ShapesFit) (hv : i.operands[k]? = some v)
    (moves : ¬ i.StandsStill axis k v) : i.operandAxis? k axis = some (i.ownAxis axis k v) ∨
      i.operandAxis? k axis = none ∧ v.ndim ≤ i.ownAxis axis k v := by
  obtain ⟨free, notAlong⟩ := not_or.mp moves
  rw [Bool.not_eq_true] at free
  by_cases fold : k = 0 ∧ i.opcode.isReduction = true
  · obtain ⟨rfl, reduction⟩ := fold
    obtain ⟨s, along, -, input⟩ := fit.sweepAxis (isSweep_of_isReduction reduction)
    have other : axis ≠ s := fun same => notAlong ⟨rfl, reduction, same ▸ along⟩
    have own : i.ownAxis axis 0 v = if v.ndim + 1 = i.ndim ∧ s < axis then axis - 1 else axis := by
      simp [ownAxis, reduction, along]
    rw [operandAxis?_fold hv (Bool.or_eq_false_iff.mp free).1 reduction along input, if_neg other,
      own]
    split
    · exact .inl rfl
    · split
      · exact .inl rfl
      next outside => exact .inr ⟨rfl, Nat.not_lt.mp outside⟩
  · rw [ownAxis_direct fold]
    simp only [operandAxis?, hv, free, fold, Bool.false_eq_true, if_false]
    split
    · exact .inl rfl
    next outside => exact .inr ⟨rfl, Nat.not_lt.mp outside⟩

/-- The operands at an index of an axis. -/
theorem operand_alongAxis (fit : i.ShapesFit) (hv : i.operands[k]? = some v) (axis : Nat)
    (index : Int) : ∃ w, (i.alongAxis axis fun v a => v.fixAxis a index)[k]? = some w ∧
      (i.StandsStill axis k v ∧ w = v ∨
        ¬ i.StandsStill axis k v ∧ w = v.fixAxis (i.ownAxis axis k v) index) := by
  refine ⟨_, by rw [getElem?_alongAxis, hv, Option.map_some], ?_⟩
  by_cases still : i.StandsStill axis k v
  · refine .inl ⟨still, ?_⟩
    rw [still.operandAxis? hv]
  refine .inr ⟨still, ?_⟩
  rcases operandAxis?_of_moves fit hv still with follows | ⟨none, outside⟩
  · rw [follows]
  · rw [none, View.fixAxis, List.getElem?_eq_none outside]

theorem isIndirect_leading (i : Instruction) : i.isIndirect (leading i.opcode) = false := by
  cases op : i.opcode <;> simp [leading, isIndirect, op]

theorem leading_notFold (i : Instruction) :
    ¬ (leading i.opcode = 0 ∧ i.opcode.isReduction = true) := by
  cases op : i.opcode <;> simp [leading, Opcode.isReduction]

theorem shape_eq_leading (reads : leading i.opcode < i.operands.length)
    (computes : i.opcode.isSystem = false) :
    i.shape = (i.operands[leading i.opcode]?.map (·.shape)).getD [] := by
  obtain ⟨opcode, operands, constant, creates⟩ := i
  cases opcode <;> rcases operands with _ | ⟨out, _ | ⟨input, rest⟩⟩ <;>
    simp_all [shape, leading, Opcode.isSystem]

theorem sliceAxis_of_eq (along : i.sweepAxis? = some axis) (index : Int) :
    i.sliceAxis axis index = { i with
      opcode := .unary .identity, constant := none
      operands := (i.alongAxis axis fun v a => v.fixAxis a index).take 2 } := by
  rw [sliceAxis, if_pos along]

theorem sliceAxis_of_ne (other : i.sweepAxis? ≠ some axis) (index : Int) :
    i.sliceAxis axis index = { i with
      operands := i.alongAxis axis fun v a => v.fixAxis a index
      constant := i.constantWithout axis } := by
  rw [sliceAxis, if_neg other]

theorem getElem?_operands_sliceAxis (i : Instruction) (axis : Nat) (index : Int)
    (few : i.sweepAxis? = some axis → k < 2) :
    (i.sliceAxis axis index).operands[k]? =
      (i.alongAxis axis fun v a => v.fixAxis a index)[k]? := by
  rw [sliceAxis]
  split
  next along => exact List.getElem?_take_of_lt (few along)
  next => rfl

/-- Operands start where they are accessed at the index. -/
theorem startOf_sliceAxis (few : i.sweepAxis? = some axis → k < 2) (index : Int) :
    (i.sliceAxis axis index).startOf k = i.startOf k + index * i.strideAt k axis := by
  rw [startOf, startOf, strideAt, getElem?_operands_sliceAxis i axis index few, getElem?_alongAxis]
  cases i.operands[k]? with
  | none => simp
  | some v =>
      cases i.operandAxis? k axis with
      | none => simp
      | some a => simp [start_fixAxis]

/-- The output of a fold has all axes of the positions but that of the fold, or this one too. -/
theorem ShapesFit.output (fit : i.ShapesFit) (reduction : i.opcode.isReduction = true)
    (along : i.sweepAxis? = some axis) (hv : i.operands[0]? = some v)
    (array : v.isConstant = false) :
    v.ndim + 1 = i.ndim ∧ v.shape = i.shape.eraseIdx axis ∨
      v.ndim = i.ndim ∧ v.shape = i.shape.set axis 1 := by
  have inside : axis < i.shape.length := fit.sweepsInside axis along
  rw [← v.length_shape, Instruction.ndim]
  rcases fit.folded reduction axis along v hv array with removed | kept
  · refine .inl ⟨?_, removed⟩
    rw [removed, List.length_eraseIdx_of_lt inside]
    omega
  · exact .inr ⟨by rw [kept, List.length_set], kept⟩

section Slice

variable (fit : i.ShapesFit)

include fit

/-- A fold or scan along the axis becomes a copy. Another one keeps its axis, which comes one place
earlier if it was behind. -/
theorem sweepAxis?_sliceAxis (wf : i.WellFormed) (axis : Nat) (index : Int) :
    (i.sliceAxis axis index).sweepAxis? = i.sweepAxis?.bind fun s =>
      if s = axis then none else some (if axis < s then s - 1 else s) := by
  cases along : i.sweepAxis? with
  | none =>
      have still : i.opcode.isSweep = false := by
        by_contra sweep
        obtain ⟨s, some, -⟩ := fit.sweepAxis (by simpa using sweep)
        cases along.symm.trans some
      rw [sliceAxis, if_neg (by simp [along])]
      simp [sweepAxis?, still]
  | some s =>
  rw [Option.bind_some]
  by_cases same : s = axis
  · rw [sliceAxis, if_pos (same ▸ along), if_pos same]
    rfl
  rw [sliceAxis, if_neg fun here => same (Option.some.inj (along.symm.trans here)), if_neg same]
  have sweep := isSweep_of_sweepAxis? along
  by_cases behind : axis < s
  · obtain ⟨s', along', inside, -⟩ := fit.sweepAxis sweep
    obtain rfl : s = s' := Option.some.inj (along.symm.trans along')
    have small := ndim_le_maxAxes wf
    rw [maxAxes] at small
    obtain ⟨s, rfl⟩ : ∃ s', s = s' + 1 := ⟨s - 1, by omega⟩
    have constant : i.constantWithout axis = some (.int64 s) := by
      simp [constantWithout, along, behind]
    rw [if_pos behind, Nat.add_sub_cancel]
    exact sweepAxis?_of_constant sweep constant (by omega)
  · have constant : i.constantWithout axis = i.constant := by
      simp [constantWithout, along, behind]
    rw [if_neg behind, ← along, sweepAxis?, sweepAxis?, constant]

/-- The input of a fold or scan along another axis loses this axis. -/
theorem input_alongAxis (wf : i.WellFormed) (sweep : i.opcode.isSweep = true)
    (inside : axis < i.ndim) (index : Int) :
    (((i.alongAxis axis fun v a => v.fixAxis a index)[1]?).map (·.ndim)).getD 0 + 1 = i.ndim := by
  obtain ⟨s, along, -, input⟩ := fit.sweepAxis sweep
  cases hv : i.operands[1]? with
  | none =>
      rw [hv] at input
      simp only [Option.map_none, Option.getD_none] at input
      omega
  | some v =>
  rw [hv] at input
  simp only [Option.map_some, Option.getD_some] at input
  have array : v.isConstant = false := by
    by_contra constant
    have empty := (wf v (List.mem_of_getElem? hv)).scalar (by simpa using constant)
    rw [View.ndim, empty] at input
    simp only [List.length_nil] at input
    omega
  have direct := isIndirect_of_isSweep sweep 1
  obtain ⟨w, hw, ⟨still | still, -⟩ | ⟨-, rfl⟩⟩ := operand_alongAxis fit hv axis index
  · simp [array, direct] at still
  · exact absurd still.1 (by decide)
  · rw [hw, ownAxis_direct (by simp)]
    simp only [Option.map_some, Option.getD_some, View.ndim, axes_fixAxis]
    rw [View.ndim] at input
    rw [List.length_eraseIdx_of_lt (by omega)]
    omega

/-- The output of a fold along another axis moves along the axes but the fixed one. -/
theorem strideAt_output_sliceAxis (wf : i.WellFormed) (reduction : i.opcode.isReduction = true)
    (other : i.sweepAxis? ≠ some axis) (inside : axis < i.ndim) (index : Int)
    (hv : i.operands[0]? = some v) (array : v.isConstant = false) (b : Nat) :
    (i.sliceAxis axis index).strideAt 0 b = i.strideAt 0 (skip axis b) := by
  have sweep := isSweep_of_isReduction reduction
  obtain ⟨s, along, sweeps, input⟩ := fit.sweepAxis sweep
  have apart : s ≠ axis := fun same => other (same ▸ along)
  obtain ⟨w, hw, ⟨still, -⟩ | ⟨-, rfl⟩⟩ := operand_alongAxis fit hv axis index
  · rcases still with still | ⟨-, -, here⟩
    · rw [array, isIndirect_of_isSweep sweep 0] at still
      cases still
    · exact absurd here other
  have operand := fun k =>
    getElem?_operands_sliceAxis i axis index (k := k) fun here => absurd here other
  have opcode : (i.sliceAxis axis index).opcode = i.opcode := by rw [sliceAxis_of_ne other]
  have along' : (i.sliceAxis axis index).sweepAxis? = some (if axis < s then s - 1 else s) := by
    rw [sweepAxis?_sliceAxis fit wf, along, Option.bind_some, if_neg apart]
  have own : i.ownAxis axis 0 v = if v.ndim + 1 = i.ndim ∧ s < axis then axis - 1 else axis := by
    simp [ownAxis, reduction, along]
  have axes := (fit.output reduction along hv array).imp And.left And.left
  have fewer : (v.fixAxis (i.ownAxis axis 0 v) index).ndim + 1 = v.ndim := by
    rw [View.ndim, View.axes_fixAxis, List.length_eraseIdx_of_lt, ← View.ndim]
    · omega
    · rw [← View.ndim, own]
      split <;> omega
  have input' := input_alongAxis fit wf sweep inside index
  have lacks : (v.fixAxis (i.ownAxis axis 0 v) index).ndim + 1 =
      (((i.alongAxis axis fun v a => v.fixAxis a index)[1]?).map (·.ndim)).getD 0 ↔
        v.ndim + 1 = i.ndim := by omega
  rw [strideAt_fold hv array reduction along, input,
    strideAt_fold ((operand 0).trans hw) ((View.isConstant_fixAxis ..).trans array)
      (opcode ▸ reduction) along', operand, strides_fixAxis, getElem?_eraseIdx_skip,
    getElem?_eraseIdx_skip]
  simp only [lacks, ← skip_eq_iff apart, ← lt_skip_iff apart]
  by_cases same : skip axis b = s
  · rw [if_pos same, if_pos same]
  rw [if_neg same, if_neg same, own]
  rcases axes.symm with kept | removed
  · have whole : ¬ v.ndim + 1 = i.ndim := by omega
    simp only [whole, false_and, if_false]
  simp only [removed, true_and]
  split
  next behind => rw [skip_of_behind apart b behind]
  next before => rw [skip_of_before b (by omega)]

/-- At an index of an axis that nothing folds along, operands move along the other axes. -/
theorem strideAt_sliceAxis_of_ne (wf : i.WellFormed) (other : i.sweepAxis? ≠ some axis)
    (inside : axis < i.ndim) (index : Int) (k b : Nat) :
    (i.sliceAxis axis index).strideAt k b = i.strideAt k (skip axis b) := by
  have sliced := sliceAxis_of_ne other index
  have opcode : (i.sliceAxis axis index).opcode = i.opcode := by rw [sliced]
  have operand := fun k =>
    getElem?_operands_sliceAxis i axis index (k := k) fun here => absurd here other
  cases hv : i.operands[k]? with
  | none =>
      have none : (i.sliceAxis axis index).operands[k]? = none := by
        rw [operand, getElem?_alongAxis, hv]
        rfl
      simp [strideAt, hv, none]
  | some v =>
  obtain ⟨w, hw, ⟨still, rfl⟩ | ⟨moves, rfl⟩⟩ := operand_alongAxis fit hv axis index
  · rcases still with still | ⟨-, -, along⟩
    · rw [strideAt_still hv still, strideAt_still ((operand k).trans hw)]
      rwa [isIndirect, opcode]
    · exact absurd along other
  obtain ⟨array, fold0⟩ := not_or.mp moves
  rw [Bool.not_eq_true] at array
  have array' : ((v.fixAxis (i.ownAxis axis k v) index).isConstant ||
      (i.sliceAxis axis index).isIndirect k) = false := by
    rwa [isConstant_fixAxis, isIndirect, opcode]
  by_cases fold : k = 0 ∧ i.opcode.isReduction = true
  · obtain ⟨rfl, reduction⟩ := fold
    exact strideAt_output_sliceAxis fit wf reduction other inside index hv
      (Bool.or_eq_false_iff.mp array).1 b
  · rw [strideAt_direct hv array fold,
      strideAt_direct ((operand k).trans hw) array' (opcode ▸ fold), ownAxis_direct fold,
      strides_fixAxis, getElem?_eraseIdx_skip]

/-- At an index of the axis of a fold or scan, output and input move along the other axes, but for
an output that keeps the axis. -/
theorem strideAt_sliceAxis_of_eq (along : i.sweepAxis? = some axis) (index : Int) (few : k < 2)
    (lost : k = 0 → ¬ i.KeepsAxis axis) (b : Nat) :
    (i.sliceAxis axis index).strideAt k b = i.strideAt k (skip axis b) := by
  have sliced := sliceAxis_of_eq along index
  have operand := getElem?_operands_sliceAxis i axis index fun _ => few
  have direct : i.isIndirect k = false ∧ (i.sliceAxis axis index).isIndirect k = false :=
    ⟨isIndirect_of_isSweep (isSweep_of_sweepAxis? along) k, by rw [sliced]; rfl⟩
  have notFold : ¬ (k = 0 ∧ (i.sliceAxis axis index).opcode.isReduction = true) := by
    rw [sliced]
    simp [Opcode.isReduction]
  cases hv : i.operands[k]? with
  | none =>
      have none : (i.sliceAxis axis index).operands[k]? = none := by
        rw [operand, getElem?_alongAxis, hv]
        rfl
      simp [strideAt, hv, none]
  | some v =>
  obtain ⟨w, hw, ⟨still, rfl⟩ | ⟨moves, rfl⟩⟩ := operand_alongAxis fit hv axis index
  · rcases still with still | ⟨rfl, reduction, -⟩
    · rw [strideAt_still hv still, strideAt_still (operand.trans hw)]
      rwa [direct.1, ← direct.2] at still
    cases constant : w.isConstant with
    | true =>
        rw [strideAt_still hv (by simp [constant]),
          strideAt_still (operand.trans hw) (by simp [constant])]
    | false =>
        obtain ⟨s, -, -, input⟩ := fit.sweepAxis (isSweep_of_sweepAxis? along)
        have lacks : w.ndim + 1 = i.ndim := by
          refine (fit.output reduction along hv constant).elim And.left fun kept => ?_
          exact absurd ⟨reduction, along, w, hv, kept.1⟩ (lost rfl)
        rw [strideAt_fold hv constant reduction along, input,
          strideAt_direct (operand.trans hw) (by simp [constant, direct.2]) notFold]
        unfold skip
        split
        next before => rw [if_neg (by omega), if_neg (by omega)]
        next behind => rw [if_neg (by omega), if_pos ⟨lacks, by omega⟩, Nat.add_sub_cancel]
  · obtain ⟨array, fold⟩ := not_or.mp moves
    rw [Bool.not_eq_true] at array
    have array' : ((v.fixAxis (i.ownAxis axis k v) index).isConstant ||
        (i.sliceAxis axis index).isIndirect k) = false := by
      rw [direct.1] at array
      rwa [direct.2, isConstant_fixAxis]
    have notFold' : ¬ (k = 0 ∧ i.opcode.isReduction = true) := fun both =>
      fold ⟨both.1, both.2, along⟩
    rw [strideAt_direct hv array notFold', strideAt_direct (operand.trans hw) array' notFold,
      ownAxis_direct notFold', strides_fixAxis, getElem?_eraseIdx_skip]

/-- At an index of an axis, operands move along the other axes, but for the output of a fold that
keeps the axis. -/
theorem strideAt_sliceAxis (wf : i.WellFormed) (inside : axis < i.ndim) (index : Int)
    (few : i.sweepAxis? = some axis → k < 2) (lost : k = 0 → ¬ i.KeepsAxis axis) (b : Nat) :
    (i.sliceAxis axis index).strideAt k b = i.strideAt k (skip axis b) := by
  by_cases along : i.sweepAxis? = some axis
  · exact strideAt_sliceAxis_of_eq fit along index (few along) lost b
  · exact strideAt_sliceAxis_of_ne fit wf along inside index k b

/-- At an index of an axis, operands are accessed where they were with this index among the
others. -/
theorem offset_sliceAxis {ts ts' : Turns} (wf : i.WellFormed) (inside : axis < i.ndim)
    (index : Int) (axes : (i.sliceAxis axis index).ndim + 1 = i.ndim ∨
      (i.sliceAxis axis index).ndim = i.ndim)
    (here : ts'.index axis = index)
    (others : ∀ b, b + 1 < i.ndim → ts'.index (skip axis b) = ts.index b)
    (few : i.sweepAxis? = some axis → k < 2) (lost : k = 0 → ¬ i.KeepsAxis axis) :
    (i.sliceAxis axis index).offset ts k = i.offset ts' k := by
  obtain ⟨n, ndim⟩ : ∃ n, i.ndim = n + 1 := ⟨i.ndim - 1, by omega⟩
  have inner : ((List.range (i.sliceAxis axis index).ndim).map fun b =>
      ts.index b * (i.sliceAxis axis index).strideAt k b).sum =
        ((List.range n).map fun b => ts.index b * i.strideAt k (skip axis b)).sum := by
    simp only [strideAt_sliceAxis fit wf inside index few lost]
    rcases axes with fewer | same
    · rw [show (i.sliceAxis axis index).ndim = n by omega]
    · have past : i.strideAt k (skip axis n) = 0 := fit.strideAt_eq_zero (by
        unfold skip
        split <;> omega)
      rw [same, ndim, List.range_succ, List.map_append, List.sum_append]
      simp [past]
  have each : ∀ b ∈ List.range n, ts'.index (skip axis b) * i.strideAt k (skip axis b) =
      ts.index b * i.strideAt k (skip axis b) := by
    intro b hb
    have := List.mem_range.mp hb
    rw [others b (by omega)]
  rw [offset_eq_sum, offset_eq_sum, startOf_sliceAxis few, inner, ndim,
    sum_range_skip _ (by omega : axis ≤ n), here, List.map_congr_left each, Int.add_assoc]

/-- The output of a fold that keeps the axis stands still along it, and in the copy it moves along
all its axes. -/
theorem strideAt_kept (keeps : i.KeepsAxis axis) (index : Int)
    (array : ∀ out ∈ i.operands[0]?, out.isConstant = false) :
    i.strideAt 0 axis = 0 ∧
      ∀ b, b ≠ axis → (i.sliceAxis axis index).strideAt 0 b = i.strideAt 0 b := by
  obtain ⟨reduction, along, v, hv, same⟩ := keeps
  obtain ⟨s, -, -, input⟩ := fit.sweepAxis (isSweep_of_isReduction reduction)
  have own := strideAt_fold hv (array v hv) reduction along
  refine ⟨(own axis).trans (if_pos rfl), fun b apart => ?_⟩
  obtain ⟨w, hw, ⟨-, rfl⟩ | ⟨moves, -⟩⟩ := operand_alongAxis fit hv axis index
  · have operand := getElem?_operands_sliceAxis i axis index fun _ => Nat.zero_lt_two
    have sliced := sliceAxis_of_eq along index
    rw [own, if_neg apart, if_neg (by rw [input, same]; omega),
      strideAt_direct (operand.trans hw) (by rw [sliced]; simp [array w hv, isIndirect])
        (by rw [sliced]; simp [Opcode.isReduction])]
  · exact absurd (.inr ⟨rfl, reduction, along⟩) moves

/-- The copy of a fold that keeps the axis has its output where the fold had it. -/
theorem offset_kept {ts : Turns} (keeps : i.KeepsAxis axis) (index : Int)
    (axes : (i.sliceAxis axis index).ndim = i.ndim) (zero : ts.index axis = 0)
    (array : ∀ out ∈ i.operands[0]?, out.isConstant = false) :
    (i.sliceAxis axis index).offset ts 0 = i.offset ts 0 := by
  obtain ⟨still, others⟩ := strideAt_kept fit keeps index array
  rw [offset_eq_sum, offset_eq_sum, startOf_sliceAxis fun _ => Nat.zero_lt_two, still, axes,
    Int.mul_zero, Int.add_zero]
  congr 2
  refine List.map_congr_left fun b _ => ?_
  by_cases same : b = axis
  · rw [same, zero, Int.zero_mul, Int.zero_mul]
  · rw [others b same]

/-- The copy of a fold or scan has the positions of its output, which are those of the other axes
unless the output keeps the axis. -/
theorem shape_sliceAxis_of_eq (along : i.sweepAxis? = some axis) (index : Int)
    (array : ∀ out ∈ i.operands[0]?, out.isConstant = false) :
    (¬ i.KeepsAxis axis → (i.sliceAxis axis index).shape = i.shape.eraseIdx axis) ∧
      (i.KeepsAxis axis → (i.sliceAxis axis index).shape = i.shape.set axis 1) := by
  have sweep := isSweep_of_sweepAxis? along
  obtain ⟨s, along', inside, -⟩ := fit.sweepAxis sweep
  obtain rfl : axis = s := Option.some.inj (along.symm.trans along')
  obtain ⟨-, -, input, hinput, -⟩ := fit.axis sweep
  obtain ⟨out, hout⟩ : ∃ out, i.operands[0]? = some out :=
    ⟨_, List.getElem?_eq_getElem (Nat.lt_of_succ_lt (List.getElem?_eq_some_iff.mp hinput).1)⟩
  obtain ⟨w, hw, change⟩ := operand_alongAxis fit hout axis index
  have positions : (i.sliceAxis axis index).shape = w.shape := by
    rw [sliceAxis_of_eq along, shape_of_isElementwise rfl, List.head?_eq_getElem?,
      List.getElem?_take_of_lt Nat.zero_lt_two, hw]
    rfl
  have direct := isIndirect_of_isSweep sweep 0
  rw [positions]
  rcases change with ⟨still | ⟨-, reduction, -⟩, rfl⟩ | ⟨moves, rfl⟩
  · rw [array w hout, direct] at still
    cases still
  · rcases fit.output reduction along hout (array w hout) with ⟨lacks, shape⟩ | ⟨same, shape⟩
    · refine ⟨fun _ => shape, fun keeps => ?_⟩
      obtain ⟨-, -, out, hout', same⟩ := keeps
      obtain rfl : w = out := Option.some.inj (hout.symm.trans hout')
      omega
    · exact ⟨fun lost => absurd ⟨reduction, along, w, hout, same⟩ lost, fun _ => shape⟩
  · have scan : ¬ (0 = 0 ∧ i.opcode.isReduction = true) := by
      intro fold
      exact moves (.inr ⟨rfl, fold.2, along⟩)
    refine ⟨fun _ => ?_, fun keeps => absurd ⟨rfl, keeps.1⟩ scan⟩
    rw [shape_fixAxis, ownAxis_direct scan,
      fit.direct ⟨out, 0⟩ (List.mk_mem_zipIdx_iff_getElem?.mpr hout) (array out hout) direct scan]

theorem shape_sliceAxis_of_ne (wf : i.WellFormed) (reads : leading i.opcode < i.operands.length)
    (computes : i.opcode.isSystem = false) (other : i.sweepAxis? ≠ some axis) (index : Int) :
    (i.sliceAxis axis index).shape = i.shape.eraseIdx axis := by
  have sliced := sliceAxis_of_ne other index
  rw [shape_eq_leading reads computes, shape_eq_leading (i := i.sliceAxis axis index)
    (by rw [sliced]; simpa [alongAxis] using reads) (by rw [sliced]; exact computes), sliced]
  simp only
  cases hv : i.operands[leading i.opcode]? with
  | none =>
      rw [getElem?_alongAxis, hv]
      rfl
  | some v =>
      obtain ⟨w, hw, ⟨still | fold, rfl⟩ | ⟨-, rfl⟩⟩ := operand_alongAxis fit hv axis index
      · have constant : w.isConstant = true := by simpa [isIndirect_leading] using still
        have empty : w.shape = [] := by
          rw [View.shape, (wf w (List.mem_of_getElem? hv)).scalar constant]
          rfl
        rw [hw, Option.map_some, Option.getD_some, empty]
        rfl
      · exact absurd ⟨fold.1, fold.2.1⟩ i.leading_notFold
      · rw [hw, Option.map_some, Option.getD_some, shape_fixAxis, ownAxis_direct i.leading_notFold]
        rfl

end Slice

/-- Without the first index of an axis, an instruction has the positions of one index fewer. -/
theorem shape_advanceAxis (wf : i.WellFormed) (reads : leading i.opcode < i.operands.length)
    (computes : i.opcode.isSystem = false) (axis : Nat) :
    (i.advanceAxis axis).shape = i.shape.modify axis (· - 1) := by
  obtain ⟨v, hv⟩ : ∃ v, i.operands[leading i.opcode]? = some v :=
    ⟨_, List.getElem?_eq_getElem reads⟩
  have own : i.operandAxis? (leading i.opcode) axis =
      if v.isConstant = true then none else if axis < v.ndim then some axis else none := by
    simp only [operandAxis?, hv, isIndirect_leading, Bool.or_false, i.leading_notFold, if_false]
  rw [shape_eq_leading reads computes, shape_eq_leading (i := i.advanceAxis axis)
    (by simpa [advanceAxis, alongAxis] using reads) computes, hv, Option.map_some, Option.getD_some]
  simp only [advanceAxis, getElem?_alongAxis, hv, own, Option.map_some, Option.getD_some]
  by_cases constant : v.isConstant = true
  · have empty : v.shape = [] := by
      rw [View.shape, (wf v (List.mem_of_getElem? hv)).scalar constant]
      rfl
    simp [constant, empty]
  by_cases inside : axis < v.ndim
  · simpa [constant, inside] using View.shape_advanceAxis v axis
  · have outside : v.shape.length ≤ axis := by
      rw [View.length_shape]
      exact Nat.not_lt.mp inside
    simp [constant, inside, List.modify_eq_self outside]

/-! ## Where sliced and advanced instructions access their operands -/

/-- At each of its positions, the first instruction accesses the operand where the second one does
at the image of the position. -/
def Follows (j i : Instruction) (k : Nat) (image : List Int → List Int) : Prop :=
  ∀ (p : List Int) (ts ts' : Turns), InRange j.shape p → ts.At p → ts'.At (image p) →
    j.offset ts k = i.offset ts' k

theorem index_insertIdx {p : List Int} {ts ts' : Turns} (at_p : ts.At p)
    (at_q : ts'.At (p.insertIdx axis index)) (inside : axis ≤ p.length) :
    ts'.index axis = index ∧ ∀ b < p.length, ts'.index (skip axis b) = ts.index b := by
  constructor
  · refine at_q.index axis index ?_
    rw [List.getElem?_insertIdx, if_neg (Nat.lt_irrefl _), if_pos rfl, if_pos inside]
  · intro b hb
    have there : p[b]? = some p[b] := List.getElem?_eq_getElem hb
    refine (at_q.index _ _ ?_).trans (at_p.index b _ there).symm
    rw [List.getElem?_insertIdx]
    unfold skip
    split
    next => exact there
    next behind => rw [if_neg (by omega), if_neg (by omega), Nat.add_sub_cancel, there]

theorem isSystem_of_inside (inside : axis < i.ndim) : i.opcode.isSystem = false := by
  by_contra system
  rw [ndim, shape] at inside
  simp [system] at inside

theorem index_modify {p : List Int} {ts ts' : Turns} (at_p : ts.At p)
    (at_q : ts'.At (p.modify axis (· + 1))) (inside : axis < p.length) :
    ts'.index axis = ts.index axis + 1 ∧
      ∀ b < p.length, b ≠ axis → ts'.index b = ts.index b := by
  constructor
  · have there : p[axis]? = some p[axis] := List.getElem?_eq_getElem inside
    rw [at_p.index axis _ there]
    refine at_q.index axis _ ?_
    simp [there]
  · intro b hb apart
    have there : p[b]? = some p[b] := List.getElem?_eq_getElem hb
    refine (at_q.index b _ ?_).trans (at_p.index b _ there).symm
    simp [there, Ne.symm apart]

section Follows

variable (fit : i.ShapesFit) (inside : axis < i.ndim) (index : Int)

include fit inside

/-- Where nothing keeps a folded axis, a sliced instruction follows the whole one. -/
theorem follows_sliceAxis (wf : i.WellFormed)
    (axes : (i.sliceAxis axis index).ndim + 1 = i.ndim ∨ (i.sliceAxis axis index).ndim = i.ndim)
    (few : i.sweepAxis? = some axis → k < 2) (lost : k = 0 → ¬ i.KeepsAxis axis) :
    (i.sliceAxis axis index).Follows i k (·.insertIdx axis index) := by
  intro p ts ts' range at_p at_q
  have length : p.length = (i.sliceAxis axis index).ndim := range.length_eq
  obtain ⟨here, others⟩ := index_insertIdx at_p at_q (by omega)
  exact offset_sliceAxis fit wf inside index axes here (fun b hb => others b (by omega)) few lost

variable (keeps : i.KeepsAxis axis) (shape : (i.sliceAxis axis index).shape = i.shape.set axis 1)
  (array : ∀ out ∈ i.operands[0]?, out.isConstant = false)

include keeps shape array

/-- An axis that was kept has a single index. -/
theorem follows_kept : (i.sliceAxis axis index).Follows i 0 id := by
  intro p ts ts' range at_p at_q
  have axes : (i.sliceAxis axis index).ndim = i.ndim := by
    rw [ndim, shape, List.length_set, ndim]
  have length : p.length = i.ndim := range.length_eq.trans axes
  have there : p[axis]? = some p[axis] := List.getElem?_eq_getElem (by omega)
  have zero : ts.index axis = 0 := by
    obtain ⟨nonneg, n, size, less⟩ := range.bounds there
    rw [shape, List.getElem?_set_self inside] at size
    have := Option.some.inj size
    rw [at_p.index axis _ there]
    omega
  exact (offset_kept fit keeps index axes zero array).trans (offset_congr at_q at_p length 0)

theorem follows_kept_last (last : axis + 1 = i.ndim) :
    (i.sliceAxis axis index).Follows i 0 (·.insertIdx axis index) := by
  intro p ts ts' range at_p at_q
  have axes : (i.sliceAxis axis index).ndim = i.ndim := by
    rw [ndim, shape, List.length_set, ndim]
  have length : p.length = i.ndim := range.length_eq.trans axes
  obtain ⟨-, others⟩ := index_insertIdx at_p at_q (by omega)
  have still := (strideAt_kept fit keeps index array).1
  refine (follows_kept fit inside index keeps shape array p ts ts range at_p at_p).trans ?_
  rw [offset_eq_sum, offset_eq_sum]
  congr 2
  refine List.map_congr_left fun b hb => ?_
  have within := List.mem_range.mp hb
  by_cases same : b = axis
  · rw [same, still, Int.mul_zero, Int.mul_zero]
  · have before : b < axis := by omega
    have kept : ts'.index b = ts.index b := by
      have := others b (by omega)
      rwa [skip, if_pos before] at this
    rw [kept]

end Follows

theorem follows_advanceAxis (inside : axis < i.ndim) (k : Nat) :
    (i.advanceAxis axis).Follows i k (·.modify axis (· + 1)) := by
  intro p ts ts' range at_p at_q
  have length : p.length = i.ndim := range.length_eq.trans (ndim_advanceAxis i axis)
  obtain ⟨next, same⟩ := index_modify at_p at_q (by omega)
  exact offset_advanceAxis inside next (fun b hb apart => same b (by omega) apart) k

/-- Slicing an axis leaves the positions of the other axes, where each operand is accessed as with
the index put back in, and advancing an axis leaves the positions of one index fewer, where each
operand is accessed one step further. In the copy that a fold over the axis becomes, an output that
keeps the axis is an exception: the copy has all the axes, and the output is accessed at its
position as it is, while the input is accessed with the index put in. Both agree if the axis is
the last one. -/
theorem follows_sliced_advanced (fit : i.ShapesFit) (wf : i.WellFormed)
    (reads : leading i.opcode < i.operands.length) (inside : axis < i.ndim)
    (writes : i.sweepAxis? = some axis → ∀ out ∈ i.operands[0]?, out.isConstant = false)
    (index : Int) :
    (¬ i.KeepsAxis axis → (i.sliceAxis axis index).shape = i.shape.eraseIdx axis ∧
      ∀ k, (i.sweepAxis? = some axis → k < 2) →
        (i.sliceAxis axis index).Follows i k (·.insertIdx axis index)) ∧
    (i.KeepsAxis axis → (i.sliceAxis axis index).shape = i.shape.set axis 1 ∧
      (i.sliceAxis axis index).Follows i 1 (·.insertIdx axis index) ∧
      (i.sliceAxis axis index).Follows i 0 id ∧
      (axis + 1 = i.ndim → (i.sliceAxis axis index).Follows i 0 (·.insertIdx axis index))) ∧
    (i.advanceAxis axis).shape = i.shape.modify axis (· - 1) ∧
      ∀ k, (i.advanceAxis axis).Follows i k (·.modify axis (· + 1)) := by
  have computes := isSystem_of_inside inside
  refine ⟨fun lost => ?_, fun keeps => ?_, shape_advanceAxis wf reads computes axis,
    follows_advanceAxis inside⟩
  · have shape : (i.sliceAxis axis index).shape = i.shape.eraseIdx axis := by
      by_cases along : i.sweepAxis? = some axis
      · exact (shape_sliceAxis_of_eq fit along index (writes along)).1 lost
      · exact shape_sliceAxis_of_ne fit wf reads computes along index
    have axes : (i.sliceAxis axis index).ndim + 1 = i.ndim := by
      have shorter := List.length_eraseIdx_of_lt inside
      rw [← shape] at shorter
      have positive : 0 < i.ndim := by omega
      rw [ndim, shorter]
      exact Nat.sub_add_cancel positive
    exact ⟨shape, fun k few =>
      follows_sliceAxis fit inside index wf (.inl axes) few fun _ => lost⟩
  · obtain ⟨-, along, -⟩ := id keeps
    have array := writes along
    have shape := (shape_sliceAxis_of_eq fit along index array).2 keeps
    have axes : (i.sliceAxis axis index).ndim = i.ndim := by
      rw [ndim, shape, List.length_set, ndim]
    refine ⟨shape, ?_, follows_kept fit inside index keeps shape array,
      follows_kept_last fit inside index keeps shape array⟩
    exact follows_sliceAxis fit inside index wf (.inr axes) (fun _ => Nat.one_lt_two)
      fun first => absurd first Nat.one_ne_zero

/-- Sums of the columns of three rows, with the axis of the rows kept in the output. -/
def columnSums : Instruction where
  opcode := .reduce .add
  operands := [{ base := some 0, dtype := .int64, axes := [⟨1, 2⟩, ⟨2, 1⟩] },
    { base := some 1, dtype := .int64, axes := [⟨3, 2⟩, ⟨2, 1⟩] }]
  constant := some (.int64 0)

/-- The second column alone is summed as it was, and without the first row there is one row fewer.
The copy of the first row is out of step: it writes the sums at its position `[0, c]`, and reads the
row where the sums read it at `[0, 0, c]`, thus at its first element. -/
theorem follows_sliced_advanced_columnSums :
    ((columnSums.sliceAxis 1 1).shape = [3] ∧
      ∀ k, (columnSums.sliceAxis 1 1).Follows columnSums k (·.insertIdx 1 1)) ∧
    ((columnSums.sliceAxis 0 0).shape = [1, 2] ∧
      (columnSums.sliceAxis 0 0).Follows columnSums 1 (·.insertIdx 0 0) ∧
      (columnSums.sliceAxis 0 0).Follows columnSums 0 id) ∧
    (columnSums.advanceAxis 0).shape = [2, 2] := by
  have fit : columnSums.ShapesFit := by decide
  have wf : columnSums.WellFormed := by decide
  have reads : leading columnSums.opcode < columnSums.operands.length := by decide
  have rows : 0 < columnSums.ndim := by decide
  have columns : 1 < columnSums.ndim := by decide
  have keeps : columnSums.KeepsAxis 0 := ⟨rfl, rfl, _, rfl, rfl⟩
  have lost : ¬ columnSums.KeepsAxis 1 := fun other => absurd other.2.1 (by decide)
  obtain ⟨-, sums, fewer, -⟩ := follows_sliced_advanced fit wf reads rows (by decide) 0
  obtain ⟨alone, -⟩ := follows_sliced_advanced fit wf reads columns (by decide) 1
  obtain ⟨shape, input, output, -⟩ := sums keeps
  exact ⟨⟨(alone lost).1, fun k => (alone lost).2 k fun along => absurd along (by decide)⟩,
    ⟨shape, input, output⟩, fewer⟩

example : (columnSums.sliceAxis 0 0).offset [⟨0, true⟩, ⟨1, false⟩] 0 = 1 ∧
    (columnSums.sliceAxis 0 0).offset [⟨0, true⟩, ⟨1, false⟩] 1 = 0 := by decide

end Instruction

end ArrayFusion
