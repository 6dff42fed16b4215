import ArrayFusion.Instruction.Edit
import ArrayFusion.Proofs.Eval.Position

/-!
# Strides of operands

The offset of an operand is its start plus index times stride over the loops around its instruction.
What an instruction does depends on these offsets, so that an instruction with operands elsewhere
acts alike where they have the same offsets.
-/

namespace ArrayFusion.Instruction

variable {i j : Instruction} {ts ts' : Turns} {k axis : Nat}

/-! ## Offsets as sums -/

/-- Distance in its base that an operand moves per step along an axis of the positions. -/
def strideAt (i : Instruction) (k axis : Nat) : Int :=
  ((i.operands[k]?.bind fun v => (i.operandAxis? k axis).bind (v.axes[·]?)).map (·.stride)).getD 0

theorem offset_eq_sum (i : Instruction) (ts : Turns) (k : Nat) : i.offset ts k =
    i.startOf k + ((List.range i.ndim).map fun axis => ts.index axis * i.strideAt k axis).sum := by
  cases hv : i.operands[k]? with
  | none => simp [offset, startOf, strideAt, hv]
  | some v =>
      have step : ∀ (n : Nat), (List.range n).foldl (fun sum axis =>
          sum + (((i.operandAxis? k axis).bind (v.axes[·]?)).map fun a =>
            ts.index axis * a.stride).getD 0) v.start =
          v.start + ((List.range n).map fun axis => ts.index axis * i.strideAt k axis).sum := by
        intro n
        induction n with
        | zero => simp
        | succ n ih =>
            have stride : i.strideAt k n =
                (((i.operandAxis? k n).bind (v.axes[·]?)).map (·.stride)).getD 0 := by
              rw [strideAt, hv, Option.bind_some]
            rw [List.range_succ, List.foldl_append, ih, List.map_append, List.sum_append]
            simp only [List.foldl_cons, List.foldl_nil, List.map_cons, List.map_nil,
              List.sum_singleton, stride]
            cases (i.operandAxis? k n).bind (v.axes[·]?) with
            | none => simp
            | some a => simp [Int.add_assoc]
      have start : i.startOf k = v.start := by rw [startOf, hv]; rfl
      rw [offset_eq_foldl hv, start]
      exact step i.ndim

/-- Without loops, and at the first index of a single one, operands are accessed at their start. -/
theorem offset_of_index_eq_zero (zero : ∀ axis, ts.index axis = 0) (k : Nat) :
    i.offset ts k = i.startOf k := by
  simp [offset_eq_sum, zero]

/-! ## Strides of the operands -/

/-- An operand that is a constant or addressed by values does not move. -/
theorem strideAt_still {v : View} (hv : i.operands[k]? = some v)
    (still : (v.isConstant || i.isIndirect k) = true) (axis : Nat) : i.strideAt k axis = 0 := by
  simp only [strideAt, hv, Option.bind_some, operandAxis?, still, if_true]
  rfl

/-- Other operands follow their own axes. -/
theorem followed_direct {v : View} (hv : i.operands[k]? = some v)
    (moves : (v.isConstant || i.isIndirect k) = false)
    (notFold : ¬ (k = 0 ∧ i.opcode.isReduction = true)) (axis : Nat) :
    (i.operandAxis? k axis).bind (v.axes[·]?) = v.axes[axis]? := by
  simp only [operandAxis?, hv, moves, Bool.false_eq_true, if_false, notFold]
  split
  · rfl
  next outside => rw [List.getElem?_eq_none (by rw [View.ndim] at outside; omega)]; rfl

theorem strideAt_direct {v : View} (hv : i.operands[k]? = some v)
    (moves : (v.isConstant || i.isIndirect k) = false)
    (notFold : ¬ (k = 0 ∧ i.opcode.isReduction = true)) (axis : Nat) :
    i.strideAt k axis = v.strides[axis]?.getD 0 := by
  rw [strideAt, hv, Option.bind_some, followed_direct hv moves notFold, View.strides,
    List.getElem?_map]

/-- The output of a fold stands still along the axis of the fold. If it lacks this axis, the axes
behind it come one place earlier. -/
theorem strideAt_fold {v : View} (hv : i.operands[0]? = some v) (array : v.isConstant = false)
    (reduction : i.opcode.isReduction = true) {s : Nat} (along : i.sweepAxis? = some s)
    (axis : Nat) : i.strideAt 0 axis =
      if axis = s then 0
      else if v.ndim + 1 = (i.operands[1]?.map (·.ndim)).getD 0 ∧ s < axis then
        v.strides[axis - 1]?.getD 0
      else v.strides[axis]?.getD 0 := by
  have direct := isIndirect_of_isSweep (isSweep_of_isReduction reduction) 0
  have outside : ∀ axis, ¬ axis < v.ndim → v.axes[axis]? = none := fun axis outside =>
    List.getElem?_eq_none (by rw [View.ndim] at outside; omega)
  simp only [strideAt, hv, Option.bind_some, operandAxis?, array, direct, Bool.or_self,
    Bool.false_eq_true, if_false, reduction, along, and_self, if_true, View.strides,
    List.getElem?_map]
  split
  · rfl
  · split
    · rfl
    · split
      · rfl
      next behind => rw [outside axis behind]; rfl

/-! ## Operands that lie elsewhere -/

/-- The operands lie elsewhere in the same bases, and nothing else is different but the axis of a
fold or scan. -/
structure Moved (i j : Instruction) : Prop where
  opcode : j.opcode = i.opcode
  constant : i.opcode.isSweep = false → j.constant = i.constant
  operands : List.Forall₂ (fun v w => w.base = v.base ∧ w.dtype = v.dtype) i.operands j.operands

namespace Moved

theorem operandType? (h : Moved i j) (k : Nat) : j.operandType? k = i.operandType? k := by
  have operand := forall₂_getElem? h.operands k
  rw [Instruction.operandType?, Instruction.operandType?, h.opcode]
  generalize i.operands[k]? = v at operand
  generalize j.operands[k]? = w at operand
  cases operand with
  | none => rfl
  | @some v w same =>
      obtain ⟨base, dtype⟩ := same
      simp only [Option.map_some, base, dtype]
      cases sweep : i.opcode.isSweep with
      | false => rw [h.constant sweep]
      | true => cases v.base <;> cases i.constant <;> cases j.constant <;> rfl

theorem outputBase? (h : Moved i j) : j.outputBase? = i.outputBase? := by
  have operand := forall₂_getElem? h.operands 0
  rw [Instruction.outputBase?, Instruction.outputBase?, List.head?_eq_getElem?,
    List.head?_eq_getElem?]
  generalize i.operands[0]? = v at operand
  generalize j.operands[0]? = w at operand
  cases operand with
  | none => rfl
  | some same => exact same.1

theorem isEvaluable (h : Moved i j) : j.isEvaluable = i.isEvaluable := by
  have mapped := map_eq_of_forall₂ (f := fun v => v.isConstant || v.dtype.isEvaluable)
    (g := fun v => v.isConstant || v.dtype.isEvaluable) h.operands
    fun v w same => by rw [View.isConstant, View.isConstant, same.1, same.2]
  have all := congrArg (List.all · id) mapped
  have empty : j.operands.isEmpty = i.operands.isEmpty := by
    rw [Bool.eq_iff_iff, List.isEmpty_iff_length_eq_zero, List.isEmpty_iff_length_eq_zero,
      h.operands.length_eq]
  rw [Instruction.isEvaluable, Instruction.isEvaluable, h.opcode, empty]
  simpa [List.all_map, Function.comp_def] using congrArg (_ && ·) all

theorem toOption_load (h : Moved i j) (a : Arena) (k : Nat) (x : Int) :
    (j.load a k x).toOption = (i.load a k x).toOption := by
  have operand := forall₂_getElem? h.operands k
  rw [Instruction.toOption_load, Instruction.toOption_load, h.opcode]
  generalize i.operands[k]? = v at operand
  generalize j.operands[k]? = w at operand
  cases operand with
  | none => rfl
  | @some v w same =>
      simp only [Option.bind_some, same.1]
      cases sweep : i.opcode.isSweep with
      | false => rw [h.constant sweep]
      | true => rfl

/-- An instruction acts as before if its operands are accessed where they were and it sees the same
number of its position. -/
theorem act_eq_of_flatIndex (h : Moved i j)
    (number : i.isPositionDependent = true → j.flatIndex ts' = i.flatIndex ts)
    (offset : ∀ k, j.offset ts' k = i.offset ts k)
    (starts : ∀ k, i.isIndirect k = true → j.startOf k = i.startOf k)
    (unswept : i.sweepAxis? = none → j.sweepAxis? = none)
    (swept : ∀ s, i.sweepAxis? = some s → ∃ s', j.sweepAxis? = some s' ∧
      ts'.isOpening s' = ts.isOpening s ∧
        ∀ k, j.offset (stepBack ts' s') k = i.offset (stepBack ts s) k) :
    j.act ts' = i.act ts := by
  refine act_eq_of_finds fun a => {
    opcode := h.opcode
    random := fun random => h.constant (by rw [random]; rfl)
    evaluable := h.isEvaluable
    count := h.operands.length_eq.symm
    types := h.operandType?
    output := h.outputBase?
    offset := offset 0
    starts := starts
    number := number
    loads := fun k _ => by rw [loadAt, loadAt, offset, h.toOption_load]
    anywhere := fun k _ x => h.toOption_load a k x
    unswept := unswept
    swept := fun s axis => ?_ }
  obtain ⟨s', axis', opening, back⟩ := swept s axis
  exact ⟨s', axis', opening, fun _ _ => by rw [loadAt, loadAt, back, h.toOption_load]⟩

/-- An instruction that does not see its position acts as before if its operands are accessed where
they were. -/
theorem act_eq (h : Moved i j) (plain : i.isPositionDependent = false)
    (offset : ∀ k, j.offset ts' k = i.offset ts k)
    (starts : ∀ k, i.isIndirect k = true → j.startOf k = i.startOf k)
    (unswept : i.sweepAxis? = none → j.sweepAxis? = none)
    (swept : ∀ s, i.sweepAxis? = some s → ∃ s', j.sweepAxis? = some s' ∧
      ts'.isOpening s' = ts.isOpening s ∧
        ∀ k, j.offset (stepBack ts' s') k = i.offset (stepBack ts s) k) :
    j.act ts' = i.act ts :=
  h.act_eq_of_flatIndex (fun dependent => absurd dependent (by simp [plain])) offset starts unswept
    swept

end Moved

/-! ## Operands along an axis -/

theorem getElem?_alongAxis (i : Instruction) (axis : Nat) (f : View → Nat → View) (k : Nat) :
    (i.alongAxis axis f)[k]? = i.operands[k]?.map fun v =>
      match i.operandAxis? k axis with
      | some a => f v a
      | none => v :=
  List.getElem?_mapIdx ..

theorem forall₂_alongAxis {R : View → View → Prop} (i : Instruction) (axis : Nat)
    (f : View → Nat → View) (same : ∀ v, R v v) (changed : ∀ v a, R v (f v a)) :
    List.Forall₂ R i.operands (i.alongAxis axis f) := by
  refine List.forall₂_iff_get.mpr ⟨by simp [alongAxis], fun k hk hk' => ?_⟩
  simp only [alongAxis, List.get_eq_getElem, List.getElem_mapIdx]
  split
  · exact changed _ _
  · exact same _

/-- An operand follows the axes that it followed before, if the numbers of axes stay. -/
theorem operandAxis?_congr (opcode : j.opcode = i.opcode) (sweep : j.sweepAxis? = i.sweepAxis?)
    (operands : List.Forall₂ (fun v w => w.isConstant = v.isConstant ∧ w.ndim = v.ndim) i.operands
      j.operands) (k axis : Nat) : j.operandAxis? k axis = i.operandAxis? k axis := by
  have operand := forall₂_getElem? operands k
  have input := forall₂_getElem? operands 1
  have inputAxes : (j.operands[1]?.map (·.ndim)).getD 0 = (i.operands[1]?.map (·.ndim)).getD 0 := by
    generalize i.operands[1]? = v at input
    generalize j.operands[1]? = w at input
    cases input with
    | none => rfl
    | some same => simp [same.2]
  rw [operandAxis?, operandAxis?]
  generalize i.operands[k]? = v at operand
  generalize j.operands[k]? = w at operand
  cases operand with
  | none => rfl
  | @some v w same => simp only [isIndirect, opcode, sweep, inputAxes, same.1, same.2]

theorem ndim_congr (opcode : j.opcode = i.opcode)
    (operands : List.Forall₂ (fun v w => w.ndim = v.ndim) i.operands j.operands) :
    j.ndim = i.ndim := by
  obtain ⟨op, vs, constant, creates⟩ := i
  obtain ⟨op', ws, constant', creates'⟩ := j
  obtain rfl : op' = op := opcode
  simp only at operands
  rw [ndim, ndim]
  cases operands with
  | nil => rfl
  | cons first rest =>
      cases rest with
      | nil => cases op' <;> simp [shape, View.length_shape, first, Opcode.isSystem]
      | cons second rest =>
          cases op' <;> simp [shape, View.length_shape, first, second, Opcode.isSystem]

/-- Past the axes of the positions, operands do not move. -/
theorem ShapesFit.strideAt_eq_zero (fit : i.ShapesFit) (outside : i.ndim ≤ axis) :
    i.strideAt k axis = 0 := by
  cases hv : i.operands[k]? with
  | none => simp [strideAt, hv]
  | some v =>
  have beyond : ∀ axis, v.shape.length ≤ axis → v.strides[axis]?.getD 0 = 0 := by
    intro axis outside
    rw [List.getElem?_eq_none (by simpa [View.strides, View.shape] using outside)]
    rfl
  cases moves : v.isConstant || i.isIndirect k with
  | true => exact strideAt_still hv moves axis
  | false =>
  obtain ⟨array, direct⟩ := Bool.or_eq_false_iff.mp moves
  by_cases fold : k = 0 ∧ i.opcode.isReduction = true
  · obtain ⟨rfl, reduction⟩ := fold
    obtain ⟨s, along, inside, input⟩ := fit.sweepAxis (isSweep_of_isReduction reduction)
    have few : v.shape.length ≤ i.ndim := by
      rcases fit.folded reduction s along v hv array with removed | kept
      · rw [removed]
        exact List.length_eraseIdx_le ..
      · rw [kept, List.length_set]
        exact Nat.le_refl _
    have length := v.length_shape
    rw [strideAt_fold hv array reduction along, input]
    split
    · rfl
    · split
      · exact beyond _ (by omega)
      · exact beyond _ (by omega)
  · have shape := fit.direct (v, k) (List.mem_zipIdx_iff_getElem?.mpr hv) array direct fold
    rw [strideAt_direct hv moves fold]
    exact beyond _ (by rwa [shape])

end ArrayFusion.Instruction
