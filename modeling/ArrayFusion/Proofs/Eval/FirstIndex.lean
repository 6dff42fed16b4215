import Mathlib.Data.Nat.PSub
import ArrayFusion.Proofs.Eval.Slicing

/-!
# Instructions with and without the first index of an axis

Peeling fixes the first index of the outermost axis in one copy of an instruction, and leaves this
index out of another copy. The copies access what the instruction accesses at the first index and
one index later. They compute the same from it: a fold or scan along the axis opens at its first
index, and there it is a copy.
-/

namespace ArrayFusion.Instruction

variable {i : Instruction} {ts : Turns} {k axis : Nat}

/-! ## All indices but the first -/

/-- Without its first index, an instruction does what it did one index later. -/
theorem act_advanceAxis (fit : i.ShapesFit) (plain : i.isPositionDependent = false) (x : Int)
    (o : Bool) (ts : Turns) :
    (i.advanceAxis 0).act (⟨x, o⟩ :: ts) = i.act (⟨x + 1, o⟩ :: ts) := by
  have offset : ∀ (x : Int) (o : Bool) (ts : Turns) (k : Nat),
      (i.advanceAxis 0).offset (⟨x, o⟩ :: ts) k = i.offset (⟨x + 1, o⟩ :: ts) k := by
    intro x o ts k
    rcases Nat.eq_zero_or_pos i.ndim with none | inside
    · rw [offset_eq_sum, offset_eq_sum, ndim_advanceAxis, none, startOf_advanceAxis,
        fit.strideAt_eq_zero (by omega)]
      simp
    · refine offset_advanceAxis inside rfl (fun b _ later => ?_) k
      cases b with
      | zero => contradiction
      | succ b => rfl
  refine (moved_advanceAxis i 0).act_eq plain (offset x o ts) (fun k indirect => ?_) id
    fun s axis => ⟨s, axis, ?_, fun k => ?_⟩
  · have still : i.strideAt k 0 = 0 := by
      rw [strideAt]
      cases hv : i.operands[k]? with
      | none => rfl
      | some v => simp [operandAxis?, hv, indirect]
    rw [startOf_advanceAxis, still, Int.add_zero]
  · cases s <;> rfl
  · cases s with
    | zero =>
        have back : x - 1 + 1 = x + 1 - 1 := by omega
        exact (offset (x - 1) o ts k).trans (by rw [back]; rfl)
    | succ s => exact offset x o _ k

/-! ## The first index alone -/

theorem leading_lt_arity {op : Opcode} (computes : op.isSystem = false) : leading op < op.arity := by
  cases op <;> simp_all [leading, Opcode.arity, Opcode.isSystem]

section Slice

variable (fit : i.ShapesFit)

include fit

/-- A fold or scan loses its axis if this is the first one, and otherwise finds it one place
earlier. -/
theorem sweepAxis?_sliceAxis_zero (wf : i.WellFormed) :
    (i.sliceAxis 0 0).sweepAxis? = i.sweepAxis?.bind Nat.ppred := by
  rw [sweepAxis?_sliceAxis fit wf]
  cases i.sweepAxis? with
  | none => rfl
  | some s =>
      cases s with
      | zero => rfl
      | succ s => simp

/-- At the first index of its outermost axis, an instruction has the positions of the other axes. -/
theorem shape_sliceAxis_zero (wf : i.WellFormed) (arity : i.operands.length = i.opcode.arity)
    (computes : i.opcode.isSystem = false)
    (array : ∀ out ∈ i.operands[0]?, out.isConstant = false)
    (lost : i.opcode.isReduction = true → i.sweepAxis? = some 0 →
      ∀ out ∈ i.operands[0]?, out.ndim < i.ndim) :
    (i.sliceAxis 0 0).shape = i.shape.tail := by
  rw [← List.eraseIdx_zero]
  by_cases along : i.sweepAxis? = some 0
  · refine (shape_sliceAxis_of_eq fit along 0 array).1 ?_
    rintro ⟨reduction, -, out, hout, same⟩
    exact absurd same (Nat.ne_of_lt (lost reduction along out hout))
  · exact shape_sliceAxis_of_ne fit wf (arity ▸ leading_lt_arity computes) computes along 0

/-- If the copy of a fold has the positions of the other axes, the output of the fold lacks its
axis. -/
theorem not_keepsAxis (shape : (i.sliceAxis 0 0).shape = i.shape.tail) (inside : 0 < i.ndim) :
    ¬ i.KeepsAxis 0 := by
  rintro ⟨reduction, along, v, hv, same⟩
  have positions : (i.sliceAxis 0 0).shape = v.shape := by
    obtain ⟨w, hw, ⟨-, rfl⟩ | ⟨moves, -⟩⟩ := operand_alongAxis fit hv 0 0
    · rw [sliceAxis_of_eq along, shape_of_isElementwise rfl, List.head?_eq_getElem?,
        List.getElem?_take_of_lt Nat.zero_lt_two, hw]
      rfl
    · exact absurd (.inr ⟨rfl, reduction, along⟩) moves
  have lengths := congrArg List.length (positions.symm.trans shape)
  rw [View.length_shape, List.length_tail, same, ndim] at lengths
  rw [ndim] at inside
  omega

omit fit in
/-- At the first index of their axis, operands are accessed where they start. -/
theorem startOf_sliceAxis_zero {k : Nat} (few : i.sweepAxis? = some 0 → k < 2) :
    (i.sliceAxis 0 0).startOf k = i.startOf k := by
  rw [startOf_sliceAxis few, Int.zero_mul, Int.add_zero]

/-- Over the axes behind the first one, operands are accessed as at its first index. -/
theorem offset_sliceAxis_zero (wf : i.WellFormed) (inside : 0 < i.ndim)
    (shape : (i.sliceAxis 0 0).shape = i.shape.tail) {k : Nat}
    (few : i.sweepAxis? = some 0 → k < 2) (opening : Bool) (ts : Turns) :
    (i.sliceAxis 0 0).offset ts k = i.offset (⟨0, opening⟩ :: ts) k := by
  have axes : (i.sliceAxis 0 0).ndim + 1 = i.ndim := by
    rw [Instruction.ndim, shape, List.length_tail]
    exact Nat.sub_add_cancel inside
  exact offset_sliceAxis fit wf inside 0 (.inl axes) rfl (fun _ _ => rfl) few fun _ =>
    not_keepsAxis fit shape inside

end Slice

/-! ## What folds, scans and copies compute -/

/-- In the opening iteration of its axis, a fold or scan writes its input. -/
theorem effect?_opening (along : i.sweepAxis? = some axis) (opening : ts.isOpening axis = true)
    (evaluable : i.isEvaluable = true) (a : Arena) :
    (i.effect? a ts).toOption = (i.loadAt a ts 1).toOption.bind fun input =>
      (Scalar.unary .identity i.outType i.inType input).bind fun value =>
        (i.writeTo (i.offset ts 0) value).toOption.map some := by
  have value : ∀ op, (i.sweepValue op a ts).toOption = (i.loadAt a ts 1).toOption.bind
      (Scalar.unary .identity i.outType i.inType) := by
    intro op
    simp only [sweepValue, along, opening, if_true, toOption_bind, toOption_require]
  have sweep := isSweep_of_sweepAxis? along
  rw [effect?]
  cases op : i.opcode with
  | reduce f | accumulate f =>
      simp only [Opcode.isSystem, evaluable, Bool.false_eq_true, if_false, Bool.not_true,
        toOption_bind, value, Option.bind_assoc, toOption_pure, Option.map_eq_bind]
      rfl
  | _ => simp [op, Opcode.isSweep] at sweep

/-- A copy writes its input. -/
theorem effect?_copy (copy : i.opcode = .unary .identity) (count : i.operands.length = 2)
    (evaluable : i.isEvaluable = true) (ts : Turns) (a : Arena) :
    (i.effect? a ts).toOption = (i.loadAt a ts 1).toOption.bind fun input =>
      (Scalar.unary .identity i.outType i.inType input).bind fun value =>
        (i.writeTo (i.offset ts 0) value).toOption.map some := by
  simp only [effect?, copy, Opcode.isSystem, evaluable, Bool.false_eq_true, if_false,
    Bool.not_true, toOption_bind, elementValue, count, if_true, toOption_require,
    Option.bind_assoc, toOption_pure, Option.map_eq_bind]
  rfl

/-- Operands at the first index lie in the same bases. A copy keeps two of them. -/
theorem operand_sliceAxis (i : Instruction) {k : Nat} (few : i.sweepAxis? = some 0 → k < 2) :
    Option.Rel (fun v w => w.base = v.base ∧ w.dtype = v.dtype) i.operands[k]?
      (i.sliceAxis 0 0).operands[k]? := by
  have same := forall₂_getElem? (forall₂_alongAxis i 0 (fun v a => v.fixAxis a 0)
    (R := fun v w => w.base = v.base ∧ w.dtype = v.dtype) (fun _ => ⟨rfl, rfl⟩) fun v a => ?_) k
  · rw [sliceAxis]
    split
    next along => simpa only [List.getElem?_take_of_lt (few along)] using same
    next => exact same
  · rw [View.fixAxis]
    split <;> exact ⟨rfl, rfl⟩

theorem outputBase?_sliceAxis (i : Instruction) :
    (i.sliceAxis 0 0).outputBase? = i.outputBase? := by
  have same := operand_sliceAxis i fun _ => Nat.zero_lt_two
  rw [outputBase?, outputBase?, List.head?_eq_getElem?, List.head?_eq_getElem?]
  generalize i.operands[0]? = v at same
  generalize (i.sliceAxis 0 0).operands[0]? = w at same
  cases same with
  | none => rfl
  | some same => exact same.1

/-- The copy of a fold or scan keeps the types of output and input. -/
theorem operandType?_sliceAxis_of_eq (along : i.sweepAxis? = some 0) (few : k < 2) :
    (i.sliceAxis 0 0).operandType? k = i.operandType? k := by
  have same := operand_sliceAxis i fun _ => few
  have constant : (i.sliceAxis 0 0).constant = none := by rw [sliceAxis_of_eq along]
  rw [operandType?, operandType?, constant]
  generalize i.operands[k]? = v at same
  generalize (i.sliceAxis 0 0).operands[k]? = w at same
  cases same with
  | none => rfl
  | @some v w same =>
      simp only [Option.map_some, same.1, same.2, isSweep_of_sweepAxis? along, if_true]
      cases v.base <;> cases i.constant <;> rfl

theorem length_operands_sliceAxis_of_eq (fit : i.ShapesFit) (along : i.sweepAxis? = some 0) :
    (i.sliceAxis 0 0).operands.length = 2 := by
  obtain ⟨s, -, input, hinput, -⟩ := fit.axis (isSweep_of_sweepAxis? along)
  have enough := (List.getElem?_eq_some_iff.mp hinput).1
  rw [sliceAxis_of_eq along]
  simp only [alongAxis, List.length_take, List.length_mapIdx]
  omega

theorem isEvaluable_sliceAxis_of_eq (fit : i.ShapesFit) (along : i.sweepAxis? = some 0)
    (evaluable : i.isEvaluable = true) : (i.sliceAxis 0 0).isEvaluable = true := by
  have opcode : (i.sliceAxis 0 0).opcode = .unary .identity := by rw [sliceAxis_of_eq along]
  have count := length_operands_sliceAxis_of_eq fit along
  simp only [isEvaluable, Bool.and_eq_true, List.all_eq_true] at evaluable ⊢
  refine ⟨⟨by rw [opcode]; rfl, by simp [← List.length_eq_zero_iff, count]⟩, fun w hw => ?_⟩
  obtain ⟨k, hk⟩ := List.getElem?_of_mem hw
  have few : k < 2 := count ▸ (List.getElem?_eq_some_iff.mp hk).1
  have same := operand_sliceAxis i fun _ => few
  rw [hk] at same
  generalize hv : i.operands[k]? = v at same
  cases same with
  | some same =>
      rw [View.isConstant, same.1, same.2]
      exact evaluable.2 _ (List.mem_of_getElem? hv)

/-- At the first index of the axis of a fold or scan, the copy does what the opening iteration
does. -/
theorem act_sliceAxis_of_eq (fit : i.ShapesFit) (along : i.sweepAxis? = some 0)
    (evaluable : i.isEvaluable = true)
    (offset : ∀ k < 2, (i.sliceAxis 0 0).offset ts k = i.offset (⟨0, true⟩ :: ts) k) :
    (i.sliceAxis 0 0).act ts = i.act (⟨0, true⟩ :: ts) := by
  have opcode : (i.sliceAxis 0 0).opcode = .unary .identity := by rw [sliceAxis_of_eq along]
  have constant : (i.sliceAxis 0 0).constant = none := by rw [sliceAxis_of_eq along]
  have load : ∀ a, ((i.sliceAxis 0 0).loadAt a ts 1).toOption =
      (i.loadAt a (⟨0, true⟩ :: ts) 1).toOption := by
    intro a
    have same := operand_sliceAxis i fun _ => Nat.one_lt_two
    rw [loadAt, loadAt, offset 1 Nat.one_lt_two, toOption_load, toOption_load, constant]
    generalize i.operands[1]? = v at same
    generalize (i.sliceAxis 0 0).operands[1]? = w at same
    cases same with
    | none => rfl
    | some same => simp [same.1, isSweep_of_sweepAxis? along]
  have write : ∀ x value, ((i.sliceAxis 0 0).writeTo x value).toOption =
      (i.writeTo x value).toOption := by
    intro x value
    rw [writeTo, writeTo, outputBase?_sliceAxis]
    cases i.outputBase? with
    | none => rfl
    | some b =>
        simp only
        split <;> rfl
  refine Action.ext fun a => ?_
  rw [run_act, run_act, effect?_opening along rfl evaluable, effect?_copy opcode
    (length_operands_sliceAxis_of_eq fit along) (isEvaluable_sliceAxis_of_eq fit along evaluable),
    load, offset 0 Nat.zero_lt_two]
  simp only [outType, inType, operandType?_sliceAxis_of_eq along Nat.zero_lt_two,
    operandType?_sliceAxis_of_eq along Nat.one_lt_two, write]

/-- At the first index of an axis that nothing folds along, the rest of the instruction does what
it did there. -/
theorem act_sliceAxis_of_ne (fit : i.ShapesFit) (wf : i.WellFormed)
    (plain : i.isPositionDependent = false) (other : i.sweepAxis? ≠ some 0)
    (offset : ∀ k, (i.sliceAxis 0 0).offset ts k = i.offset (⟨0, true⟩ :: ts) k)
    (back : ∀ s, i.sweepAxis? = some (s + 1) → ∀ k,
      (i.sliceAxis 0 0).offset (stepBack ts s) k = i.offset (⟨0, true⟩ :: stepBack ts s) k) :
    (i.sliceAxis 0 0).act ts = i.act (⟨0, true⟩ :: ts) := by
  have sliced := sliceAxis_of_ne other
  have moved : Moved i (i.sliceAxis 0 0) := by
    rw [sliced]
    refine ⟨rfl, fun still => ?_, forall₂_alongAxis i 0 (fun v a => v.fixAxis a 0)
      (fun _ => ⟨rfl, rfl⟩) fun v a => ?_⟩
    · simp [constantWithout, sweepAxis?, still]
    · rw [View.fixAxis]
      split <;> exact ⟨rfl, rfl⟩
  refine moved.act_eq plain offset (fun k _ => startOf_sliceAxis_zero fun along => ?_)
    (fun none => ?_) fun s along => ?_
  · exact absurd along other
  · rw [sweepAxis?_sliceAxis_zero fit wf, none]
    rfl
  · cases s with
    | zero => exact absurd along other
    | succ s => exact ⟨s, by rw [sweepAxis?_sliceAxis_zero fit wf, along]; rfl, rfl, back s along⟩

/-- At the first index of the outermost axis, an instruction with further axes does over these axes
what it did there. -/
theorem act_sliceAxis (fit : i.ShapesFit) (wf : i.WellFormed)
    (plain : i.isPositionDependent = false)
    (evaluable : i.sweepAxis? = some 0 → i.isEvaluable = true) (inside : 0 < i.ndim)
    (shape : (i.sliceAxis 0 0).shape = i.shape.tail) (ts : Turns) :
    (i.sliceAxis 0 0).act ts = i.act (⟨0, true⟩ :: ts) := by
  have offset := fun (ts : Turns) k few =>
    offset_sliceAxis_zero fit wf inside shape (k := k) few true ts
  by_cases along : i.sweepAxis? = some 0
  · exact act_sliceAxis_of_eq fit along (evaluable along) fun k few => offset ts k fun _ => few
  · exact act_sliceAxis_of_ne fit wf plain along (fun k => offset ts k fun h => absurd h along)
      fun s _ k => offset (stepBack ts s) k fun h => absurd h along

/-- At the first index of its only axis, an instruction does without loops what it did there. -/
theorem act_sliceAxis_nil (fit : i.ShapesFit) (wf : i.WellFormed)
    (plain : i.isPositionDependent = false)
    (evaluable : i.sweepAxis? = some 0 → i.isEvaluable = true) (shallow : i.ndim ≤ 1) :
    (i.sliceAxis 0 0).act [] = i.act [⟨0, true⟩] := by
  have offset : ∀ k, (i.sweepAxis? = some 0 → k < 2) →
      (i.sliceAxis 0 0).offset [] k = i.offset [⟨0, true⟩] k := by
    intro k few
    have zero : ∀ axis, Turns.index [⟨0, true⟩] axis = 0 := by
      intro axis
      cases axis <;> rfl
    rw [offset_of_index_eq_zero (fun _ => rfl), offset_of_index_eq_zero zero,
      startOf_sliceAxis_zero few]
  by_cases along : i.sweepAxis? = some 0
  · exact act_sliceAxis_of_eq fit along (evaluable along) fun k few => offset k fun _ => few
  · refine act_sliceAxis_of_ne fit wf plain along (fun k => offset k fun h => absurd h along)
      fun s along' => ?_
    obtain ⟨s', same, inside, -⟩ := fit.sweepAxis (isSweep_of_sweepAxis? along')
    cases along'.symm.trans same
    omega

end ArrayFusion.Instruction
