import ArrayFusion.Proofs.Eval.Sequential

/-!
# Reshaped statements act alike

A reshaped statement visits the same addresses in the same order, position by position, and computes
the same at each of them. So it acts like the statement that it came from.
-/

namespace ArrayFusion

open Shape View

namespace Shape

/-- The positions are numbered in their order. -/
theorem map_number_positions {shape : List Int} (sizes : ∀ n ∈ shape, 0 ≤ n) :
    (positions shape).map (number shape) =
      (List.range (elementCount shape).toNat).map fun n : Nat => (n : Int) := by
  induction shape with
  | nil => rfl
  | cons n shape ih =>
      have tail : ∀ m ∈ shape, 0 ≤ m := fun m hm => sizes m (by simp [hm])
      have count := elementCount_nonneg tail
      rw [elementCount_cons, Int.toNat_mul (sizes n (by simp)) count, range_mul, positions,
        List.map_flatMap, List.map_flatMap]
      refine List.flatMap_congr fun k _ => ?_
      have block : ∀ w, number (n :: shape) ((k : Int) :: w) =
          k * elementCount shape + number shape w := fun _ => rfl
      have inner := congrArg (List.map (k * elementCount shape + ·)) (ih tail)
      simp only [List.map_map, Function.comp_def, block] at inner ⊢
      rw [inner]
      refine List.map_congr_left fun m _ => ?_
      rw [Nat.cast_add, Nat.cast_mul, Int.toNat_of_nonneg count]

/-- The position with a number. -/
theorem number_getElem_positions {shape : List Int} (sizes : ∀ n ∈ shape, 0 ≤ n) {n : Nat}
    (inside : n < (positions shape).length) : number shape (positions shape)[n] = n := by
  have numbers := congrArg (·[n]?) (map_number_positions sizes)
  have inside' : n < (elementCount shape).toNat := length_positions sizes ▸ inside
  simpa [inside, inside'] using numbers

end Shape

namespace Instruction

variable {i j : Instruction} {p q : List Int}

/-- Operands of a reshaped instruction. -/
theorem operand_of_reshape (wf : i.WellFormed) (hshape : ∀ n ∈ j.shape, 0 ≤ n)
    (h : i.reshape j.shape = .ok j) (k : Nat) :
    Option.Rel (fun v w => Reshaped v w ∧
      (v.isConstant = true ∧ w = v ∨ v.isConstant = false ∧ v.shape = i.shape ∧ w.shape = j.shape))
      i.operands[k]? j.operands[k]? := by
  obtain ⟨reshapable, -, operands⟩ := operands_of_reshape h
  have related := forall₂_getElem? (similar_of_reshape wf hshape h).operands k
  have changed := forall₂_getElem? operands k
  rw [isReshapable, Bool.and_eq_true, List.all_eq_true] at reshapable
  generalize hv : i.operands[k]? = x at related changed
  generalize j.operands[k]? = y at related changed
  cases related with
  | none => exact .none
  | @some v w same =>
      cases changed with
      | some changed =>
          have member := List.mem_of_getElem? hv
          refine .some ⟨same, ?_⟩
          split at changed
          next constant => exact .inl ⟨constant, (Except.ok.inj changed).symm⟩
          next array =>
            rw [Bool.not_eq_true] at array
            have whole := reshapable.2 v member
            simp only [array, Bool.false_or, Bool.and_eq_true, beq_iff_eq] at whole
            exact .inr ⟨array, whole.1.1,
              (reshaped_of_toShape changed (wf v member) array hshape).2⟩

theorem sound_of_reshape (hi : i.Sound) (hshape : ∀ n ∈ j.shape, 0 ≤ n)
    (h : i.reshape j.shape = .ok j) : j.Sound := by
  have similar := similar_of_reshape hi.views hshape h
  have elementwise : j.opcode.isElementwise = true := by
    rw [similar.opcode]
    exact isElementwise_of_isReshapable (operands_of_reshape h).1
  refine sound_of_isElementwise elementwise similar.wellFormed fun w hw array => ?_
  obtain ⟨k, hk⟩ := List.getElem?_of_mem hw
  have operand := operand_of_reshape hi.views hshape h k
  rw [hk] at operand
  generalize i.operands[k]? = x at operand
  cases operand with
  | some related =>
      obtain ⟨same, ⟨constant, -⟩ | ⟨-, -, shape⟩⟩ := related
      · rw [← same.isConstant, array] at constant
        contradiction
      · exact shape

theorem writesOnce_of_similar (h : Similar i j) (once : i.WritesOnce) : j.WritesOnce := by
  intro w hw direct
  have hw : j.operands[0]? = some w := hw
  have operand := forall₂_getElem? h.operands 0
  rw [hw] at operand
  generalize hv : i.operands[0]? = x at operand
  cases operand with
  | some same =>
      rw [same.addresses]
      exact once _ hv (h.indistinct.isIndirect 0 ▸ direct)

/-- The address of an operand depends on the number of the position only. -/
theorem offset_of_reshape (hi : i.Sound) (hshape : ∀ n ∈ j.shape, 0 ≤ n)
    (h : i.reshape j.shape = .ok j) (rangeP : InRange i.shape p) (rangeQ : InRange j.shape q)
    (same : number j.shape q = number i.shape p) (k : Nat) :
    j.offset (j.turns q) k = i.offset (i.turns p) k := by
  have still : ∀ {i : Instruction} {ts : Turns} {v : View}, i.operands[k]? = some v →
      v.isConstant = true → i.offset ts k = v.start := by
    intro i ts v hv constant
    have none : ∀ axis, i.operandAxis? k axis = Option.none := by
      simp [operandAxis?, hv, constant]
    simp only [offset, hv, none, Option.bind_none]
    generalize i.ndim = n
    induction n with
    | zero => rfl
    | succ n ih => rw [List.range_succ, List.foldl_append, ih]; rfl
  have operand := operand_of_reshape hi.views hshape h k
  generalize hv : i.operands[k]? = x at operand
  generalize hw : j.operands[k]? = y at operand
  cases operand with
  | none => simp [offset, hv, hw]
  | @some v w related =>
      obtain ⟨reshaped, ⟨constant, rfl⟩ | ⟨array, shape, shape'⟩⟩ := related
      · rw [still hv constant, still hw constant]
      · have elementwise := isElementwise_of_isReshapable (operands_of_reshape h).1
        have similar := similar_of_reshape hi.views hshape h
        have direct := isIndirect_of_isElementwise elementwise
        have notFold : ¬ (k = 0 ∧ i.opcode.isReduction = true) := by
          simp [isReduction_eq_false (not_isSweep_of_isElementwise elementwise)]
        have array' : w.isConstant = false := reshaped.isConstant.trans array
        rw [offset_eq (i.standsAt_turns p).at_p rangeP.length_eq hv,
          offset_eq (j.standsAt_turns q).at_p rangeQ.length_eq hw,
          seenAxes_direct hv array (direct k) notFold shape,
          seenAxes_direct hw array' (similar.indistinct.isIndirect k ▸ direct k) (similar.opcode ▸ notFold)
            shape']
        have first := getElem?_addresses reshaped.before.sizes (shape ▸ rangeP)
        have second := getElem?_addresses reshaped.after.sizes (shape' ▸ rangeQ)
        rw [reshaped.addresses, shape', same, ← shape, first] at second
        exact (Option.some.inj second).symm

/-- At positions with one number, a reshaped instruction does what it did before. -/
theorem actAt_of_reshape (hi : i.Sound) (hshape : ∀ n ∈ j.shape, 0 ≤ n)
    (h : i.reshape j.shape = .ok j) (rangeP : InRange i.shape p) (rangeQ : InRange j.shape q)
    (same : number j.shape q = number i.shape p) : j.actAt q = i.actAt p := by
  have similar := similar_of_reshape hi.views hshape h
  have elementwise := isElementwise_of_isReshapable (operands_of_reshape h).1
  have notSweep : i.sweepAxis? = none := sweepAxis?_of_isElementwise elementwise
  have offsets := offset_of_reshape hi hshape h rangeP rangeQ same
  have loads : ∀ a k x, (j.load a k x).toOption = (i.load a k x).toOption := by
    intro a k x
    have operand := forall₂_getElem? similar.operands k
    rw [toOption_load, toOption_load, similar.constant, similar.opcode]
    generalize i.operands[k]? = v at operand
    generalize j.operands[k]? = w at operand
    cases operand with
    | none => rfl
    | some reshaped => simp only [Option.bind_some, reshaped.base]
  refine act_eq_of_finds fun a => {
    opcode := similar.opcode
    random := fun _ => similar.constant
    evaluable := by
      have operands : j.operands.all (fun v => v.isConstant || v.dtype.isEvaluable) =
          i.operands.all fun v => v.isConstant || v.dtype.isEvaluable := by
        have mapped := map_eq_of_forall₂ (f := fun v => v.isConstant || v.dtype.isEvaluable)
          (g := fun v => v.isConstant || v.dtype.isEvaluable) similar.operands
          fun v w reshaped => by rw [reshaped.isConstant, reshaped.rest]
        have folded := congrArg (List.all · id) mapped
        simpa [List.all_map, Function.comp_def] using folded
      rw [isEvaluable, isEvaluable, similar.opcode, similar.indistinct.isEmpty_operands, operands]
    count := similar.operands.length_eq.symm
    types := fun k => by
      have operand := forall₂_getElem? similar.operands k
      rw [operandType?, operandType?, similar.constant, similar.opcode]
      generalize i.operands[k]? = v at operand
      generalize j.operands[k]? = w at operand
      cases operand with
      | none => rfl
      | some reshaped => rw [Option.map_some, Option.map_some, reshaped.rest]
    output := similar.outputBase?
    offset := offsets 0
    starts := fun k indirect => by
      rw [isIndirect_of_isElementwise elementwise] at indirect
      contradiction
    number := fun _ => by
      rw [flatIndex_eq (j.standsAt_turns q).at_p rangeQ.length_eq,
        flatIndex_eq (i.standsAt_turns p).at_p rangeP.length_eq, same]
    loads := fun k _ => by rw [loadAt, loadAt, offsets k, loads]
    anywhere := fun k _ x => loads a k x
    unswept := fun _ => by rw [sweepAxis?, similar.constant, similar.opcode]; exact notSweep
    swept := fun s axis => by rw [notSweep] at axis; contradiction }

theorem elementCount_of_reshape (wf : i.WellFormed) (hshape : ∀ n ∈ j.shape, 0 ≤ n)
    (h : i.reshape j.shape = .ok j) : elementCount j.shape = elementCount i.shape := by
  have similar := similar_of_reshape wf hshape h
  have elementwise := isElementwise_of_isReshapable (operands_of_reshape h).1
  rw [shape_of_isElementwise elementwise, shape_of_isElementwise (similar.opcode ▸ elementwise)]
  have operands := similar.operands
  generalize i.operands = vs at operands
  generalize j.operands = ws at operands
  cases operands with
  | nil => rfl
  | cons head _ => exact head.elements

/-- A reshaped instruction does the same at all its positions. -/
theorem map_actAt_of_reshape (hi : i.Sound) (hshape : ∀ n ∈ j.shape, 0 ≤ n)
    (h : i.reshape j.shape = .ok j) :
    (positions j.shape).map j.actAt = (positions i.shape).map i.actAt := by
  have hshape' := shape_nonneg hi.views
  refine List.ext_getElem ?_ fun n hn hn' => ?_
  · rw [List.length_map, List.length_map, length_positions hshape, length_positions hshape',
      elementCount_of_reshape hi.views hshape h]
  · rw [List.length_map] at hn hn'
    rw [List.getElem_map, List.getElem_map]
    refine actAt_of_reshape hi hshape h (mem_positions.mp (List.getElem_mem hn'))
      (mem_positions.mp (List.getElem_mem hn)) ?_
    rw [number_getElem_positions hshape, number_getElem_positions hshape']

end Instruction

namespace Statement

theorem act_eq (s : Statement) :
    s.act = ((positions s.instr.shape).map s.instr.actAt).prod := by
  rw [act, actFrom]
  refine congrArg List.prod (List.map_congr_left fun w hw => ?_)
  have length : w.length = s.instr.ndim := (mem_positions.mp hw).length_eq
  rw [List.nil_append, List.take_of_length_le length.le]

theorem runs_of_reshapesTo {s t : Statement} (hs : s.Runs) (h : s.instr.ReshapesTo t.instr) :
    t.Runs := by
  rcases h with same | ⟨hshape, h⟩
  · exact ⟨same ▸ hs.sound, same ▸ hs.once⟩
  · exact ⟨Instruction.sound_of_reshape hs.sound hshape h,
      Instruction.writesOnce_of_similar (Instruction.similar_of_reshape hs.sound.views hshape h)
        hs.once⟩

/-- A reshaped statement acts like the statement that it came from. -/
theorem act_of_reshapesTo {s t : Statement} (hs : s.Runs) (h : s.instr.ReshapesTo t.instr) :
    t.act = s.act := by
  rw [t.act_eq, s.act_eq]
  rcases h with same | ⟨hshape, h⟩
  · rw [same]
  · rw [Instruction.map_actAt_of_reshape hs.sound hshape h]

end Statement

end ArrayFusion
