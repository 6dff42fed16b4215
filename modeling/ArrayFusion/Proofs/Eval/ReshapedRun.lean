import ArrayFusion.Proofs.Eval.Alone
import ArrayFusion.Proofs.Eval.Elementwise
import ArrayFusion.Proofs.Eval.Reshape

/-!
# Runs of reshaped instructions

A reshaped instruction gets loops of another depth, but carries out the same actions in the same
order: the position with a number accesses the elements that the position with this number accessed
before, and the number is all that an instruction sees of its position. So its kernel succeeds where
that of the original instruction succeeds, fails where that one fails, and leaves the same arena.
-/

namespace ArrayFusion

open Shape

namespace Instruction

variable {i j : Instruction}

theorem sound_of_isReshapable (views : i.WellFormed) (reshapable : i.isReshapable = true) :
    i.Sound := by
  have elementwise := isElementwise_of_isReshapable reshapable
  refine sound_of_isElementwise elementwise views fun v hv array => ?_
  rw [isReshapable, Bool.and_eq_true, List.all_eq_true] at reshapable
  have whole := reshapable.2 v hv
  simp only [array, Bool.false_or, Bool.and_eq_true, beq_iff_eq] at whole
  exact whole.1.1

/-- Reshaped or not, an instruction carries out one list of actions. -/
theorem map_actAt_of_reshape_ok {shape : List Int} (views : i.WellFormed)
    (sizes : ∀ n ∈ shape, 0 ≤ n) (h : i.reshape shape = .ok j) :
    (positions j.shape).map j.actAt = (positions i.shape).map i.actAt := by
  have reshapable := (operands_of_reshape h).1
  have elementwise := isElementwise_of_isReshapable reshapable
  have similar := similar_of_reshape views sizes h
  by_cases output : i.outputBase? = none
  · -- Nothing can be written, so that both fail at their only position.
    have elementwise' : j.opcode.isElementwise = true := similar.opcode ▸ elementwise
    have output' : j.outputBase? = none := similar.outputBase?.trans output
    rw [shape_of_outputBase?_eq_none views elementwise output,
      shape_of_outputBase?_eq_none similar.wellFormed elementwise' output']
    simp only [positions, List.map_cons, List.map_nil, actAt,
      act_of_outputBase?_eq_none elementwise output,
      act_of_outputBase?_eq_none elementwise' output']
  · have given := shape_of_reshape_of_output views sizes output h
    subst given
    exact map_actAt_of_reshape (sound_of_isReshapable views reshapable) sizes h

end Instruction

namespace Statement

end Statement

end ArrayFusion
