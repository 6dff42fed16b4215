import ArrayFusion.Proofs.Eval.Order
import ArrayFusion.Proofs.Fusion.Schedule

/-!
# Folds and scans keep their results to themselves

In a nest that fusion makes, no other statement of a loop touches what a fold or scan along this
loop writes. The statements of every loop are related in pairs, so that this can be read off the
layout at every depth. The test for overlap that a pair has passed tells apart addresses, and an
operand that is addressed by values may not even lie on the base of the result.
-/

namespace ArrayFusion

namespace Instruction

/-- Nothing that the first instruction writes is touched by the second one: no operand shares an
address with the output, and none that is addressed by values lies on its base. -/
def KeepsOutputFrom (i j : Instruction) : Prop :=
  ∀ out, i.operands[0]? = some out → ∀ k v, j.operands[k]? = some v → v.isConstant = false →
    v.base = out.base → j.isIndirect k = false ∧ ∀ x ∈ out.addresses, x ∉ v.addresses

/-- An instruction that is isolated from an aligned one keeps its output from it. -/
theorem Isolated.keepsOutputFrom {i j : Instruction} (isolated : i.Isolated j)
    (aligned : i.Aligned j) (wfI : i.WellFormed) (wfJ : j.WellFormed) : i.KeepsOutputFrom j := by
  intro out hout k v hv array base
  have member := List.mem_of_getElem? hv
  obtain ⟨-, direct, -⟩ := aligned.1 out hout k v hv array base.symm
  have arrayOut : out.isConstant = false := by rwa [View.isConstant, ← base]
  refine ⟨direct, fun x hx => ?_⟩
  exact View.not_mem_of_disjoint (isolated out hout v member) arrayOut base.symm
    (wfI out (List.mem_of_getElem? hout)) (wfJ v member) hx

end Instruction

namespace Nest

variable {l : Nest} {outer : List Int} {s : Statement}

/-- Every loop of a nest with a layout has a layout. -/
theorem layout_of_mem_nests {n : Node} (h : n.Layout outer) :
    ∀ l ∈ n.nests, ∃ outer, l.toNode.Layout outer := by
  induction h with
  | leaf computes under depth innermost => simp [Node.nests]
  | @loop outer head body rank size records together nodes ih =>
      intro l hl
      obtain rfl | ⟨n, hn, hl⟩ := Node.mem_nests_loop.mp hl
      · exact ⟨outer, .loop rank size records together nodes⟩
      · exact ih n hn l hl

/-- Loops around a statement are no deeper than views can be. -/
theorem rank_lt_maxAxes (h : l.toNode.Layout outer) (hs : s ∈ l.statements) :
    l.head.rank < maxAxes := by
  obtain ⟨computes, under⟩ := Node.Layout.body h s hs
  have rank : l.head.rank = outer.length := by
    cases h with
    | loop rank size records together nodes => exact rank
  have few := under.length_le computes
  rw [List.length_append, List.length_singleton] at few
  omega

/-- Two different statements of a loop can share its iterations. -/
theorem together_of_ne (h : l.toNode.Layout outer) {i j : Nat} {t : Statement}
    (hs : l.statements[i]? = some s) (ht : l.statements[j]? = some t) (apart : i ≠ j) :
    s.Together l.head.rank t := by
  have pairs : l.statements.Pairwise (Statement.Together l.head.rank) := by
    cases h with
    | loop rank size records together nodes => exact together
  obtain ⟨hi, rfl⟩ := List.getElem?_eq_some_iff.mp hs
  obtain ⟨hj, rfl⟩ := List.getElem?_eq_some_iff.mp ht
  rcases Nat.lt_or_gt_of_ne apart with before | behind
  · exact List.pairwise_iff_getElem.mp pairs i j hi hj before
  · exact (List.pairwise_iff_getElem.mp pairs j i hj hi behind).symm

/-- A fold or scan along a loop keeps its result from the other statements of the loop. -/
theorem keepsOutputFrom_of_layout (h : l.toNode.Layout outer) {i j axis : Nat} {t : Statement}
    (hs : l.statements[i]? = some s) (ht : l.statements[j]? = some t) (apart : i ≠ j)
    (along : s.instr.sweepAxis? = some axis) (rank : (axis : Int) = l.head.rank) :
    s.instr.KeepsOutputFrom t.instr := by
  have inS := List.mem_of_getElem? hs
  obtain ⟨computesS, -⟩ := Node.Layout.body h s inS
  obtain ⟨computesT, -⟩ := Node.Layout.body h t (List.mem_of_getElem? ht)
  obtain ⟨aligned, isolates, -⟩ := together_of_ne h hs ht apart
  have sweeps : sweepsAlong l.head.rank s = true := by
    have small := rank_lt_maxAxes h inS
    rw [← rank, maxAxes] at small
    have few : ∀ axis', s.instr.sweepAxis? = some axis' → axis' < 2 ^ 31 := by
      intro axis' found
      obtain rfl : axis = axis' := Option.some.inj (along.symm.trans found)
      omega
    rw [← rank, sweepsAlong_natCast axis few, along, beq_self_eq_true]
  exact (isolates sweeps).keepsOutputFrom aligned computesS.views computesT.views

end Nest

namespace Fusion

end Fusion

end ArrayFusion
