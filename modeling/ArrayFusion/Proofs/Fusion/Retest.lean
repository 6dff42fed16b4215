import ArrayFusion.Proofs.Fusion.Current
import ArrayFusion.Proofs.Fusion.Separation

/-!
# Tests are not changed by reshaping

Two loops of different sizes pass the test for mergeable loops before the longer one is built anew,
and the test is made once more with the loop that was built. In between, operands of its statements
have become views with other strides and sizes. Both the test for dependency and the search for
accesses to what folds and scans write ask of an operand only which base it has, how it is addressed
and which views it is disjoint from, and this is settled by its addresses.
-/

namespace ArrayFusion

/-- The second view is the first one, or the first one with another shape. Neither shape has a
negative size. -/
def View.ReshapesTo (v w : View) : Prop :=
  w = v ∨ (∀ n ∈ v.shape, 0 ≤ n) ∧ ∃ shape, (∀ n ∈ shape, 0 ≤ n) ∧ v.toShape shape = .ok w

theorem View.ReshapesTo.indistinct {v w : View} (h : v.ReshapesTo w) : Indistinct v w := by
  obtain rfl | ⟨sizes, shape, hshape, changed⟩ := h
  · exact .refl w
  have rest := rest_of_toShape changed
  cases constant : v.isConstant with
  | true => exact .of_isConstant rest constant
  | false =>
    have sizes' : ∀ a ∈ v.axes, 0 ≤ a.size := fun a ha => sizes _ (List.mem_map_of_mem ha)
    obtain ⟨sized, -, -, addresses, -⟩ := shape_of_toShape changed sizes' constant hshape
    exact .of_addresses rest sizes' (fun a ha => hshape _ (sized ▸ List.mem_map_of_mem ha))
      addresses

namespace Instruction

/-- The second instruction is the first one with some of its operands reshaped, each to a shape of
its own. -/
def OperandsReshapeTo (i j : Instruction) : Prop :=
  j = { i with operands := j.operands } ∧ List.Forall₂ View.ReshapesTo i.operands j.operands

theorem OperandsReshapeTo.refl (i : Instruction) : i.OperandsReshapeTo i :=
  ⟨rfl, List.forall₂_same.mpr fun _ _ => .inl rfl⟩

theorem OperandsReshapeTo.indistinct {i j : Instruction} (h : i.OperandsReshapeTo j) :
    Indistinct i j := by
  obtain ⟨rest, operands⟩ := h
  exact ⟨by rw [rest], operands.imp fun _ _ reshapes => reshapes.indistinct⟩

theorem operandsReshapeTo_of_reshape {i j : Instruction} {shape : List Int}
    (sizes : ∀ v ∈ i.operands, ∀ n ∈ v.shape, 0 ≤ n) (hshape : ∀ n ∈ shape, 0 ≤ n)
    (h : i.reshape shape = .ok j) : i.OperandsReshapeTo j := by
  obtain ⟨-, rest, operands⟩ := operands_of_reshape h
  have both := (List.forall₂_and_left _ _).mpr ⟨sizes, operands⟩
  refine ⟨rest, both.imp fun v w related => ?_⟩
  obtain ⟨sizesV, changed⟩ := related
  split at changed
  · cases changed
    exact .inl rfl
  · exact .inr ⟨sizesV, shape, hshape, changed⟩

theorem operandsReshapeTo_of_splitAxis {i j : Instruction} {axis : Nat} {size : Int}
    (sizes : ∀ v ∈ i.operands, ∀ n ∈ v.shape, 0 ≤ n) (h : i.splitAxis axis size = .ok j) :
    i.OperandsReshapeTo j ∧ i.opcode.isElementwise = true := by
  obtain ⟨n, found, positive, -, reshaped⟩ := reshape_of_splitAxis h
  have hshape := splitShape_nonneg (shape_nonneg_of_operands sizes) found positive
  exact ⟨operandsReshapeTo_of_reshape sizes hshape reshaped,
    isElementwise_of_isReshapable (operands_of_reshape reshaped).1⟩

end Instruction

namespace Nest

/-- The statements of the second loop, and those recorded as its folds and scans, are those of the
first one with operands reshaped. -/
structure OperandsReshapeTo (l l' : Nest) : Prop where
  sweeps : List.Forall₂ (fun s t => s.instr.OperandsReshapeTo t.instr) l.head.sweeps l'.head.sweeps
  statements :
    List.Forall₂ (fun s t => s.instr.OperandsReshapeTo t.instr) l.statements l'.statements

theorem OperandsReshapeTo.refl (l : Nest) : l.OperandsReshapeTo l :=
  ⟨List.forall₂_same.mpr fun _ _ => .refl _, List.forall₂_same.mpr fun _ _ => .refl _⟩

/-- Statements with the same bases and addresses touch the outputs of the same folds and scans, and
the search stops at the same faults. -/
theorem OperandsReshapeTo.touchesSweeps {a a' b b' : Nest} (ha : a.OperandsReshapeTo a')
    (hb : b.OperandsReshapeTo b') : a'.touchesSweeps b' = a.touchesSweeps b := by
  have touched : ∀ out out' : View, View.Indistinct out out' →
      (b'.instrs.any fun i => i.operands.any fun v => !v.isConstant && !out'.disjoint v) =
        b.instrs.any fun i => i.operands.any fun v => !v.isConstant && !out.disjoint v := by
    intro out out' same
    rw [instrs, instrs, List.any_map, List.any_map]
    refine any_eq_of_forall₂ hb.statements fun s t reshapes => ?_
    refine any_eq_of_forall₂ reshapes.indistinct.operands fun v w alike => ?_
    rw [alike.isConstant, same.disjoint_eq alike]
  refine anyM_eq_of_forall₂ ha.sweeps fun s t reshapes => ?_
  have outputs := forall₂_getElem? reshapes.indistinct.operands 0
  generalize s.instr.operands[0]? = out, t.instr.operands[0]? = out' at outputs
  cases outputs with
  | none => rfl
  | some same => exact congrArg Except.ok (touched _ _ same)

theorem forall₂_operandsReshapeTo_of_split {l : Nest} {size : Int} {ss : List Statement}
    (sizes : ∀ s ∈ l.statements, ∀ v ∈ s.instr.operands, ∀ n ∈ v.shape, 0 ≤ n)
    (split : l.splitStatements size = .ok ss) :
    List.Forall₂ (fun s t => s.instr.OperandsReshapeTo t.instr ∧
      s.instr.opcode.isElementwise = true) l.statements ss := by
  have both := (List.forall₂_and_left _ _).mpr ⟨sizes, forall₂_of_mapM split⟩
  refine both.imp fun s t related => ?_
  obtain ⟨sizesS, changed⟩ := related
  cases found : s.instr.splitAxis l.head.rank.toNat size with
  | error e =>
    rw [found] at changed
    contradiction
  | ok j =>
    rw [found] at changed
    cases changed
    exact Instruction.operandsReshapeTo_of_splitAxis sizesS found

/-- Only elementwise statements can be split, so that neither the loop nor the one that is built
from it has folds or scans along it. -/
theorem operandsReshapeTo_of_resize {l l' : Nest} {size : Int} {n m : Nat} (current : l.Current)
    (sizes : ∀ s ∈ l.statements, ∀ v ∈ s.instr.operands, ∀ n ∈ v.shape, 0 ≤ n)
    (h : l.resize size n = .ok (l', m)) : l.OperandsReshapeTo l' := by
  obtain ⟨rfl, -⟩ | ⟨ss, built, split, made, rfl⟩ := resize_eq_ok h
  · exact .refl l'
  have related := forall₂_operandsReshapeTo_of_split sizes split
  have elementwise : ∀ s ∈ l.statements, s.instr.opcode.isElementwise = true := by
    intro s hs
    obtain ⟨t, -, -, elementwise⟩ := exists_of_forall₂ related.flip hs
    exact elementwise
  have elementwise' : ∀ t ∈ ss, t.instr.opcode.isElementwise = true := by
    intro t ht
    obtain ⟨s, -, reshapes, elementwise⟩ := exists_of_forall₂ related ht
    rw [reshapes.indistinct.opcode]
    exact elementwise
  have unswept : ∀ (rank : Int) (ts : List Statement),
      (∀ t ∈ ts, t.instr.opcode.isElementwise = true) → ts.filter (sweepsAlong rank) = [] := by
    intro rank ts all
    apply List.filter_eq_nil_iff.mpr
    intro t ht
    simp [sweepsAlong_of_isElementwise (all t ht)]
  have statements : built.statements = ss := by
    have kept := statements_ofStatements l.head.rank.toNat [] ss n
    rw [made] at kept
    rw [kept, List.filter_eq_self]
    intro t ht
    simp [Instruction.not_isSystem_of_isElementwise (elementwise' t ht)]
  refine ⟨?_, ?_⟩
  · show List.Forall₂ _ l.head.sweeps (built.statements.filter (sweepsAlong built.head.rank))
    rw [current.records.sweeps, statements, unswept _ _ elementwise, unswept _ _ elementwise']
    exact .nil
  · show List.Forall₂ _ l.statements built.statements
    rw [statements]
    exact related.imp fun _ _ reshapes => reshapes.1

end Nest

end ArrayFusion
