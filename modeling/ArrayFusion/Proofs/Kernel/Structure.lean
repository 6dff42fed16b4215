import ArrayFusion.Proofs.Nest.Related

/-!
# The structure text of a kernel

The structure text has one line for every loop and every instruction, in the order of execution. It
is the same for two kernels of one form whose lines are the same, and the hash of a kernel is that of
its structure text.
-/

namespace ArrayFusion

namespace Symbols

variable {H : LoopHead → LoopHead → Prop} {I : Instruction → Instruction → Prop} {s t : Symbols}

mutual

/-- Nodes of one form with the same lines are described alike. -/
theorem nodeStructure_related
    (heads : ∀ head head', H head head' → headStructure head' = headStructure head)
    (instrs : ∀ i j, I i j → t.instrStructure j = s.instrStructure i) :
    (n n' : Node) → n.Related H I n' → t.nodeStructure n' = s.nodeStructure n
  | .leaf a _, .leaf b _, h => instrs a.instr b.instr h
  | .loop head body, .loop head' body', h => by
      rw [nodeStructure, nodeStructure, heads head head' h.1,
        bodyStructure_related heads instrs body body' h.2]
  | .loop .., .leaf .., h | .leaf .., .loop .., h => h.elim

theorem bodyStructure_related
    (heads : ∀ head head', H head head' → headStructure head' = headStructure head)
    (instrs : ∀ i j, I i j → t.instrStructure j = s.instrStructure i) :
    (body body' : List Node) → Node.BodyRelated H I body body' →
      t.bodyStructure body' = s.bodyStructure body
  | [], [], _ => rfl
  | n :: body, n' :: body', h => by
      rw [bodyStructure, bodyStructure, nodeStructure_related heads instrs n n' h.1,
        bodyStructure_related heads instrs body body' h.2]
  | [], _ :: _, h | _ :: _, [], h => h.elim

end

/-- The structure text does not look at the hash. -/
theorem structureText_withHash (s : Symbols) (x : UInt64) (kernel : Nest) :
    ({ s with hash := x } : Symbols).structureText kernel = s.structureText kernel := by
  refine nodeStructure_related (H := Eq) (I := Eq) ?_ ?_ _ _ (Node.Related.refl kernel.toNode)
  · rintro head _ rfl
    rfl
  · rintro i _ rfl
    rfl

/-- The hash of a kernel is that of its structure text. -/
theorem hash_ofKernel (kernel : Nest) (passing : Passing) : (ofKernel kernel passing).hash =
    Fnv.ofText ((ofKernel kernel passing).structureText kernel) := by
  rw [ofKernel]
  generalize collect kernel passing = s
  exact congrArg Fnv.ofText (structureText_withHash s _ kernel).symm

end Symbols

end ArrayFusion
