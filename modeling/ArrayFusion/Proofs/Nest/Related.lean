import ArrayFusion.Kernel.Symbols
import ArrayFusion.Proofs.Lists
import ArrayFusion.Proofs.Nest.Layout

/-!
# Trees of one form

Two nests have one form if loops stand where loops stand and statements where statements stand. What
is known of corresponding loops and statements, in the order of execution, is then known of the two
trees.
-/

namespace ArrayFusion

variable {H H' : LoopHead → LoopHead → Prop} {I I' : Instruction → Instruction → Prop}

namespace Node

mutual

/-- The loops and the instructions of two trees of one form correspond. -/
def Related (H : LoopHead → LoopHead → Prop) (I : Instruction → Instruction → Prop) :
    Node → Node → Prop
  | loop head body, loop head' body' => H head head' ∧ BodyRelated H I body body'
  | leaf s _, leaf s' _ => I s.instr s'.instr
  | loop .., leaf .. | leaf .., loop .. => False

/-- The loops and the instructions of two bodies of one form correspond. -/
def BodyRelated (H : LoopHead → LoopHead → Prop) (I : Instruction → Instruction → Prop) :
    List Node → List Node → Prop
  | [], [] => True
  | n :: body, n' :: body' => n.Related H I n' ∧ BodyRelated H I body body'
  | [], _ :: _ | _ :: _, [] => False

end

variable {n n' : Node} {body body' : List Node}

theorem bodyRelated_iff :
    BodyRelated H I body body' ↔ List.Forall₂ (Related H I) body body' := by
  induction body generalizing body' with
  | nil => cases body' <;> simp [BodyRelated]
  | cons n body ih => cases body' <;> simp [BodyRelated, ih]

mutual

theorem Related.refl : (n : Node) → n.Related Eq Eq n
  | .leaf _ _ => rfl
  | .loop _ body => ⟨rfl, BodyRelated.refl body⟩

theorem BodyRelated.refl : (body : List Node) → BodyRelated Eq Eq body body
  | [] => trivial
  | n :: body => ⟨Related.refl n, BodyRelated.refl body⟩

end

theorem Related.isLoop (h : n.Related H I n') : n'.isLoop = n.isLoop := by
  cases n <;> cases n' <;> first | rfl | exact h.elim

mutual

theorem Related.statements : (n n' : Node) → n.Related H I n' →
    List.Forall₂ (fun s s' : Statement => I s.instr s'.instr) n.statements n'.statements
  | .leaf _ _, .leaf _ _, h => .cons h .nil
  | .loop _ body, .loop _ body', h => BodyRelated.statements body body' h.2
  | .loop .., .leaf .., h | .leaf .., .loop .., h => h.elim

theorem BodyRelated.statements : (body body' : List Node) → BodyRelated H I body body' →
    List.Forall₂ (fun s s' : Statement => I s.instr s'.instr) (bodyStatements body)
      (bodyStatements body')
  | [], [], _ => .nil
  | n :: body, n' :: body', h =>
      List.rel_append (Related.statements n n' h.1) (BodyRelated.statements body body' h.2)
  | [], _ :: _, h | _ :: _, [], h => h.elim

end

mutual

theorem Related.nests : (n n' : Node) → n.Related H I n' →
    List.Forall₂ (fun l l' : Nest => l.toNode.Related H I l'.toNode) n.nests n'.nests
  | .leaf _ _, .leaf _ _, _ => .nil
  | .loop _ body, .loop _ body', h => .cons h (BodyRelated.nests body body' h.2)
  | .loop .., .leaf .., h | .leaf .., .loop .., h => h.elim

theorem BodyRelated.nests : (body body' : List Node) → BodyRelated H I body body' →
    List.Forall₂ (fun l l' : Nest => l.toNode.Related H I l'.toNode) (bodyNests body)
      (bodyNests body')
  | [], [], _ => .nil
  | n :: body, n' :: body', h =>
      List.rel_append (Related.nests n n' h.1) (BodyRelated.nests body body' h.2)
  | [], _ :: _, h | _ :: _, [], h => h.elim

end

mutual

/-- What is known of corresponding parts is known of the trees. -/
theorem Related.upgrade : (n n' : Node) → n.Related H I n' →
    List.Forall₂ (fun l l' : Nest => H' l.head l'.head) n.nests n'.nests →
    List.Forall₂ (fun s s' : Statement => I' s.instr s'.instr) n.statements n'.statements →
    n.Related H' I' n'
  | .leaf _ _, .leaf _ _, _, _, .cons instr _ => instr
  | .loop _ body, .loop _ body', h, .cons head heads, instrs =>
      ⟨head, BodyRelated.upgrade body body' h.2 heads instrs⟩
  | .loop .., .leaf .., h, _, _ | .leaf .., .loop .., h, _, _ => h.elim

theorem BodyRelated.upgrade : (body body' : List Node) → BodyRelated H I body body' →
    List.Forall₂ (fun l l' : Nest => H' l.head l'.head) (bodyNests body) (bodyNests body') →
    List.Forall₂ (fun s s' : Statement => I' s.instr s'.instr) (bodyStatements body)
      (bodyStatements body') → BodyRelated H' I' body body'
  | [], [], _, _, _ => trivial
  | n :: body, n' :: body', h, heads, instrs => by
      obtain ⟨head, heads⟩ := forall₂_of_append (Related.nests n n' h.1).length_eq heads
      obtain ⟨instr, instrs⟩ := forall₂_of_append (Related.statements n n' h.1).length_eq instrs
      exact ⟨Related.upgrade n n' h.1 head instr, BodyRelated.upgrade body body' h.2 heads instrs⟩
  | [], _ :: _, h, _, _ | _ :: _, [], h, _, _ => h.elim

end

mutual

/-- The instructions stand in loops with the same numbers. -/
theorem Related.sites (ids : ∀ head head', H head head' → head'.id = head.id) (around : Nat) :
    (n n' : Node) → n.Related H I n' →
      List.Forall₂ (fun p q : Nat × Instruction => q.1 = p.1 ∧ I p.2 q.2) (n.sites around)
        (n'.sites around)
  | .leaf _ _, .leaf _ _, h => .cons ⟨rfl, h⟩ .nil
  | .loop head body, .loop head' body', h => by
      rw [Node.sites, Node.sites, ids head head' h.1]
      exact BodyRelated.sites ids head.id body body' h.2
  | .loop .., .leaf .., h | .leaf .., .loop .., h => h.elim

theorem BodyRelated.sites (ids : ∀ head head', H head head' → head'.id = head.id) (around : Nat) :
    (body body' : List Node) → BodyRelated H I body body' →
      List.Forall₂ (fun p q : Nat × Instruction => q.1 = p.1 ∧ I p.2 q.2) (bodySites around body)
        (bodySites around body')
  | [], [], _ => .nil
  | n :: body, n' :: body', h =>
      List.rel_append (Related.sites ids around n n' h.1) (BodyRelated.sites ids around body body' h.2)
  | [], _ :: _, h | _ :: _, [], h => h.elim

end

end Node

/-- Operands of the instructions of a nest, in the order of execution. -/
def Nest.operands (l : Nest) : List View := l.instrs.flatMap (·.operands)

/-- Corresponding operands of corresponding instructions are corresponding operands of the whole. -/
theorem Instruction.forall₂_zip_operands {is js : List Instruction}
    (counts : List.Forall₂ (fun i j : Instruction => i.operands.length = j.operands.length) is js) :
    List.Forall₂ (fun i j : Instruction => List.Forall₂ (fun v w =>
        (v, w) ∈ (is.flatMap (·.operands)).zip (js.flatMap (·.operands))) i.operands j.operands)
      is js := by
  induction counts with
  | nil => exact .nil
  | @cons i j is js first rest ih =>
    rw [List.flatMap_cons, List.flatMap_cons, List.zip_append first]
    refine .cons ?_ (ih.imp fun i j operands => operands.imp fun v w here => ?_)
    · exact List.forall₂_iff_zip.mpr ⟨first, fun here => List.mem_append_left _ here⟩
    · exact List.mem_append_right _ here

end ArrayFusion
