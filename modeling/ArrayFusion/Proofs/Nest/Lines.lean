import ArrayFusion.Proofs.Nest.Related
import Mathlib.Data.Sum.Basic

/-!
# A tree from its lines

The loops and instructions of a tree are listed in the order of execution, a loop before its body. In
a well laid out tree the rank of a loop and the number of axes of an instruction tell how deep they
stand, so that the list determines the form of the tree.
-/

namespace ArrayFusion

namespace Node

mutual

/-- Loops and instructions in the order of execution, a loop before its body. -/
def lines : Node → List (LoopHead ⊕ Instruction)
  | loop head body => .inl head :: bodyLines body
  | leaf s _ => [.inr s.instr]

/-- Loops and instructions of a body in the order of execution. -/
def bodyLines : List Node → List (LoopHead ⊕ Instruction)
  | [] => []
  | n :: body => n.lines ++ bodyLines body

end

mutual

theorem exists_of_mem_lines {i : Instruction} : (n : Node) → .inr i ∈ n.lines →
    ∃ s ∈ n.statements, s.instr = i
  | leaf s _, here => ⟨s, List.mem_singleton_self s, (Sum.inr.inj (List.mem_singleton.mp here)).symm⟩
  | loop _ body, here => exists_of_mem_bodyLines body ((List.mem_cons.mp here).resolve_left nofun)

theorem exists_of_mem_bodyLines {i : Instruction} : (body : List Node) → .inr i ∈ bodyLines body →
    ∃ s ∈ bodyStatements body, s.instr = i
  | n :: body, here => by
      obtain here | here := List.mem_append.mp here
      · obtain ⟨s, hs, instr⟩ := exists_of_mem_lines n here
        exact ⟨s, List.mem_append_left _ hs, instr⟩
      · obtain ⟨s, hs, instr⟩ := exists_of_mem_bodyLines body here
        exact ⟨s, List.mem_append_right _ hs, instr⟩

end

mutual

/-- The node stands on a level: loops nest rank by rank, and a statement stands below as many loops as
it has axes, but at least below one. -/
def OnLevel (level : Int) : Node → Prop
  | loop head body => head.rank = level ∧ BodyOnLevel (level + 1) body
  | leaf s _ => (max s.instr.ndim 1 : Nat) = level

/-- The nodes of a body stand on a level. -/
def BodyOnLevel (level : Int) : List Node → Prop
  | [] => True
  | n :: body => n.OnLevel level ∧ BodyOnLevel level body

end

mutual

instance decidableOnLevel (level : Int) : (n : Node) → Decidable (n.OnLevel level)
  | loop head body =>
    have := decidableBodyOnLevel (level + 1) body
    inferInstanceAs (Decidable (head.rank = level ∧ BodyOnLevel (level + 1) body))
  | leaf s _ => inferInstanceAs (Decidable ((max s.instr.ndim 1 : Nat) = level))

instance decidableBodyOnLevel (level : Int) : (body : List Node) → Decidable (BodyOnLevel level body)
  | [] => .isTrue trivial
  | n :: body =>
    have := decidableOnLevel level n
    have := decidableBodyOnLevel level body
    inferInstanceAs (Decidable (n.OnLevel level ∧ BodyOnLevel level body))

end

/-- Level of a loop or an instruction. -/
def lineLevel : LoopHead ⊕ Instruction → Int :=
  Sum.elim (·.rank) fun i => (max i.ndim 1 : Nat)

/-- The next line, if there is one, stands on a higher level. -/
def Above (level : Int) (es : List (LoopHead ⊕ Instruction)) : Prop :=
  ∀ e ∈ es.head?, lineLevel e < level

theorem above_nil (level : Int) : Above level [] := fun _ here =>
  absurd here (Option.not_mem_none _)

theorem bodyOnLevel_iff {level : Int} {body : List Node} :
    BodyOnLevel level body ↔ ∀ n ∈ body, n.OnLevel level := by
  induction body with
  | nil => simp [BodyOnLevel]
  | cons n body ih => simp [BodyOnLevel, ih]

/-- The first line of a node stands on its level. -/
theorem OnLevel.exists_lines {level : Int} {n : Node} (h : n.OnLevel level) :
    ∃ e es, n.lines = e :: es ∧ lineLevel e = level := by
  cases n with
  | loop head body => exact ⟨_, _, rfl, h.1⟩
  | leaf s rank => exact ⟨_, _, rfl, h⟩

/-- Behind a body the next line stands on a higher level, and so it does behind its first node. -/
theorem BodyOnLevel.above {level : Int} {body : List Node} (h : BodyOnLevel level body)
    {es : List (LoopHead ⊕ Instruction)} (above : Above level es) :
    Above (level + 1) (bodyLines body ++ es) := by
  intro e he
  cases body with
  | nil =>
    have next : lineLevel e < level := above e he
    omega
  | cons n body =>
    obtain ⟨first, others, lines, own⟩ := h.1.exists_lines
    rw [bodyLines, lines, List.cons_append, List.cons_append, List.head?_cons,
      Option.mem_some_iff] at he
    subst he
    omega

section Form

variable {H : LoopHead → LoopHead → Prop} {I : Instruction → Instruction → Prop}

theorem lineLevel_eq (ranks : ∀ head head', H head head' → head'.rank = head.rank)
    (axes : ∀ i j, I i j → j.ndim = i.ndim) (e e' : LoopHead ⊕ Instruction)
    (h : Sum.LiftRel H I e e') : lineLevel e' = lineLevel e := by
  cases h with
  | inl head => exact ranks _ _ head
  | inr instr => rw [lineLevel, Sum.elim_inr, Sum.elim_inr, axes _ _ instr]

/-- A line behind a body does not correspond to the first line of a further node. -/
theorem not_forall₂_of_above
    (levels : ∀ e e', Sum.LiftRel H I e e' → lineLevel e' = lineLevel e) {level : Int} {n : Node}
    (h : n.OnLevel level) {es fs : List (LoopHead ⊕ Instruction)} (above : Above level es) :
    ¬ List.Forall₂ (Sum.LiftRel H I) es (n.lines ++ fs) ∧
      ¬ List.Forall₂ (Sum.LiftRel H I) (n.lines ++ fs) es := by
  obtain ⟨first, others, lines, own⟩ := h.exists_lines
  rw [lines, List.cons_append]
  cases es with
  | nil => exact ⟨nofun, nofun⟩
  | cons e es =>
    have next : lineLevel e < level := above e rfl
    constructor
    · rintro (_ | ⟨same, _⟩)
      have equal := levels _ _ same
      omega
    · rintro (_ | ⟨same, _⟩)
      have equal := levels _ _ same
      omega

mutual

/-- Nodes whose lines correspond have one form. -/
theorem related_of_lines
    (levels : ∀ e e', Sum.LiftRel H I e e' → lineLevel e' = lineLevel e) {level : Int}
    {es fs : List (LoopHead ⊕ Instruction)}
    (above : Above (level + 1) es) (above' : Above (level + 1) fs) :
    (n n' : Node) → n.OnLevel level → n'.OnLevel level →
      List.Forall₂ (Sum.LiftRel H I) (n.lines ++ es) (n'.lines ++ fs) →
      n.Related H I n' ∧ List.Forall₂ (Sum.LiftRel H I) es fs
  | .leaf _ _, .leaf _ _, _, _, .cons (.inr instr) rest => ⟨instr, rest⟩
  | .loop _ body, .loop _ body', h, h', .cons (.inl head) rest => by
      obtain ⟨related, rest⟩ := bodyRelated_of_lines levels above above' body body' h.2 h'.2 rest
      exact ⟨⟨head, related⟩, rest⟩
  | .leaf .., .loop .., _, _, .cons first _ | .loop .., .leaf .., _, _, .cons first _ => nomatch first

/-- Bodies whose lines correspond have one form. -/
theorem bodyRelated_of_lines
    (levels : ∀ e e', Sum.LiftRel H I e e' → lineLevel e' = lineLevel e) {level : Int}
    {es fs : List (LoopHead ⊕ Instruction)}
    (above : Above level es) (above' : Above level fs) :
    (body body' : List Node) → BodyOnLevel level body → BodyOnLevel level body' →
      List.Forall₂ (Sum.LiftRel H I) (bodyLines body ++ es) (bodyLines body' ++ fs) →
      BodyRelated H I body body' ∧ List.Forall₂ (Sum.LiftRel H I) es fs
  | [], [], _, _, rest => ⟨trivial, rest⟩
  | [], n' :: body', _, h', lines => by
      simp only [bodyLines, List.append_assoc, List.nil_append] at lines
      exact absurd lines (not_forall₂_of_above levels h'.1 above).1
  | n :: body, [], h, _, lines => by
      simp only [bodyLines, List.append_assoc, List.nil_append] at lines
      exact absurd lines (not_forall₂_of_above levels h.1 above').2
  | n :: body, n' :: body', h, h', lines => by
      rw [bodyLines, bodyLines, List.append_assoc, List.append_assoc] at lines
      obtain ⟨first, lines⟩ :=
        related_of_lines levels (h.2.above above) (h'.2.above above') n n' h.1 h'.1 lines
      obtain ⟨others, rest⟩ := bodyRelated_of_lines levels above above' body body' h.2 h'.2 lines
      exact ⟨⟨first, others⟩, rest⟩

end

end Form

/-- In a well laid out tree everything stands on its level. -/
theorem Layout.onLevel {outer : List Int} {n : Node} (h : n.Layout outer)
    (inside : outer ≠ [] ∨ n.isLoop = true) : n.OnLevel outer.length := by
  induction h with
  | @leaf outer s rank computes under depth innermost =>
    have below : outer ≠ [] := inside.resolve_right nofun
    have positive := List.length_pos_iff.mpr below
    have axes : max s.instr.ndim 1 = outer.length := by
      obtain under | ⟨one, empty⟩ := under
      · have shape := congrArg List.length under
        rw [List.length_take] at shape
        have ndim : s.instr.ndim = s.instr.shape.length := rfl
        omega
      · rw [Instruction.ndim, empty, one]
        rfl
    exact congrArg Nat.cast axes
  | @loop outer head body rank size records together nodes ih =>
    refine ⟨rank, bodyOnLevel_iff.mpr fun n hn => ?_⟩
    have inner := ih n hn (.inl (by simp))
    rwa [List.length_append, Nat.cast_add] at inner

end Node

end ArrayFusion
