import ArrayFusion.Nest.Peel
import ArrayFusion.Proofs.Nest.Build

/-!
# Nests with changed statements

Peeling changes all statements of a nest in one way and keeps the loops around them, which may come
some ranks further out. Building a nest looks at nothing but the sizes of its statements, so that
building one from changed statements is changing the nest that was built from them.
-/

namespace ArrayFusion

namespace Node

mutual

/-- The node with all statements changed, a number of ranks further out. -/
def transform (f : Statement → Statement) (down : Int) : Node → Node
  | loop head body =>
    let body := transformBody f down body
    loop (Nest.describe { head with rank := head.rank - down } body) body
  | leaf s rank => leaf (f s) (rank - down)

/-- The nodes of a body with all statements changed. -/
def transformBody (f : Statement → Statement) (down : Int) : List Node → List Node
  | [] => []
  | n :: body => n.transform f down :: transformBody f down body

end

variable {f : Statement → Statement} {down : Int}

theorem transformBody_eq_map (body : List Node) :
    transformBody f down body = body.map (transform f down) := by
  induction body with
  | nil => rfl
  | cons n body ih => rw [transformBody, List.map_cons, ih]

mutual

@[simp] theorem statements_transform : (n : Node) →
    (n.transform f down).statements = n.statements.map f
  | loop head body => by
      rw [transform, statements, statements, bodyStatements_transformBody body]
  | leaf s rank => rfl

@[simp] theorem bodyStatements_transformBody : (body : List Node) →
    bodyStatements (transformBody f down body) = (bodyStatements body).map f
  | [] => rfl
  | n :: body => by
      rw [transformBody, bodyStatements, bodyStatements, List.map_append, statements_transform n,
        bodyStatements_transformBody body]

end

mutual

/-- The same bases are freed. -/
theorem frees_transform {b : BaseId} : (n : Node) → ((n.transform f down).Frees b ↔ n.Frees b)
  | loop head body => by
      rw [transform, frees_loop, frees_loop, frees_transformBody body]
      rfl
  | leaf s rank => by simp [transform]

theorem frees_transformBody {b : BaseId} : (body : List Node) →
    ((∃ n ∈ transformBody f down body, n.Frees b) ↔ ∃ n ∈ body, n.Frees b)
  | [] => by simp [transformBody]
  | n :: body => by
      simp only [transformBody, List.mem_cons, exists_eq_or_imp, frees_transform n,
        frees_transformBody body]

end

mutual

/-- Leaving out the first index of an axis changes all statements in one way. -/
theorem advance_eq_transform (axis : Nat) : (n : Node) →
    n.advance axis = n.transform (fun s => .fresh (s.instr.advanceAxis axis)) 0
  | loop head body => by
      rw [advance, transform, advanceBody_eq_transformBody axis body, Int.sub_zero]
  | leaf s rank => by rw [advance, transform, Int.sub_zero]

theorem advanceBody_eq_transformBody (axis : Nat) : (body : List Node) →
    advanceBody axis body = transformBody (fun s => .fresh (s.instr.advanceAxis axis)) 0 body
  | [] => rfl
  | n :: body => by
      rw [advanceBody, transformBody, advance_eq_transform axis n,
        advanceBody_eq_transformBody axis body]

end

end Node

namespace Nest

/-- The loop with all statements changed, a number of ranks further out. -/
def transform (f : Statement → Statement) (down : Int) (l : Nest) : Nest :=
  refresh ⟨{ l.head with rank := l.head.rank - down }, Node.transformBody f down l.body⟩

theorem toNode_transform (f : Statement → Statement) (down : Int) (l : Nest) :
    (l.transform f down).toNode = l.toNode.transform f down := rfl

/-! ## Building from changed statements -/

/-- The change takes the first axis off a statement. -/
structure Lowers (f : Statement → Statement) (s : Statement) : Prop where
  inside : 0 < s.instr.ndim
  shape : (f s).instr.shape = s.instr.shape.tail

namespace Lowers

variable {f : Statement → Statement} {s : Statement}

theorem ndim (h : Lowers f s) : (f s).instr.ndim + 1 = s.instr.ndim := by
  have inside := h.inside
  rw [Instruction.ndim] at inside ⊢
  rw [Instruction.ndim, h.shape, List.length_tail]
  omega

theorem sizeAt (h : Lowers f s) (rank : Nat) :
    (f s).instr.sizeAt rank = s.instr.sizeAt (rank + 1) := by
  rw [Instruction.sizeAt, Instruction.sizeAt, h.shape, List.getElem?_tail]

end Lowers

variable {f : Statement → Statement}

/-- The segment with all statements changed. -/
def Segment.map (f : Statement → Statement) : Segment → Segment
  | .single s => .single (f s)
  | .run ss => .run (ss.map f)

theorem joinRun_map {rank : Nat} {s : Statement} {parts : List Segment} (lowers : Lowers f s)
    (all : ∀ p ∈ parts, ∀ t ∈ p.statements, Lowers f t) :
    joinRun rank (f s) (parts.map (.map f)) = (joinRun (rank + 1) s parts).map (.map f) := by
  rcases parts with _ | ⟨_ | _ | ⟨t, ts⟩, rest⟩
  · rfl
  · rfl
  · rfl
  · have first : Lowers f t := all _ (List.mem_cons_self ..) t (by simp [Segment.statements])
    simp only [List.map_cons, Segment.map, joinRun, lowers.sizeAt, first.sizeAt]
    split <;> rfl

theorem segments_map {rank : Nat} {ss : List Statement} (all : ∀ s ∈ ss, Lowers f s) :
    segments rank (ss.map f) = (segments (rank + 1) ss).map (.map f) := by
  induction ss with
  | nil => rfl
  | cons s ss ih =>
      have lowers := all s (List.mem_cons_self ..)
      have rest : ∀ t ∈ ss, Lowers f t := fun t ht => all t (List.mem_cons_of_mem s ht)
      have depth : (f s).instr.ndim ≤ rank + 1 ↔ s.instr.ndim ≤ rank + 1 + 1 := by
        rw [← lowers.ndim]
        omega
      rw [List.map_cons, segments, segments, ih rest]
      simp only [depth]
      split
      · rfl
      · refine joinRun_map lowers fun p hp t ht => rest t ?_
        rw [← (segments_spec (rank + 1) ss).1]
        exact List.mem_flatMap.mpr ⟨p, hp, ht⟩

theorem commonSize_map {rank : Nat} {ss : List Statement} (all : ∀ s ∈ ss, Lowers f s) :
    commonSize rank (ss.map f) = commonSize (rank + 1) ss := by
  cases ss with
  | nil => rfl
  | cons s ss => simp [commonSize, (all s (List.mem_cons_self ..)).sizeAt]

theorem endsInRun_map (parts : List Segment) :
    endsInRun (parts.map (.map f)) = endsInRun parts := by
  induction parts with
  | nil => rfl
  | cons p parts ih =>
      cases parts with
      | nil => cases p <;> rfl
      | cons q parts => cases p <;> exact ih

/-- Ranks that fit into a word are recorded one by one. -/
theorem rankWord_succ {rank : Nat} (small : rank + 1 < 2 ^ 31) :
    rankWord (rank + 1) - 1 = rankWord rank := by
  rw [rankWord_of_lt small, rankWord_of_lt (by omega)]
  omega

theorem buildBody_map {rank : Nat} {frees : BaseSet} {parts : List Segment}
    {inner inner' : BaseSet → List Statement → Numbering Nest}
    (small : rank + 1 < 2 ^ 31)
    (lowered : ∀ frees ss, Segment.run ss ∈ parts →
      inner frees (ss.map f) = transform f 1 <$> inner' frees ss) :
    buildBody rank frees inner (parts.map (.map f)) =
      Node.transformBody f 1 <$> buildBody (rank + 1) frees inner' parts := by
  induction parts with
  | nil => rfl
  | cons p parts ih =>
      have rest := ih fun frees ss hss => lowered frees ss (List.mem_cons_of_mem p hss)
      cases p with
      | single s =>
          simp [Segment.map, buildBody, rest, Node.transformBody, Node.transform,
            rankWord_succ small]
      | run ss =>
          simp [Segment.map, buildBody, rest, Node.transformBody,
            lowered _ ss (List.mem_cons_self ..), toNode_transform]

/-- Building a loop from statements that lost their first axis. -/
theorem buildSized_map {levels rank : Nat} {size : Int} {frees : BaseSet} {ss : List Statement}
    (all : ∀ s ∈ ss, Lowers f s) (small : rank + levels + 1 < 2 ^ 31) :
    buildSized levels rank size frees (ss.map f) =
      transform f 1 <$> buildSized levels (rank + 1) size frees ss := by
  induction levels generalizing rank size frees ss with
  | zero =>
      simp only [buildSized, map_bind, map_pure]
      refine congrArg (Numbering.next >>= ·) (funext fun id => congrArg pure ?_)
      simp [transform, refresh, describe, Node.transformBody_eq_map, Node.transform,
        Function.comp_def, rankWord_succ small]
  | succ levels ih =>
      have part : ∀ us, Segment.run us ∈ segments (rank + 1) ss → ∀ t ∈ us, Lowers f t := by
        intro us hus t ht
        refine all t ?_
        rw [← (segments_spec (rank + 1) ss).1]
        exact List.mem_flatMap.mpr ⟨_, hus, ht⟩
      simp only [buildSized, segments_map all, endsInRun_map, map_bind, map_pure]
      refine congrArg (Numbering.next >>= ·) (funext fun id => ?_)
      rw [buildBody_map (by omega) (fun frees us hus => ?_), bind_map_left]
      · refine congrArg _ (funext fun body => congrArg pure ?_)
        simp [transform, refresh, describe, rankWord_succ (by omega : rank + 1 < 2 ^ 31)]
      · rw [commonSize_map (part us hus), ih (part us hus) (by omega)]

end Nest

end ArrayFusion
