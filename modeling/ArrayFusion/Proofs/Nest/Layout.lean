import ArrayFusion.Nest.Basic
import ArrayFusion.Proofs.Instruction.Alignment

/-!
# Layout of loop nests

A node has a layout inside loops of given sizes if loops nest rank by rank, every statement has
exactly the sizes of the loops around it, every head records what follows from the statements, and
the statements of every loop can share its iterations. This is the invariant of fusion: nests of
single statements have it, and merging keeps it.
-/

namespace ArrayFusion

/-- Numbers that fit into a word of 32 bits with sign are kept by it. -/
theorem bmod_word {n : Nat} (small : n < 2 ^ 31) : (n : Int).bmod (1 <<< 32) = n := by
  rw [Nat.one_shiftLeft]
  exact Int.bmod_eq_of_le (by omega) (by omega)

/-- Axes that fit into 32 bit words are ranks. -/
theorem Nest.sweepsAlong_natCast {s : Statement} (rank : Nat)
    (small : ∀ axis, s.instr.sweepAxis? = some axis → axis < 2 ^ 31) :
    Nest.sweepsAlong rank s = (s.instr.sweepAxis? == some rank) := by
  rw [Nest.sweepsAlong]
  cases along : s.instr.sweepAxis? with
  | none => rfl
  | some axis =>
      dsimp only
      rw [bmod_word (small axis along), Bool.eq_iff_iff, beq_iff_eq, beq_iff_eq, Option.some.injEq, Int.natCast_inj]

/-- Two statements can share the iterations of a loop: they are aligned, and a fold or scan along
the loop keeps its result to itself. -/
def Statement.Together (rank : Int) (s t : Statement) : Prop :=
  s.instr.Aligned t.instr ∧
    (Nest.sweepsAlong rank s = true → s.instr.Isolated t.instr) ∧
    (Nest.sweepsAlong rank t = true → t.instr.Isolated s.instr)

theorem Statement.Together.symm {rank : Int} {s t : Statement} (h : s.Together rank t) :
    t.Together rank s :=
  ⟨h.1.symm, h.2.2, h.2.1⟩

instance (rank : Int) : Std.Symm (Statement.Together rank) := ⟨fun _ _ => .symm⟩

/-- The head lists the folds and scans along the loop and the bases that are created in it. -/
structure LoopHead.Records (head : LoopHead) (ss : List Statement) : Prop where
  sweeps : head.sweeps = ss.filter (Nest.sweepsAlong head.rank)
  news : head.news = .ofList ((ss.filter (·.instr.creates)).filterMap (·.instr.outputBase?))

/-- A statement that computes something on views that can be built. -/
structure Statement.Computes (s : Statement) : Prop where
  notSystem : s.instr.opcode.isSystem = false
  views : s.instr.WellFormed

/-- The positions of the statement begin with axes of the given sizes. A statement without axes
stands in a loop that runs once. -/
def Statement.Under (outer : List Int) (s : Statement) : Prop :=
  s.instr.shape.take outer.length = outer ∨ (outer = [1] ∧ s.instr.shape = [])

/-- The size of the innermost loop is the size that the statement has along it. -/
theorem Statement.Under.sizeAt {outer : List Int} {size : Int} {s : Statement}
    (h : s.Under (outer ++ [size])) : s.instr.sizeAt outer.length = size := by
  rcases h with under | ⟨one, empty⟩
  · have := congrArg (·[outer.length]?) under
    simp only [List.length_append, List.length_singleton, Nat.lt_add_one,
      List.getElem?_take_of_lt, List.getElem?_concat_length] at this
    rw [Instruction.sizeAt, this, Option.getD_some]
  · cases outer with
    | nil => simp_all [Instruction.sizeAt]
    | cons m outer => simp at one

/-- Loops around a statement are no deeper than views can be. -/
theorem Statement.Under.length_le {outer : List Int} {s : Statement} (under : s.Under outer)
    (computes : s.Computes) : outer.length ≤ maxAxes := by
  rcases under with under | ⟨one, -⟩
  · have inside := congrArg List.length under
    rw [List.length_take] at inside
    have few := Instruction.ndim_le_maxAxes computes.views
    rw [Instruction.ndim] at few
    omega
  · rw [one]
    decide

namespace Node

/-- The node is well laid out inside loops of the given sizes, outermost first. -/
inductive Layout : List Int → Node → Prop
  | leaf {outer : List Int} {s : Statement} {rank : Int} (computes : s.Computes)
      (under : s.Under outer) (depth : s.instr.ndim ≤ outer.length)
      (innermost : rank + 1 = outer.length) : Layout outer (.leaf s rank)
  | loop {outer : List Int} {head : LoopHead} {body : List Node} (rank : head.rank = outer.length)
      (size : 0 ≤ head.size) (records : head.Records (bodyStatements body))
      (together : (bodyStatements body).Pairwise (Statement.Together head.rank))
      (nodes : ∀ n ∈ body, Layout (outer ++ [head.size]) n) : Layout outer (.loop head body)

mutual

/-- What every loop inherits from the nodes in it holds of all nodes. -/
@[elab_as_elim]
theorem induction {P : Node → Prop} (leaf : ∀ s rank, P (.leaf s rank))
    (loop : ∀ head body, (∀ n ∈ body, P n) → P (.loop head body)) : (n : Node) → P n
  | .leaf s rank => leaf s rank
  | .loop head body => loop head body (forall_of_induction leaf loop body)

theorem forall_of_induction {P : Node → Prop} (leaf : ∀ s rank, P (.leaf s rank))
    (loop : ∀ head body, (∀ n ∈ body, P n) → P (.loop head body)) :
    (body : List Node) → ∀ n ∈ body, P n
  | [] => List.forall_mem_nil _
  | n :: body =>
      List.forall_mem_cons.mpr ⟨induction leaf loop n, forall_of_induction leaf loop body⟩

end

/-! ## Statements and loops of a body -/

theorem bodyStatements_eq_flatMap (body : List Node) :
    bodyStatements body = body.flatMap statements := by
  induction body with
  | nil => rfl
  | cons n body ih => rw [bodyStatements, ih, List.flatMap_cons]

theorem statements_sublist {n : Node} {body : List Node} (hn : n ∈ body) :
    n.statements.Sublist (bodyStatements body) := by
  rw [bodyStatements_eq_flatMap]
  exact List.sublist_flatten_of_mem (List.mem_map_of_mem hn)

theorem bodyNests_eq_flatMap (body : List Node) : bodyNests body = body.flatMap nests := by
  induction body with
  | nil => rfl
  | cons n body ih => rw [bodyNests, ih, List.flatMap_cons]

theorem mem_nests_loop {head : LoopHead} {body : List Node} {l : Nest} :
    l ∈ (loop head body).nests ↔ l = ⟨head, body⟩ ∨ ∃ n ∈ body, l ∈ n.nests := by
  rw [nests, bodyNests_eq_flatMap, List.mem_cons, List.mem_flatMap]

/-- If a loop lists all that its nodes list, in the same order, then a node lists all that its loops
list. -/
theorem sublist_of_mem_nests {α : Type} {f : Node → List α}
    (inside : ∀ head body, ∀ m ∈ body, (f m).Sublist (f (loop head body))) (n : Node) :
    ∀ l ∈ n.nests, (f l.toNode).Sublist (f n) := by
  induction n using Node.induction with
  | leaf s rank => exact fun l hl => absurd hl List.not_mem_nil
  | loop head body ih =>
      intro l hl
      obtain rfl | ⟨m, hm, hl⟩ := mem_nests_loop.mp hl
      · exact .refl _
      · exact (ih m hm l hl).trans (inside head body m hm)

/-- The loops of a loop of the node are loops of the node, in the same order. -/
theorem nests_sublist (n : Node) : ∀ l ∈ n.nests, l.toNode.nests.Sublist n.nests := by
  apply sublist_of_mem_nests
  intro head body m hm
  rw [nests, bodyNests_eq_flatMap]
  exact (List.sublist_flatten_of_mem (List.mem_map_of_mem hm)).cons _

/-- The statements of a loop of the node are statements of the node, in the same order. -/
theorem statements_sublist_of_mem_nests (n : Node) :
    ∀ l ∈ n.nests, l.statements.Sublist n.statements := by
  intro l hl
  rw [← Nest.statements_toNode]
  exact sublist_of_mem_nests (fun head body m hm => statements_sublist hm) n l hl

/-- Some loop of the node frees the base. -/
def Frees (b : BaseId) (n : Node) : Prop := ∃ l ∈ n.nests, b ∈ l.head.frees

@[simp] theorem frees_leaf {b : BaseId} {s : Statement} {rank : Int} :
    ¬ (leaf s rank).Frees b := by
  simp [Frees, nests]

@[simp] theorem frees_loop {b : BaseId} {head : LoopHead} {body : List Node} :
    (loop head body).Frees b ↔ b ∈ head.frees ∨ ∃ n ∈ body, n.Frees b := by
  simp only [Frees, nests, bodyNests_eq_flatMap, List.mem_cons, List.mem_flatMap]
  constructor
  · rintro ⟨l, rfl | ⟨n, hn, hl⟩, hb⟩
    · exact .inl hb
    · exact .inr ⟨n, hn, l, hl, hb⟩
  · rintro (hb | ⟨n, hn, l, hl, hb⟩)
    · exact ⟨_, .inl rfl, hb⟩
    · exact ⟨l, .inr ⟨n, hn, hl⟩, hb⟩

/-! ## What a layout says about statements -/

theorem Layout.statement {outer : List Int} {n : Node} (h : Layout outer n) :
    ∀ s ∈ n.statements, s.Computes ∧ s.Under outer := by
  induction h with
  | leaf computes under depth innermost =>
      intro s hs
      rw [statements, List.mem_singleton] at hs
      exact hs ▸ ⟨computes, under⟩
  | @loop outer head body rank size records together nodes ih =>
      intro s hs
      rw [statements, bodyStatements_eq_flatMap, List.mem_flatMap] at hs
      obtain ⟨n, hn, hs⟩ := hs
      obtain ⟨computes, under⟩ := ih n hn s hs
      refine ⟨computes, ?_⟩
      rcases under with under | ⟨one, empty⟩
      · left
        have := congrArg (List.take outer.length) under
        simpa [List.take_take] using this
      · cases outer with
        | nil => exact .inl (by simp)
        | cons m outer => simp at one

theorem Layout.nodes {outer : List Int} {head : LoopHead} {body : List Node}
    (h : Layout outer (.loop head body)) : ∀ n ∈ body, n.Layout (outer ++ [head.size]) := by
  cases h with
  | loop rank size records together nodes => exact nodes

theorem Layout.body {outer : List Int} {head : LoopHead} {body : List Node}
    (h : Layout outer (.loop head body)) : ∀ s ∈ bodyStatements body,
      s.Computes ∧ s.Under (outer ++ [head.size]) := by
  intro s hs
  rw [bodyStatements_eq_flatMap, List.mem_flatMap] at hs
  obtain ⟨n, hn, hs⟩ := hs
  exact (h.nodes n hn).statement s hs

theorem fitsBody_iff {rank size : Int} {body : List Node} :
    fitsBody rank size body = true ↔ ∀ n ∈ body, n.fits rank size = true := by
  induction body with
  | nil => simp [fitsBody]
  | cons n body ih => simp [fitsBody, ih]

theorem Layout.fits {outer : List Int} {n : Node} (h : Layout outer n) {init : List Int}
    {size : Int} (split : outer = init ++ [size]) : n.fits init.length size = true := by
  induction h generalizing init size with
  | @leaf outer s rank computes under depth innermost =>
      subst split
      have free : s.instr.opcode ≠ .free := by
        intro free
        have := computes.notSystem
        rw [free] at this
        contradiction
      have place : rank = init.length := by
        simp only [List.length_append, List.length_singleton] at innermost
        omega
      have along := Statement.Under.sizeAt under
      simp [Node.fits, place, along, free]
  | @loop outer head body rank nonneg records together nodes ih =>
      subst split
      have inner : fitsBody head.rank head.size body = true := by
        rw [rank]
        exact fitsBody_iff.mpr fun n hn => ih n hn rfl
      have next : head.rank = init.length + 1 := by simpa using rank
      rw [Node.fits, inner, next]
      simp [nonneg]

end Node

namespace Nest

/-- A well laid out loop is valid. -/
theorem isValid_of_layout {l : Nest} {outer : List Int} (h : l.toNode.Layout outer) :
    l.isValid = true := by
  cases h with
  | loop rank size records together nodes =>
      rw [isValid, rank]
      exact Node.fitsBody_iff.mpr fun n hn => (nodes n hn).fits rfl

theorem mem_allFrees_iff {l : Nest} {b : BaseId} : b ∈ l.allFrees ↔ l.toNode.Frees b := by
  rw [allFrees, ← nests_toNode, BaseSet.mem_unions]
  simp [Node.Frees]

end Nest

end ArrayFusion
