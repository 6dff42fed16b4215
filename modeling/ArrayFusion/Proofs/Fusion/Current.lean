import ArrayFusion.Nest.Peel
import ArrayFusion.Proofs.Fusion.Passes

/-!
# What loops record is never stale

The head of a loop repeats what could be read off the statements below it. Building, merging,
freeing, replacing and peeling all change these statements, at any depth, and have to record anew
every loop that they change. `Obtained` are the nodes that such operations lead to, and all of their
loops record what their statements say.

What they say of folds and scans is read through 32 bit words: an axis whose number only agrees with
the rank in its last 32 bits is recorded as an axis of the loop. The list is exact where this does
not occur. A loop without computation, which only frees bases, need not record whether it can be
given another shape.
-/

namespace ArrayFusion

open Numbered

/-- The head of the loop records what follows from its statements. -/
structure Nest.Current (l : Nest) : Prop where
  records : l.head.Records l.statements
  reshapable : l.isSystemOnly = false → l.head.reshapable =
    l.statements.all fun s => s.instr.opcode.isSystem || s.instr.isReshapable

/-- All loops of the node record what follows from their statements. -/
def Node.AllCurrent (n : Node) : Prop := ∀ l ∈ n.nests, l.Current

namespace Nest

variable {l : Nest}

/-- What is recorded does not depend on the number, the size and the frees of the loop. -/
theorem Current.of_same {head : LoopHead} {body : List Node} (h : l.Current)
    (statements : Node.bodyStatements body = l.statements) (rank : head.rank = l.head.rank)
    (sweeps : head.sweeps = l.head.sweeps) (news : head.news = l.head.news)
    (reshapable : head.reshapable = l.head.reshapable) : Current ⟨head, body⟩ := by
  have same : Nest.statements ⟨head, body⟩ = l.statements := statements
  have instrs : Nest.instrs ⟨head, body⟩ = l.instrs := by
    rw [Nest.instrs, same, Nest.instrs]
  refine ⟨⟨?_, ?_⟩, fun computes => ?_⟩
  · rw [same, sweeps, rank]
    exact h.records.sweeps
  · rw [same, news]
    exact h.records.news
  · rw [isSystemOnly, instrs] at computes
    rw [same, reshapable]
    exact h.reshapable computes

theorem current_refresh (l : Nest) : l.refresh.Current := ⟨⟨rfl, rfl⟩, fun _ => rfl⟩

/-- A loop without statements has nothing to record. -/
theorem current_holder (id : Nat) (rank size : Int) (frees : BaseSet) :
    Current ⟨{ id, rank, size, frees }, []⟩ :=
  ⟨⟨rfl, rfl⟩, fun computes => Bool.noConfusion computes⟩

end Nest

namespace Node

theorem allCurrent_leaf (s : Statement) (rank : Int) : (leaf s rank).AllCurrent :=
  fun _ hl => absurd hl List.not_mem_nil

theorem allCurrent_loop {head : LoopHead} {body : List Node} :
    (loop head body).AllCurrent ↔ Nest.Current ⟨head, body⟩ ∧ ∀ n ∈ body, n.AllCurrent := by
  simp only [AllCurrent, nests, bodyNests_eq_flatMap, List.forall_mem_cons, List.mem_flatMap]
  constructor
  · rintro ⟨outer, inner⟩
    exact ⟨outer, fun n hn l hl => inner l ⟨n, hn, hl⟩⟩
  · rintro ⟨outer, inner⟩
    refine ⟨outer, ?_⟩
    rintro l ⟨n, hn, hl⟩
    exact inner n hn l hl

/-- A loop that is recorded anew is current if the loops in it are. -/
theorem allCurrent_refresh {l : Nest} (nodes : ∀ n ∈ l.body, n.AllCurrent) :
    l.refresh.toNode.AllCurrent := allCurrent_loop.mpr ⟨l.current_refresh, nodes⟩

mutual

/-- Every loop of a node in which a statement is replaced is recorded anew. -/
theorem allCurrent_replace (place : Nat) (new : Instruction) :
    (n : Node) → (n.replace place new).AllCurrent
  | leaf _ rank => allCurrent_leaf _ rank
  | loop head body => allCurrent_refresh (l := ⟨head, _⟩) (allCurrent_replaceBody place new body)

theorem allCurrent_replaceBody (place : Nat) (new : Instruction) :
    (body : List Node) → ∀ n ∈ replaceBody place new body, n.AllCurrent
  | [] => List.forall_mem_nil _
  | n :: body => List.forall_mem_cons.mpr
      ⟨allCurrent_replace place new n, allCurrent_replaceBody place new body⟩

end

mutual

/-- Every loop of a node without its first iteration is recorded anew. -/
theorem allCurrent_advance (axis : Nat) : (n : Node) → (n.advance axis).AllCurrent
  | leaf _ rank => allCurrent_leaf _ rank
  | loop head body => allCurrent_refresh (l := ⟨head, _⟩) (allCurrent_advanceBody axis body)

theorem allCurrent_advanceBody (axis : Nat) :
    (body : List Node) → ∀ n ∈ advanceBody axis body, n.AllCurrent
  | [] => List.forall_mem_nil _
  | n :: body => List.forall_mem_cons.mpr
      ⟨allCurrent_advance axis n, allCurrent_advanceBody axis body⟩

end

mutual

/-- A free changes neither the statements nor what is recorded of them. -/
theorem allCurrent_attachFree (b : BaseId) :
    (n : Node) → n.AllCurrent → (n.attachFree b).AllCurrent
  | leaf _ _, h => h
  | loop head body, h => by
    obtain ⟨outer, inner⟩ := allCurrent_loop.mp h
    rw [attachFree]
    split
    next body' found =>
      have same := statements_attachFreeBody b body found
      exact allCurrent_loop.mpr
        ⟨outer.of_same same rfl rfl rfl rfl, allCurrent_attachFreeBody b body found inner⟩
    next => exact allCurrent_loop.mpr ⟨outer.of_same rfl rfl rfl rfl rfl, inner⟩

theorem allCurrent_attachFreeBody (b : BaseId) : (body : List Node) → {body' : List Node} →
    attachFreeBody b body = some body' → (∀ n ∈ body, n.AllCurrent) → ∀ n ∈ body', n.AllCurrent
  | [], _, found, _ => by contradiction
  | n :: body, body', found, h => by
    obtain ⟨here, later⟩ := List.forall_mem_cons.mp h
    rw [attachFreeBody] at found
    split at found
    next rest inRest =>
      cases found
      exact List.forall_mem_cons.mpr ⟨here, allCurrent_attachFreeBody b body inRest later⟩
    next =>
      split at found
      · contradiction
      · split at found
        · cases found
          exact List.forall_mem_cons.mpr ⟨allCurrent_attachFree b n here, later⟩
        · contradiction

end

end Node

namespace Nest

variable {a b l : Nest} {n m : Nat}

/-! ## Loops that are built from statements -/

theorem allCurrent_buildBody (rank : Nat) (frees : BaseSet)
    (inner : BaseSet → List Statement → Numbering Nest)
    (builds : ∀ frees ss n, (inner frees ss n).1.toNode.AllCurrent) (parts : List Segment)
    (n : Nat) : ∀ node ∈ (buildBody rank frees inner parts n).1, node.AllCurrent := by
  induction parts generalizing n with
  | nil => exact List.forall_mem_nil _
  | cons part rest ih =>
    cases part with
    | single s => exact List.forall_mem_cons.mpr ⟨Node.allCurrent_leaf s (rankWord rank), ih n⟩
    | run ss => exact List.forall_mem_cons.mpr ⟨builds _ ss n, ih _⟩

theorem allCurrent_buildSized (levels rank : Nat) (size : Int) (frees : BaseSet)
    (ss : List Statement) (n : Nat) :
    (buildSized levels rank size frees ss n).1.toNode.AllCurrent := by
  induction levels generalizing rank size frees ss n with
  | zero =>
    refine Node.allCurrent_refresh (l := ⟨_, ss.map (Node.leaf · (rankWord rank))⟩) ?_
    intro node hnode
    obtain ⟨s, -, rfl⟩ := List.mem_map.mp hnode
    exact Node.allCurrent_leaf s (rankWord rank)
  | succ levels ih =>
    have inner := allCurrent_buildBody rank frees
      (fun frees ss => buildSized levels (rank + 1) (commonSize (rank + 1) ss) frees ss)
      (fun frees ss n => ih _ _ frees ss n) (segments rank ss) (n + 1)
    exact Node.allCurrent_refresh (l := ⟨_, _⟩) inner

theorem allCurrent_ofStatements (rank : Nat) (frees : BaseSet) (ss : List Statement) (n : Nat) :
    (ofStatements rank frees ss n).1.toNode.AllCurrent :=
  allCurrent_buildSized _ rank _ frees _ n

/-! ## Loops that are merged -/

theorem allCurrent_takeFrees {frees : BaseSet} (h : l.toNode.AllCurrent)
    (taken : l.takeFrees frees n = .ok (a, m)) : a.toNode.AllCurrent := by
  obtain ⟨rfl, -⟩ := takeFrees_eq_ok taken
  obtain ⟨outer, inner⟩ := Node.allCurrent_loop.mp h
  exact Node.allCurrent_loop.mpr ⟨outer.of_same rfl rfl rfl rfl rfl, inner⟩

theorem allCurrent_resize {size : Int} (h : l.toNode.AllCurrent)
    (resized : l.resize size n = .ok (a, m)) : a.toNode.AllCurrent := by
  obtain ⟨rfl, -⟩ | ⟨ss, built, -, made, rfl⟩ := resize_eq_ok resized
  · exact h
  · have fresh := allCurrent_ofStatements l.head.rank.toNat [] ss n
    rw [made] at fresh
    exact Node.allCurrent_refresh (l := ⟨_, built.body⟩) (Node.allCurrent_loop.mp fresh).2

/-- A function that merges two loops leaves nothing stale. -/
def MergesCurrent (merge : Nest → Nest → Numbered Nest) : Prop :=
  ∀ a b n l m, a.toNode.AllCurrent → b.toNode.AllCurrent → merge a b n = .ok (l, m) →
    l.toNode.AllCurrent

theorem allCurrent_joinBody {merge : Nest → Nest → Numbered Nest} (merges : MergesCurrent merge)
    {done rest body : List Node} (all : ∀ n ∈ done.reverse ++ rest, n.AllCurrent)
    (h : joinBody merge done rest n = .ok (body, m)) : ∀ n ∈ body, n.AllCurrent := by
  refine joinBody_induction
    (R := fun body _ body' _ => (∀ n ∈ body, n.AllCurrent) → ∀ n ∈ body', n.AllCurrent)
    (fun _ _ => id) (fun first second => second ∘ first) ?_ h all
  intro before after a b l n m merged all
  simp only [List.forall_mem_append, List.forall_mem_cons] at all ⊢
  obtain ⟨before, first, second, after⟩ := all
  exact ⟨before, merges a b n l m first second merged, after⟩

theorem allCurrent_mergeWith {join : List Node → Numbered (List Node)}
    (joins : ∀ body n body' m, (∀ node ∈ body, node.AllCurrent) → join body n = .ok (body', m) →
      ∀ node ∈ body', node.AllCurrent) : MergesCurrent (mergeWith join) := by
  intro a b n l m first second h
  obtain ⟨-, taken⟩ | ⟨-, taken⟩ | ⟨a', b', k₁, k₂, body, -, -, resizedA, resizedB, joined, rfl⟩ :=
    mergeWith_eq_ok h
  · exact allCurrent_takeFrees first taken
  · exact allCurrent_takeFrees second taken
  have innerA := (Node.allCurrent_loop.mp (allCurrent_resize first resizedA)).2
  have innerB := (Node.allCurrent_loop.mp (allCurrent_resize second resizedB)).2
  have inner := joins _ _ _ _ (List.forall_mem_append.mpr ⟨innerA, innerB⟩) joined
  exact Node.allCurrent_refresh (l := ⟨_, body⟩) inner

theorem allCurrent_mergeLevels (levels : Nat) : MergesCurrent (mergeLevels levels) := by
  induction levels with
  | zero =>
    refine allCurrent_mergeWith fun body n body' m all h => ?_
    cases h
    exact all
  | succ levels ih =>
    exact allCurrent_mergeWith fun body n body' m all h =>
      allCurrent_joinBody ih all h

theorem allCurrent_merge (first : a.toNode.AllCurrent) (second : b.toNode.AllCurrent)
    (merged : a.merge b n = .ok (l, m)) : l.toNode.AllCurrent :=
  allCurrent_mergeLevels _ a b n l m first second merged

theorem allCurrent_resizeAndMerge (first : a.toNode.AllCurrent) (second : b.toNode.AllCurrent)
    (merged : a.resizeAndMerge b n = .ok (l, m)) : l.toNode.AllCurrent := by
  obtain ⟨a', k, resizedA, merged⟩ := bind_eq_ok merged
  obtain ⟨b', k', resizedB, merged⟩ := bind_eq_ok merged
  exact allCurrent_merge (allCurrent_resize first resizedA) (allCurrent_resize second resizedB) merged

/-! ## The first iteration and the rest of a loop -/

theorem allCurrent_firstIterations (axis : Nat) (body : List Node) (n : Nat) :
    ∀ node ∈ (Node.firstIterations axis body n).1, node.AllCurrent := by
  induction body generalizing n with
  | nil => exact List.forall_mem_nil _
  | cons node body ih =>
    rw [Node.firstIterations_cons]
    refine List.forall_mem_append.mpr ⟨?_, ih _⟩
    cases node with
    | leaf s rank => exact List.forall_mem_singleton.mpr (Node.allCurrent_leaf _ _)
    | loop head inner =>
      simp only [Node.firstIteration]
      split
      · exact List.forall_mem_nil _
      · exact List.forall_mem_singleton.mpr (allCurrent_ofStatements axis [] _ n)

/-- Both parts of a peeled loop are built or recorded anew, whatever the loop recorded. -/
theorem allCurrent_peel (l : Nest) (n : Nat) : (∀ node ∈ (l.peel n).1.1, node.AllCurrent) ∧
    ∀ rest ∈ (l.peel n).1.2, rest.toNode.AllCurrent := by
  have blocks := allCurrent_firstIterations l.head.rank.toNat l.body n
  have none : ∀ rest ∈ (none : Option Nest), rest.toNode.AllCurrent := by simp
  rw [peel]
  by_cases once : l.head.size ≤ 1
  · by_cases empty : l.allFrees.isEmpty = true
    · simp only [once, empty, if_true]
      exact ⟨blocks, none⟩
    · simp only [once, empty, if_true]
      refine ⟨List.forall_mem_append.mpr ⟨blocks, List.forall_mem_singleton.mpr ?_⟩, none⟩
      exact Node.allCurrent_loop.mpr ⟨current_holder .., List.forall_mem_nil _⟩
  · simp only [once, if_false]
    refine ⟨blocks, fun rest left => ?_⟩
    cases left
    exact Node.allCurrent_refresh (l := ⟨_, _⟩) (Node.allCurrent_advanceBody _ l.body)

end Nest

/-! ## All operations together -/

/-- Nodes that operations on loops lead to, in any order and number. -/
inductive Node.Obtained : Node → Prop
  | leaf (s : Statement) (rank : Int) : Obtained (.leaf s rank)
  | built (rank : Nat) (size : Int) (frees : BaseSet) (ss : List Statement) (n : Nat) :
      Obtained (Nest.ofStatementsSized rank size frees ss n).1.toNode
  /-- A loop without statements, which frees bases. -/
  | holder (id : Nat) (rank size : Int) (frees : BaseSet) :
      Obtained (.loop { id, rank, size, frees } [])
  | kernel {body : List Node} (nodes : ∀ n ∈ body, Obtained n) (n : Nat) :
      Obtained (Nest.kernel body n).1.toNode
  | freed {l : Nest} (before : Obtained l.toNode) (b : BaseId) : Obtained (l.attachFree b).toNode
  | merged {a b l : Nest} {n m : Nat} (first : Obtained a.toNode) (second : Obtained b.toNode)
      (merged : a.merge b n = .ok (l, m)) : Obtained l.toNode
  | resized {a b l : Nest} {n m : Nat} (first : Obtained a.toNode) (second : Obtained b.toNode)
      (merged : a.resizeAndMerge b n = .ok (l, m)) : Obtained l.toNode
  | replaced {l : Nest} (before : Obtained l.toNode) (place : Nat) (new : Instruction) :
      Obtained (l.replace place new).toNode
  /-- A block of the first iteration. -/
  | peeled {l : Nest} {node : Node} {n : Nat} (before : Obtained l.toNode)
      (block : node ∈ (l.peel n).1.1) : Obtained node
  /-- The loop over the remaining iterations. -/
  | remaining {l rest : Nest} {n : Nat} (before : Obtained l.toNode)
      (left : (l.peel n).1.2 = some rest) : Obtained rest.toNode
  | inner {l : Nest} {node : Node} (around : Obtained node) (inside : l ∈ node.nests) :
      Obtained l.toNode

namespace Node

theorem Obtained.allCurrent {node : Node} (h : node.Obtained) : node.AllCurrent := by
  induction h with
  | leaf s rank => exact allCurrent_leaf s rank
  | built rank size frees ss n => exact Nest.allCurrent_buildSized _ rank size frees _ n
  | holder id rank size frees =>
    exact allCurrent_loop.mpr ⟨Nest.current_holder id rank size frees, List.forall_mem_nil _⟩
  | kernel nodes n ih => exact allCurrent_refresh (l := ⟨_, _⟩) ih
  | freed before b ih =>
    rw [Nest.toNode_attachFree]
    exact allCurrent_attachFree b _ ih
  | merged first second merged ihFirst ihSecond =>
    exact Nest.allCurrent_merge ihFirst ihSecond merged
  | resized first second merged ihFirst ihSecond =>
    exact Nest.allCurrent_resizeAndMerge ihFirst ihSecond merged
  | @replaced l before place new ih =>
    exact allCurrent_refresh (l := ⟨l.head, _⟩) (allCurrent_replaceBody place new l.body)
  | peeled before block ih => exact (Nest.allCurrent_peel ..).1 _ block
  | remaining before left ih => exact (Nest.allCurrent_peel ..).2 _ left
  | inner around inside ih => exact fun l hl => ih l ((nests_sublist _ _ inside).subset hl)

end Node

/-- Fusion works with these operations only. -/
theorem Fusion.obtained_of_fuse {separate : Bool} {ss : List Statement} {ls : List Nest} {n m : Nat}
    (fused : fuse separate ss n = .ok (ls, m)) : ∀ l ∈ ls, l.toNode.Obtained := by
  refine forall_of_fuse (fun first second _ merged => .merged first second merged) ?_ fused
  refine (prepared_singletons ss n).forall ?_ (fun _ b before => .freed before b) ?_
  · exact fun s _ k => .built 0 _ [] [s] k
  · exact fun id b => .holder id 0 1 [b]

namespace Nest

/-- The statement folds or scans along the axis of this rank. -/
def sweepsAxis (rank : Int) (s : Statement) : Bool :=
  s.instr.sweepAxis?.any fun axis => (axis : Int) == rank

theorem sweepsAlong_eq_sweepsAxis_iff {rank : Int} {s : Statement} :
    sweepsAlong rank s = sweepsAxis rank s ↔ ∀ axis, s.instr.sweepAxis? = some axis →
      ((axis : Int).bmod (2 ^ 32) = rank ↔ (axis : Int) = rank) := by
  rw [sweepsAlong, sweepsAxis, Bool.eq_iff_iff]
  cases s.instr.sweepAxis? <;> simp [Nat.one_shiftLeft]

/-- Axes that fit into 32 bit words are read exactly. -/
theorem sweepsAlong_eq_sweepsAxis {rank : Int} {s : Statement}
    (small : ∀ axis, s.instr.sweepAxis? = some axis → axis < 2 ^ 31) :
    sweepsAlong rank s = sweepsAxis rank s := by
  refine sweepsAlong_eq_sweepsAxis_iff.mpr fun axis along => ?_
  have fits := small axis along
  have word : (axis : Int).bmod (2 ^ 32) = axis := Int.bmod_eq_of_le (by omega) (by omega)
  rw [word]

/-- Two conditions that select the same elements agree on all of them. -/
theorem filter_eq_filter_iff {α : Type} {p q : α → Bool} {xs : List α} :
    xs.filter p = xs.filter q ↔ ∀ x ∈ xs, p x = q x := by
  refine ⟨fun same x hx => ?_, List.filter_congr⟩
  have both : x ∈ xs.filter p ↔ x ∈ xs.filter q := by rw [same]
  rw [List.mem_filter, List.mem_filter, and_iff_right hx, and_iff_right hx] at both
  exact Bool.eq_iff_iff.mpr both

variable {l : Nest} {node : Node}

/-- Every loop that computes something, at any depth of whatever the operations lead to, records
exactly the bases that its statements create and whether all of them can be given another shape. It
records, in the order of execution, the folds and scans whose axis has the word of its rank. These
are the folds and scans along its axis if and only if no axis of its statements is mistaken for its
rank, as is the case for all axes below 2^31. -/
theorem recorded_of_obtained (h : node.Obtained) (hl : l ∈ node.nests)
    (computes : ∃ s ∈ l.statements, s.instr.opcode.isSystem = false) :
    (l.head.sweeps = l.statements.filter (sweepsAlong l.head.rank) ∧
      (l.head.sweeps = l.statements.filter (sweepsAxis l.head.rank) ↔
        ∀ s ∈ l.statements, ∀ axis, s.instr.sweepAxis? = some axis →
          ((axis : Int).bmod (2 ^ 32) = l.head.rank ↔ (axis : Int) = l.head.rank)) ∧
      ((∀ s ∈ l.statements, ∀ axis, s.instr.sweepAxis? = some axis → axis < 2 ^ 31) →
        l.head.sweeps = l.statements.filter (sweepsAxis l.head.rank))) ∧
    (∀ b, b ∈ l.head.news ↔
      ∃ s ∈ l.statements, s.instr.creates = true ∧ s.instr.outputBase? = some b) ∧
    (l.head.reshapable = true ↔
      ∀ s ∈ l.statements, s.instr.opcode.isSystem = false → s.instr.isReshapable = true) := by
  have current := h.allCurrent l hl
  have sweeps := current.records.sweeps
  refine ⟨⟨sweeps, ?_, fun small => ?_⟩, fun b => ?_, ?_⟩
  · rw [sweeps, filter_eq_filter_iff]
    exact forall₂_congr fun s _ => sweepsAlong_eq_sweepsAxis_iff
  · rw [sweeps]
    exact List.filter_congr fun s hs => sweepsAlong_eq_sweepsAxis (small s hs)
  · rw [current.records.news, BaseSet.mem_ofList, List.mem_filterMap]
    simp only [List.mem_filter, and_assoc]
  · have some : l.isSystemOnly = false := by
      simpa [isSystemOnly, instrs] using computes
    rw [current.reshapable some, List.all_eq_true]
    refine forall₂_congr fun s _ => ?_
    cases s.instr.opcode.isSystem <;> simp

/-- The loop over all but the first element of a sum still records the sum. -/
theorem recorded_of_obtained_sum :
    let sum : Statement := ⟨.sweep (.reduce .add) (.whole 1 .int64 1) (.whole 0 .int64 4) 0, some 0⟩
    let loop := (ofStatements 0 [] [sum] 0).1
    ∃ rest, (loop.peel 1).1.2 = some rest ∧
      (∃ s ∈ rest.statements, s.instr.opcode.isSystem = false) ∧
      rest.head.sweeps = rest.statements.filter (sweepsAxis rest.head.rank) ∧
      rest.head.sweeps ≠ [] := by
  intro sum loop
  let next : Statement := .fresh (sum.instr.advanceAxis 0)
  let rest : Nest := ⟨{ loop.head with id := 1, size := 3, sweeps := [next] }, [.leaf next 0]⟩
  have left : (loop.peel 1).1.2 = some rest := rfl
  have computes : ∃ s ∈ rest.statements, s.instr.opcode.isSystem = false :=
    ⟨next, List.mem_singleton_self next, by decide⟩
  have small : ∀ s ∈ rest.statements, ∀ axis, s.instr.sweepAxis? = some axis → axis < 2 ^ 31 := by
    refine List.forall_mem_singleton.mpr fun axis along => ?_
    have first : next.instr.sweepAxis? = some 0 := by decide
    cases first.symm.trans along
    decide
  have obtained : rest.toNode.Obtained := .remaining (.built 0 _ [] [sum] 0) left
  have recorded := recorded_of_obtained obtained List.mem_cons_self computes
  exact ⟨rest, left, computes, recorded.1.2.2 small, List.cons_ne_nil _ _⟩

/-- A fold along an axis with a number as large as 2^32 is recorded as one along the first axis. -/
theorem sweeps_of_far_axis :
    let far : Statement :=
      ⟨.sweep (.reduce .add) (.whole 0 .int64 1) (.whole 1 .int64 4) (2 ^ 32), some 0⟩
    let loop := (ofStatements 0 [] [far] 0).1
    loop.toNode.Obtained ∧ loop.head.rank = 0 ∧ loop.head.sweeps = [far] ∧
      loop.statements.filter (sweepsAxis loop.head.rank) = [] :=
  ⟨.built .., by decide⟩

end Nest

end ArrayFusion
