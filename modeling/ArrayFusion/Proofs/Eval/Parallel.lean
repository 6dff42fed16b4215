import ArrayFusion.Nest.Parallel
import ArrayFusion.Proofs.Engine.Kernel
import ArrayFusion.Proofs.Eval.Fused
import Mathlib.Algebra.BigOperators.Group.List.Lemmas
import Mathlib.Data.List.Pairwise

/-!
# Parallel loops

The leading loops of a nest that nothing folds or scans along count as parallel. Their iterations
can be carried out in any order, if every statement of the nest is in step with itself: what it
writes in one iteration it does not touch in another one. For two statements of a nest this is what
fusion checks before it joins them, but nothing compares a statement with itself. With that, the
iterations of all parallel loops together commute, and no order of them is different from another.
-/

namespace ArrayFusion

open Shape

/-- Loops that stand at given indices, none of them in an opening iteration. -/
def Turns.ofIndices (u : List Int) : Turns := u.map (⟨·, false⟩)

namespace Node

/-- The leading parallel loops, at most `limit` of them, outermost first. -/
def parallelNests : (limit : Nat) → Node → List Nest
  | limit + 1, loop head body =>
    if head.sweeps.isEmpty ∧ 0 ≤ head.rank then
      ⟨head, body⟩ :: match body with
        | [inner] => inner.parallelNests limit
        | _ => []
    else []
  | _, _ => []

/-- The leading parallel loops of a node: none, the node alone, or the node and the leading parallel
loops of the only node in it. -/
theorem parallelNests_succ (limit : Nat) (n : Node) : n.parallelNests (limit + 1) = [] ∨
    ∃ head body, n = loop head body ∧ head.sweeps = [] ∧ 0 ≤ head.rank ∧
      (n.parallelNests (limit + 1) = [⟨head, body⟩] ∨ ∃ inner, body = [inner] ∧
        n.parallelNests (limit + 1) = ⟨head, body⟩ :: inner.parallelNests limit) := by
  cases n with
  | leaf s rank => exact .inl rfl
  | loop head body =>
      by_cases parallel : head.sweeps.isEmpty = true ∧ 0 ≤ head.rank
      swap
      · exact .inl (if_neg parallel)
      refine .inr ⟨head, body, rfl, List.isEmpty_iff.mp parallel.1, parallel.2, ?_⟩
      have own : (loop head body).parallelNests (limit + 1) = _ := if_pos parallel
      rw [own]
      rcases body with _ | ⟨inner, _ | ⟨next, body⟩⟩
      · exact .inl rfl
      · exact .inr ⟨inner, rfl, rfl⟩
      · exact .inl rfl

theorem parallelSizes_eq (limit : Nat) (n : Node) :
    n.parallelSizes limit = (n.parallelNests limit).map (·.head.size) := by
  induction limit generalizing n with
  | zero => cases n <;> rfl
  | succ limit ih =>
      cases n with
      | leaf s rank => rfl
      | loop head body =>
          by_cases parallel : head.sweeps = [] ∧ 0 ≤ head.rank <;>
            rcases body with _ | ⟨inner, _ | ⟨next, body⟩⟩ <;>
              simp [parallelSizes, parallelNests, parallel, ih]

/-- The parallel loops of a nest are those that run on the threads of its kernel. -/
theorem leadingSizes_eq {outer : List Int} {n : Node} (layout : n.Layout outer) (limit : Nat) :
    leadingSizes limit [n] = n.parallelSizes limit := by
  induction limit generalizing n outer with
  | zero => cases n <;> rfl
  | succ limit ih =>
      cases layout with
      | leaf => rfl
      | @loop _ head body rank size records together nodes =>
          have nonneg : 0 ≤ head.rank := by omega
          rcases body with _ | ⟨inner, _ | ⟨next, body⟩⟩
          · cases limit <;> simp [leadingSizes, parallelSizes, nonneg]
          · simp [leadingSizes, parallelSizes, nonneg, ih (nodes inner (List.mem_singleton_self _))]
          · cases limit <;> simp [leadingSizes, parallelSizes, nonneg]

/-- A loop is reached from a node through parallel loops of the given sizes, itself included. -/
inductive Leads : Node → List Int → Nest → Prop
  | here {head : LoopHead} {body : List Node} (sweeps : head.sweeps = []) (rank : 0 ≤ head.rank) :
      Leads (loop head body) [head.size] ⟨head, body⟩
  | inside {head : LoopHead} {n : Node} {sizes : List Int} {m : Nest} (sweeps : head.sweeps = [])
      (rank : 0 ≤ head.rank) (inner : Leads n sizes m) :
      Leads (loop head [n]) (head.size :: sizes) m

theorem leads_of_parallelNests {limit : Nat} {n : Node} {j : Nat} {m : Nest}
    (hm : (n.parallelNests limit)[j]? = some m) :
    Leads n ((n.parallelSizes limit).take (j + 1)) m := by
  rw [parallelSizes_eq]
  induction limit generalizing n j with
  | zero => cases n <;> cases hm
  | succ limit ih =>
      obtain none | ⟨head, body, rfl, sweeps, rank, own⟩ := parallelNests_succ limit n
      · rw [none] at hm
        cases hm
      cases j with
      | zero =>
          have first : (loop head body).parallelNests (limit + 1) = ⟨head, body⟩ ::
              ((loop head body).parallelNests (limit + 1)).tail := by
            obtain own | ⟨inner, -, own⟩ := own <;> rw [own, List.tail_cons]
          rw [first] at hm ⊢
          cases hm
          exact .here sweeps rank
      | succ j =>
          obtain own | ⟨inner, rfl, own⟩ := own <;> rw [own] at hm ⊢
          · cases hm
          · exact .inside sweeps rank (ih hm)

/-- Nothing folds or scans along a loop without sweeps, and its statements can share it. -/
theorem Layout.free {outer : List Int} {head : LoopHead} {body : List Node}
    (h : (Node.loop head body).Layout outer) (sweeps : head.sweeps = []) :
    (∀ s ∈ bodyStatements body, Nest.sweepsAlong outer.length s = false) ∧
      (bodyStatements body).Pairwise (Statement.Together outer.length) := by
  cases h with
  | loop rank size records together nodes =>
      rw [← rank]
      refine ⟨fun s hs => ?_, together⟩
      by_contra along
      have listed : s ∈ head.sweeps := by
        rw [records.sweeps]
        exact List.mem_filter.mpr ⟨hs, by simpa using along⟩
      simp [sweeps] at listed

namespace Leads

variable {n : Node} {m : Nest} {outer sizes : List Int}

/-- All statements of the nest stand in the parallel loop. -/
theorem statements_eq (h : Leads n sizes m) : n.statements = m.statements := by
  induction h with
  | here sweeps rank => rfl
  | inside sweeps rank inner ih =>
      rw [← ih, Node.statements, bodyStatements, bodyStatements, List.append_nil]

theorem sweeps (h : Leads n sizes m) : m.head.sweeps = [] := by
  induction h with
  | here sweeps rank => exact sweeps
  | inside sweeps rank inner ih => exact ih

theorem layout (h : Leads n sizes m) (layout : n.Layout outer) :
    ∃ around, sizes = around ++ [m.head.size] ∧ m.toNode.Layout (outer ++ around) := by
  induction h generalizing outer with
  | here sweeps rank => exact ⟨[], rfl, by rwa [List.append_nil]⟩
  | @inside head n sizes m sweeps rank inner ih =>
      cases layout with
      | loop rank size records together nodes =>
          obtain ⟨around, rfl, layout⟩ := ih (nodes n (List.mem_singleton_self n))
          exact ⟨head.size :: around, rfl, by simpa using layout⟩

/-- Nothing folds or scans along the loops around, and the statements can share all of them. -/
theorem free (h : Leads n sizes m) (layout : n.Layout outer) {r : Nat} (behind : outer.length ≤ r)
    (before : r < outer.length + sizes.length) :
    (∀ s ∈ m.statements, Nest.sweepsAlong r s = false) ∧
      m.statements.Pairwise (Statement.Together r) := by
  induction h generalizing outer with
  | here sweeps rank =>
      rw [List.length_singleton] at before
      obtain rfl : r = outer.length := by omega
      exact layout.free sweeps
  | @inside head n sizes m sweeps rank inner ih =>
      rcases Nat.eq_or_lt_of_le behind with rfl | later
      · have found := layout.free sweeps
        rwa [bodyStatements, bodyStatements, List.append_nil, inner.statements_eq] at found
      · cases layout with
        | loop rank size records together nodes =>
            rw [List.length_cons] at before
            refine ih (nodes n (List.mem_singleton_self n)) ?_ ?_ <;>
              · rw [List.length_append, List.length_singleton]
                omega

/-- Running the nest is running the body of the parallel loop at all indices of the loops around it
and its own, in row-major order. -/
theorem act_run (h : Leads n sizes m) (ts : Turns) : (n.run ts).act =
    ((positions sizes).map fun u => (runBody (ts ++ .ofIndices u) m.body).act).prod := by
  have plain : ∀ {head : LoopHead} (k : Int), head.sweeps = [] → turn head k = ⟨k, false⟩ := by
    intro head k sweeps
    simp [turn, sweeps]
  induction h generalizing ts with
  | here sweeps rank =>
      rw [act_run_loop rank, List.map_eq_flatMap]
      simp [positions, plain _ sweeps, Turns.ofIndices, List.map_flatMap]
  | @inside head n sizes m sweeps rank inner ih =>
      have iteration : ∀ k : Nat, (runBody (ts ++ [turn head k]) [n]).act =
          ((positions sizes).map fun u =>
            (runBody (ts ++ .ofIndices ((k : Int) :: u)) m.body).act).prod := by
        intro k
        rw [act_runBody_singleton, ih, plain _ sweeps]
        simp [Turns.ofIndices]
      rw [act_run_loop rank, positions, List.map_flatMap, List.flatMap_def, List.prod_flatten,
        List.map_map]
      simp only [iteration, Function.comp_def, List.map_map]

end Leads

end Node

/-! ## Iterations in any order -/

/-- Every statement can run, and what it writes it accesses in the same order or not at all. -/
structure Statement.RunsInStep (s : Statement) : Prop where
  runs : s.Runs
  aligned : s.instr.Aligned s.instr

namespace Node

variable {n : Node} {m : Nest} {sizes u u' : List Int}

/-- Any two statements of parallel loops can share them, and each of them alone can. -/
theorem Leads.together (h : Leads n sizes m) (layout : n.Layout [])
    (runs : ∀ s ∈ m.statements, s.RunsInStep) {r : Nat} (below : r < sizes.length) :
    ∀ s ∈ m.statements, ∀ t ∈ m.statements, s.Together r t := by
  obtain ⟨free, pairs⟩ := h.free layout (Nat.zero_le r) (by simpa using below)
  refine fun s hs t ht => pairs.forall_of_forall (fun s hs => ?_) hs ht
  have none := free s hs
  exact ⟨(runs s hs).aligned, by simp [none], by simp [none]⟩

/-- An iteration of parallel loops carries out the statements one after the other. -/
theorem Leads.act_iteration (h : Leads n sizes m) (layout : n.Layout [])
    (runs : ∀ s ∈ m.statements, s.RunsInStep) (range : InRange sizes u) :
    (runBody (.ofIndices u) m.body).act = (m.statements.map (·.actFrom u)).prod := by
  have together := fun {r} => h.together layout runs (r := r)
  have free := fun {r} below => (h.free layout (r := r) (Nat.zero_le r) below).1
  obtain ⟨around, rfl, inner⟩ := h.layout layout
  refine act_runBody_of_nodes fun child hchild => ?_
  have sub : ∀ s ∈ child.statements, s ∈ m.statements := (statements_sublist hchild).subset
  refine act_run_eq_prod (inner.nodes child hchild) range (by simp [Turns.ofIndices])
    (fun s hs => (runs s (sub s hs)).runs) (fun s hs => ?_) ?_
  · refine ⟨⟨by simp [Turns.ofIndices], fun axis x hx => ?_⟩, fun axis x along hx => ?_⟩
    · simp [Turns.index, Turns.ofIndices, hx]
    -- No statement folds or scans along one of the loops.
    have inside : axis < u.length := (List.getElem?_eq_some_iff.mp hx).1
    rw [range.length_eq] at inside
    have none := free (by simpa using inside) s (sub s hs)
    rw [Statement.sweepsAlong_of_sweepAxis? (runs s (sub s hs)).runs along] at none
    contradiction
  · exact List.pairwise_of_forall_mem_list fun s hs t ht r below =>
      together below s (sub s hs) t (sub t ht)

/-- Two iterations of parallel loops commute. -/
theorem Leads.commute (h : Leads n sizes m) (layout : n.Layout [])
    (runs : ∀ s ∈ m.statements, s.RunsInStep) (range : InRange sizes u) (range' : InRange sizes u')
    (apart : u ≠ u') :
    Commute (runBody (.ofIndices u) m.body).act (runBody (.ofIndices u') m.body).act := by
  have under : ∀ s ∈ m.statements, s.Under sizes := by
    obtain ⟨around, rfl, inner⟩ := h.layout layout
    exact fun s hs => (inner.body s hs).2
  rw [h.act_iteration layout runs range, h.act_iteration layout runs range']
  refine Commute.list_prod_left _ _ fun f hf => Commute.list_prod_right _ _ fun g hg => ?_
  obtain ⟨t, ht, rfl⟩ := List.mem_map.mp hf
  obtain ⟨s, hs, rfl⟩ := List.mem_map.mp hg
  exact Statement.commute_iterations (runs s hs).runs (runs t ht).runs
    (fun r below => h.together layout runs below s hs t ht) (under s hs) (under t ht) range range'
    apart

/-- The iterations of all parallel loops down to one of them can be carried out in any order. -/
theorem Leads.act_forM_positions (h : Leads n sizes m) (layout : n.Layout [])
    (runs : ∀ s ∈ m.statements, s.RunsInStep) {order : List (List Int)}
    (perm : order.Perm (positions sizes)) :
    (order.forM fun u => runBody (.ofIndices u) m.body).act = (n.run []).act := by
  rw [Exec.act_forM, h.act_run]
  refine (perm.map _).prod_eq' (List.pairwise_map.mpr ?_)
  have nodup : order.Nodup := perm.nodup_iff.mpr (nodup_positions sizes)
  refine nodup.imp_of_mem fun {u u'} hu hu' apart => ?_
  exact h.commute layout runs (mem_positions.mp (perm.subset hu))
    (mem_positions.mp (perm.subset hu')) apart

/-- The iterations of a parallel loop can be carried out in any order, wherever the loops around it
stand. -/
theorem Leads.act_forM_range (h : Leads n (sizes ++ [m.head.size]) m) (layout : n.Layout [])
    (runs : ∀ s ∈ m.statements, s.RunsInStep) (range : InRange sizes u) {order : List Nat}
    (perm : order.Perm (List.range m.head.size.toNat)) :
    (order.forM fun k : Nat => runBody (.ofIndices (u ++ [(k : Int)])) m.body).act =
      (m.toNode.run (.ofIndices u)).act := by
  obtain ⟨around, same, inner⟩ := h.layout layout
  have rank : 0 ≤ m.head.rank := by
    cases inner with
    | loop rank size records together nodes => omega
  have plain : ∀ k : Int, turn m.head k = ⟨k, false⟩ := by
    intro k
    simp [turn, h.sweeps]
  rw [Exec.act_forM, Nest.toNode, act_run_loop rank]
  simp only [plain]
  have joined : ∀ k : Nat, Turns.ofIndices u ++ [⟨(k : Int), false⟩] =
      Turns.ofIndices (u ++ [(k : Int)]) := by
    intro k
    simp [Turns.ofIndices]
  simp only [joined]
  refine (perm.map _).prod_eq' (List.pairwise_map.mpr ?_)
  have nodup : order.Nodup := perm.nodup_iff.mpr List.nodup_range
  refine nodup.imp_of_mem fun {k k'} hk hk' apart => ?_
  have inRange : ∀ k ∈ order, InRange (sizes ++ [m.head.size]) (u ++ [(k : Int)]) := by
    intro k hk
    have := List.mem_range.mp (perm.subset hk)
    exact range.append (.cons ⟨by omega, by omega⟩ .nil)
  exact h.commute layout runs (inRange k hk) (inRange k' hk') (by simpa using apart)

end Node

namespace Fusion

/-- Parallel loops are parallel, if every statement of the program is in step with itself and writes
no element twice. The iterations of a parallel loop can be carried out in any order wherever the
loops around it stand, and so can those of all parallel loops down to one of them together. -/
theorem fuse_parallel (separate : Bool) {ss : List Statement}
    (views : ∀ s ∈ ss, s.instr.WellFormed)
    (fit : ∀ s ∈ ss, s.instr.opcode.isSystem = false → s.instr.ShapesFit)
    (once : ∀ s ∈ ss, s.instr.opcode.isSystem = false → s.instr.WritesOnce)
    (inStep : ∀ s ∈ ss, s.instr.opcode.isSystem = false → s.instr.compatible s.instr = true)
    {n m : Nat} {ls : List Nest} (fused : fuse separate ss n = .ok (ls, m)) {l : Nest}
    (hl : l ∈ ls) (limit k : Nat) :
    let loops := l.toNode.parallelNests limit
    let sizes := loops.map (·.head.size)
    l.parallelRanks limit = (loops.length, elementCount sizes) ∧
      (kernel [l] k).1.threadStack limit = sizes ∧
      ∀ (j : Nat) (loop : Nest), loops[j]? = some loop →
        (∀ u, InRange (sizes.take j) u →
          ∀ order : List Nat, order.Perm (List.range loop.head.size.toNat) →
            (order.forM fun k : Nat =>
              Node.runBody (.ofIndices (u ++ [(k : Int)])) loop.body).act =
                (loop.toNode.run (.ofIndices u)).act) ∧
        ∀ order : List (List Int), order.Perm (positions (sizes.take (j + 1))) →
          (order.forM fun u => Node.runBody (.ofIndices u) loop.body).act =
            (l.toNode.run []).act := by
  intro loops sizes
  have faithful := faithful_of_fuse views fused
  have layout := faithful.laidOut l hl
  have runs : ∀ s ∈ l.statements, s.RunsInStep := by
    intro t ht
    obtain ⟨s, hs, computes, reshapes⟩ := faithful.source hl ht
    have similar := reshapes.instr.similar computes.views
    have aligned := Instruction.aligned_of_compatible computes.notSystem computes.notSystem
      (inStep s hs computes.notSystem)
    refine ⟨faithful.runs (fun s hs computes => ?_) hl ht, aligned.similar similar similar⟩
    exact ⟨⟨computes, views s hs, fit s hs computes⟩, once s hs computes⟩
  have listed : l.toNode.parallelSizes limit = sizes := Node.parallelSizes_eq limit l.toNode
  refine ⟨?_, ?_, fun j loop hloop => ?_⟩
  · rw [Nest.parallelRanks, listed, List.length_map]
  · rw [kernel_eq, Nest.threadStack, Nest.refresh, Node.leadingSizes_eq layout, listed]
  · have leads := Node.leads_of_parallelNests hloop
    rw [listed] at leads
    have runs' : ∀ s ∈ loop.statements, s.RunsInStep := by
      intro s hs
      exact runs s (by rwa [← leads.statements_eq, Nest.statements_toNode] at hs)
    refine ⟨fun u range order perm => ?_, fun order perm => ?_⟩
    · have size : sizes[j]? = some loop.head.size := by rw [List.getElem?_map, hloop]; rfl
      rw [List.take_add_one, size] at leads
      exact leads.act_forM_range layout runs' range perm
    · exact leads.act_forM_positions layout runs' perm

/-- The rows of a square are added to those of another one, in descending order. -/
theorem fuse_parallel_square :
    let square (b : BaseId) : View :=
      { base := some b, dtype := .int64, axes := View.rowMajor [2, 2] }
    let ss := Statement.number
      [{ opcode := .binary .add, operands := [square 1, square 1, square 0] }] 0
    ∃ l m, fuse false ss 0 = .ok ([l], m) ∧ l.parallelRanks 3 = (2, 4) ∧
      ([1, 0].forM fun k : Nat => Node.runBody (.ofIndices [(k : Int)]) l.body).act =
        (l.toNode.run []).act := by
  intro square ss
  have single : (fuse false ss 0).toOption.map (fun r => r.1.map fun l =>
      (l.head.sweeps.isEmpty, l.head.rank, l.head.size, l.parallelRanks 3)) =
        some [(true, 0, 2, 2, 4)] := by decide
  cases found : fuse false ss 0 with
  | error e => simp [found, Except.toOption] at single
  | ok r =>
      obtain ⟨ls, m⟩ := r
      rw [found] at single
      obtain ⟨l, rfl, shape⟩ := List.map_eq_singleton_iff.mp (Option.some.inj single)
      simp only [Prod.mk.injEq] at shape
      obtain ⟨sweeps, rank, size, counted⟩ := shape
      obtain ⟨-, -, parallel⟩ :=
        fuse_parallel false (by decide : ∀ s ∈ ss, s.instr.WellFormed) (by decide) (by decide)
          (by decide) found (List.mem_singleton_self l) 3 0
      have outermost : (l.toNode.parallelNests 3)[0]? = some l := by
        simp [Nest.toNode, Node.parallelNests, sweeps, rank]
      have descending := (parallel 0 l outermost).1 [] .nil [1, 0] (by rw [size]; decide)
      exact ⟨l, m, rfl, by simpa using counted, descending⟩

end Fusion

end ArrayFusion
