import ArrayFusion.Proofs.Eval.FirstIndex
import ArrayFusion.Proofs.Eval.Rebuild
import ArrayFusion.Proofs.Nest.Transform

/-!
# Iterations of a peeled loop

Peeling a loop gives blocks for its first iteration and a loop over the other ones. The blocks act
like the iteration where folds and scans open, and an iteration of the remaining loop acts like the
next one of the whole loop. The blocks are built anew from the statements of inner loops, which
joins neighbouring loops of one size that were kept apart. Where there are none, the first iteration
keeps its action.
-/

namespace ArrayFusion

open Shape

namespace Node

variable {f : Statement → Statement} {down : Int} {outer : List Int}

/-- A loop of changed statements folds or scans along itself if it did before. -/
theorem isEmpty_sweeps_transform {head head' : LoopHead} {body : List Node}
    (records : head.Records (bodyStatements body))
    (sweeps : ∀ s ∈ bodyStatements body,
      Nest.sweepsAlong head'.rank (f s) = Nest.sweepsAlong head.rank s) :
    (Nest.describe head' (transformBody f down body)).sweeps.isEmpty = head.sweeps.isEmpty := by
  rw [records.sweeps, Nest.describe, bodyStatements_transformBody, List.filter_map,
    List.isEmpty_map]
  exact congrArg List.isEmpty (List.filter_congr sweeps)

/-- Changed statements in the loops that they were in act as they did, if each of them does. -/
theorem act_run_transform (before after : Turns) {n : Node} (layout : n.Layout outer)
    (inside : down ≤ outer.length)
    (acts : ∀ s ∈ n.statements, ∀ ts, (f s).instr.act (after ++ ts) = s.instr.act (before ++ ts))
    (sweeps : ∀ s ∈ n.statements, ∀ r : Nat, outer.length ≤ r →
      Nest.sweepsAlong (r - down) (f s) = Nest.sweepsAlong r s) (ts : Turns) :
    ((n.transform f down).run (after ++ ts)).act = (n.run (before ++ ts)).act := by
  induction layout generalizing ts with
  | @leaf outer s rank computes under depth innermost =>
      rw [transform, act_run_leaf, act_run_leaf]
      exact acts s (by simp [statements]) ts
  | @loop outer head body rank size records together nodes ih =>
      have turns : ∀ k, turn (Nest.describe { head with rank := head.rank - down }
          (transformBody f down body)) k = turn head k := by
        intro k
        rw [turn, turn, isEmpty_sweeps_transform records fun s hs => ?_]
        rw [rank]
        exact sweeps s hs outer.length (Nat.le_refl _)
      have iteration : ∀ us, (runBody (after ++ us) (transformBody f down body)).act =
          (runBody (before ++ us) body).act := by
        intro us
        rw [transformBody_eq_map, act_runBody, act_runBody, List.map_map]
        refine congrArg List.prod (List.map_congr_left fun n hn => ?_)
        have sub : ∀ s ∈ n.statements, s ∈ bodyStatements body := by
          intro s hs
          rw [bodyStatements_eq_flatMap]
          exact List.mem_flatMap.mpr ⟨n, hn, hs⟩
        refine ih n hn (by simp; omega) (fun s hs => acts s (sub s hs)) (fun s hs r deeper => ?_) us
        refine sweeps s (sub s hs) r ?_
        rw [List.length_append] at deeper
        omega
      rw [transform, act_run_loop (by simp [Nest.describe]; omega), act_run_loop (by omega)]
      simp only [turns, List.append_assoc, iteration]
      rfl

end Node

/-! ## Iterations without the first index -/

/-- What peeling relies on for a statement of a loop of rank 0: it is sound, it computes the same at
every position, and fixing its first axis leaves the other ones. The last condition fails for a fold
whose output keeps the axis. -/
structure Statement.Peels (s : Statement) : Prop where
  sound : s.instr.Sound
  plain : s.instr.isPositionDependent = false
  evaluable : s.instr.sweepAxis? = some 0 → s.instr.isEvaluable = true
  shape : 1 < s.instr.ndim → (s.instr.sliceAxis 0 0).shape = s.instr.shape.tail

namespace Node

variable {n : Node} {size : Int}

theorem act_run_advance (layout : n.Layout [size]) (peels : ∀ s ∈ n.statements, s.Peels) (k : Int)
    (o : Bool) : ((n.advance 0).run [⟨k, o⟩]).act = (n.run [⟨k + 1, o⟩]).act := by
  rw [advance_eq_transform]
  refine act_run_transform [⟨k + 1, o⟩] [⟨k, o⟩] layout (by simp)
    (fun s hs ts => ?_) (fun s _ r _ => by rw [Int.sub_zero]; rfl) []
  exact Instruction.act_advanceAxis (peels s hs).sound.fit (peels s hs).plain k o ts

/-- Without its first index, the body of a loop does what it did one index later. -/
theorem act_runBody_advance {body : List Node} (layout : ∀ n ∈ body, n.Layout [size])
    (peels : ∀ s ∈ bodyStatements body, s.Peels) (k : Int) (o : Bool) :
    (runBody [⟨k, o⟩] (advanceBody 0 body)).act = (runBody [⟨k + 1, o⟩] body).act := by
  induction body with
  | nil => rfl
  | cons n body ih =>
      simp only [bodyStatements, List.mem_append, List.forall_mem_cons] at layout peels
      rw [advanceBody, act_runBody, act_runBody, List.map_cons, List.map_cons, List.prod_cons,
        List.prod_cons, ← act_runBody, ← act_runBody,
        act_run_advance layout.1 (fun s hs => peels s (.inl hs)),
        ih layout.2 fun s hs => peels s (.inr hs)]

/-! ## The first index alone -/

/-- The statement at the first index of the outermost axis. -/
def atFirst (s : Statement) : Statement := .fresh (s.instr.sliceAxis 0 0)

theorem isSystem_atFirst {s : Statement} (computes : s.Computes) :
    (atFirst s).instr.opcode.isSystem = false := by
  rw [atFirst, Statement.fresh, Instruction.sliceAxis]
  split
  · rfl
  · exact computes.notSystem

theorem sweepsAlong_atFirst {s : Statement} (peels : s.Peels) {r : Nat} (inner : 1 ≤ r) :
    Nest.sweepsAlong (r - 1) (atFirst s) = Nest.sweepsAlong r s := by
  obtain ⟨-, views, fit⟩ := peels.sound
  have small := peels.sound.sweepAxis?_lt
  have axes : (atFirst s).instr.sweepAxis? = s.instr.sweepAxis?.bind Nat.ppred :=
    Instruction.sweepAxis?_sliceAxis_zero fit views
  obtain ⟨r, rfl⟩ : ∃ r', r = r' + 1 := ⟨r - 1, (Nat.sub_add_cancel inner).symm⟩
  have next : ((r + 1 : Nat) : Int) - 1 = r := by omega
  rw [next, Nest.sweepsAlong_natCast (r + 1) small, Nest.sweepsAlong_natCast r, axes]
  · cases s.instr.sweepAxis? with
    | none => rfl
    | some axis => cases axis <;> simp
  · intro axis along
    rw [axes, Option.bind_eq_some_iff] at along
    obtain ⟨axis', found, before⟩ := along
    have := small axis' found
    cases axis' with
    | zero => cases before
    | succ axis' =>
        cases before
        omega

/-- Statements of inner loops lose their first axis. -/
theorem lowers_atFirst {s : Statement} (peels : s.Peels) (deep : 1 < s.instr.ndim) :
    Nest.Lowers atFirst s :=
  ⟨by omega, peels.shape deep⟩

/-- A loop built from statements at the first index is the loop built one rank further in from the
whole statements, at the first index. -/
theorem ofStatements_atFirst {ss : List Statement} (computes : ∀ s ∈ ss, s.Computes)
    (lowers : ∀ s ∈ ss, Nest.Lowers atFirst s) : Nest.ofStatements 0 [] (ss.map atFirst) =
      Nest.transform atFirst 1 <$>
        Nest.buildSized (Nest.depth (ss.map atFirst)) 1 (Nest.commonSize 1 ss) [] ss := by
  have all : (ss.map atFirst).filter (!·.instr.opcode.isSystem) = ss.map atFirst := by
    rw [List.filter_eq_self]
    intro t ht
    obtain ⟨s, hs, rfl⟩ := List.mem_map.mp ht
    rw [isSystem_atFirst (computes s hs)]
    rfl
  have shallow : Nest.depth (ss.map atFirst) ≤ maxAxes := by
    refine Nest.depth_le fun t ht => ?_
    obtain ⟨s, hs, rfl⟩ := List.mem_map.mp ht
    have := Instruction.ndim_le_maxAxes (computes s hs).views
    have := (lowers s hs).ndim
    omega
  rw [maxAxes] at shallow
  rw [Nest.ofStatements, Nest.ofStatementsSized, all, Nest.buildSized_map lowers (by omega),
    Nest.commonSize_map lowers]

theorem act_firstIteration_leaf {s : Statement} {rank : Int} (peels : s.Peels)
    (shallow : s.instr.ndim ≤ 1) (k : Nat) :
    (runBody [] ((leaf s rank).firstIteration 0 k).1).act =
      ((leaf s rank).run [⟨0, true⟩]).act := by
  obtain ⟨-, views, fit⟩ := peels.sound
  have alone : (firstIteration 0 (leaf s rank) k).1 =
      [leaf (.fresh (s.instr.sliceAxis 0 0)) (rank - 1)] := rfl
  rw [alone, act_runBody_singleton, act_run_leaf, act_run_leaf]
  exact Instruction.act_sliceAxis_nil fit views peels.plain peels.evaluable shallow

/-- The block of an inner loop is the loop built again from its statements, at the first index. -/
theorem firstIteration_loop {head : LoopHead} {body : List Node}
    (layout : Layout [size] (loop head body)) (spaced : Spaced (loop head body))
    (peels : ∀ s ∈ bodyStatements body, s.Peels) (nonempty : bodyStatements body ≠ []) (k : Nat) :
    ∃ whole, Rebuilds [size] (loop head body) whole ∧
      ((loop head body).firstIteration 0 k).1 = [whole.transform atFirst 1] := by
  have inner : [size] ≠ [] := List.cons_ne_nil size []
  have lowers : ∀ s ∈ bodyStatements body, Nest.Lowers atFirst s := fun s hs =>
    lowers_atFirst (peels s hs) (layout.deep inner s hs).1
  have common : Nest.commonSize 1 (bodyStatements body) = head.size :=
    layout.commonSize inner nonempty
  have depth : ∀ s ∈ bodyStatements body,
      s.instr.ndim ≤ Nest.depth ((bodyStatements body).map atFirst) + 1 + 1 := by
    intro s hs
    have := Nest.ndim_le_depth (List.mem_map_of_mem (f := atFirst) hs)
    have := (lowers s hs).ndim
    omega
  refine ⟨_, rebuilds_buildSized layout (by decide : 1 < 2 ^ 31) spaced depth k, ?_⟩
  have some : ((bodyStatements body).map atFirst).isEmpty = false := by simpa using nonempty
  have unfolded : firstIteration 0 (loop head body) =
      if ((bodyStatements body).map atFirst).isEmpty then pure []
      else Nest.ofStatements 0 [] ((bodyStatements body).map atFirst) >>= fun block =>
        pure [block.toNode] := rfl
  rw [unfolded, some, ofStatements_atFirst (fun s hs => (layout.body s hs).1) lowers, common]
  rfl

theorem act_firstIteration_loop {head : LoopHead} {body : List Node}
    (layout : Layout [size] (loop head body)) (spaced : Spaced (loop head body))
    (peels : ∀ s ∈ bodyStatements body, s.Peels) (nonempty : bodyStatements body ≠ []) (k : Nat) :
    (runBody [] ((loop head body).firstIteration 0 k).1).act =
      ((loop head body).run [⟨0, true⟩]).act := by
  obtain ⟨whole, built, block⟩ := firstIteration_loop layout spaced peels nonempty k
  have inner : ((whole.transform atFirst 1).run []).act = (whole.run [⟨0, true⟩]).act := by
    refine act_run_transform [⟨0, true⟩] [] built.layout (by simp)
      (fun s hs ts => ?_) (fun s hs r deeper => ?_) [] <;> rw [built.statements] at hs
    · have own := peels s hs
      have lowers := lowers_atFirst own (layout.deep (List.cons_ne_nil size []) s hs).1
      obtain ⟨-, views, fit⟩ := own.sound
      exact Instruction.act_sliceAxis fit views own.plain own.evaluable lowers.inside lowers.shape
        ts
    · exact sweepsAlong_atFirst (peels s hs) deeper
  rw [block, act_runBody_singleton, inner, built.act]

theorem act_firstIteration (layout : n.Layout [size]) (spaced : n.Spaced)
    (peels : ∀ s ∈ n.statements, s.Peels) (k : Nat) :
    (runBody [] (n.firstIteration 0 k).1).act = (n.run [⟨0, true⟩]).act := by
  cases n with
  | leaf s rank =>
      refine act_firstIteration_leaf (peels s (by simp [statements])) ?_ k
      cases layout with
      | leaf computes under depth innermost => exact depth
  | loop head body =>
      by_cases empty : bodyStatements body = []
      · have none : (firstIteration 0 (loop head body) k).1 = [] := by
          rw [firstIteration, empty]
          rfl
        rw [none, act_run_of_statements_eq_nil layout empty]
        rfl
      · exact act_firstIteration_loop layout spaced peels empty k

theorem act_firstIterations {body : List Node} (layout : ∀ n ∈ body, n.Layout [size])
    (spaced : ∀ n ∈ body, n.Spaced) (peels : ∀ s ∈ bodyStatements body, s.Peels) (k : Nat) :
    (runBody [] (firstIterations 0 body k).1).act = (runBody [⟨0, true⟩] body).act := by
  induction body generalizing k with
  | nil => rfl
  | cons n body ih =>
      simp only [bodyStatements, List.mem_append, List.forall_mem_cons] at layout spaced peels
      rw [firstIterations_cons, act_runBody_append,
        act_firstIteration layout.1 spaced.1 fun s hs => peels s (.inl hs),
        ih layout.2 spaced.2 fun s hs => peels s (.inr hs), runBody, Exec.act_bind]

end Node

/-! ## The loop in two parts -/

namespace Nest

/-- Runs the body of a loop of rank 0 once for every index, with the given iterations as opening
ones. -/
def iterate (l : Nest) (opens : Nat → Bool) : Exec Unit :=
  (List.range l.head.size.toNat).forM fun k : Nat => Node.runBody [⟨k, opens k⟩] l.body

theorem run_eq_iterate {l : Nest} (rank : 0 ≤ l.head.rank) (sweeps : l.head.sweeps ≠ []) :
    l.toNode.run [] = l.iterate (· == 0) := by
  have turns : ∀ k : Nat, Node.turn l.head k = ⟨k, k == 0⟩ := by
    intro k
    have zero : ((k : Int) == 0) = (k == 0) := by
      rw [Bool.eq_iff_iff, beq_iff_eq, beq_iff_eq]
      omega
    simp [Node.turn, sweeps, zero]
  rw [toNode, Node.run_loop_eq_forM rank, iterate]
  simp only [turns, List.nil_append]

variable {l : Nest}

/-- The frees of a loop that runs once, in an empty loop. -/
def holders (l : Nest) (id : Nat) : List Node :=
  if l.allFrees.isEmpty then []
  else [.loop { id, rank := l.head.rank, size := 0, frees := l.allFrees } []]

/-- The loop over all indices but the first. -/
def remaining (l : Nest) (id : Nat) : Nest :=
  refresh ⟨{ l.head with id, size := l.head.size - 1 }, Node.advanceBody 0 l.body⟩

/-- The loop with other records of what folds or scans along it. -/
def withSweeps (sweeps : List Statement) (l : Nest) : Nest := ⟨{ l.head with sweeps }, l.body⟩

theorem peel_of_size_eq_one (rank : l.head.rank = 0) (size : l.head.size = 1) (k : Nat) :
    ∃ id, (l.peel k).1 = ((Node.firstIterations 0 l.body k).1 ++ l.holders id, none) := by
  have axis : l.head.rank.toNat = 0 := by simp [rank]
  refine ⟨(Node.firstIterations 0 l.body k).2, ?_⟩
  simp only [peel, axis, size, Int.le_refl, if_true, holders]
  by_cases empty : l.allFrees.isEmpty = true
  · simp only [empty, if_true, List.append_nil]
    rfl
  · simp only [empty]
    rfl

theorem peel_of_one_lt_size (rank : l.head.rank = 0) (size : 1 < l.head.size) (k : Nat) :
    ∃ id, (l.peel k).1 = ((Node.firstIterations 0 l.body k).1, some (l.remaining id)) := by
  have axis : l.head.rank.toNat = 0 := by simp [rank]
  have more : ¬ l.head.size ≤ 1 := by omega
  refine ⟨(Node.firstIterations 0 l.body k).2, ?_⟩
  simp only [peel, axis, more, if_false]
  rfl

theorem act_iterate (l : Nest) (opens : Nat → Bool) : (l.iterate opens).act =
    ((List.range l.head.size.toNat).map fun k : Nat =>
      (Node.runBody [⟨k, opens k⟩] l.body).act).prod :=
  Exec.act_forM ..

/-- The first iteration apart from the other ones. -/
theorem act_iterate_of_pos (runs : 0 < l.head.size) (opens : Nat → Bool) : (l.iterate opens).act =
    (Node.runBody [⟨0, opens 0⟩] l.body).act *
      ((List.range (l.head.size - 1).toNat).map fun k : Nat =>
        (Node.runBody [⟨k + 1, opens (k + 1)⟩] l.body).act).prod := by
  have size : l.head.size.toNat = (l.head.size - 1).toNat + 1 := by omega
  rw [act_iterate, size, List.range_succ_eq_map, List.map_cons, List.prod_cons, List.map_map]
  rfl

theorem act_runBody_holders (l : Nest) (id : Nat) : (Node.runBody [] (l.holders id)).act = 1 := by
  rw [holders]
  split <;> rfl

/-- What peeling relies on for a loop of rank 0: its statements can be peeled, and its inner loops
can be built again. -/
structure Peels (l : Nest) : Prop where
  layout : l.toNode.Layout []
  sweeps : l.head.sweeps ≠ []
  runs : 0 < l.head.size
  statements : ∀ s ∈ l.statements, s.Peels
  spaced : ∀ n ∈ l.body, n.Spaced

namespace Peels

variable (h : l.Peels)

include h

theorem rank : l.head.rank = 0 := by
  obtain ⟨layout, -⟩ := h
  cases layout with
  | loop rank nonneg records together nodes => exact rank

theorem act_first (k : Nat) : (Node.runBody [] (Node.firstIterations 0 l.body k).1).act =
    (Node.runBody [⟨0, true⟩] l.body).act :=
  Node.act_firstIterations h.layout.nodes h.spaced h.statements k

/-- An iteration of the remaining loop is the next one of the whole loop. -/
theorem act_remaining (id : Nat) (opens : Nat → Bool) : ((l.remaining id).iterate opens).act =
    ((List.range (l.head.size - 1).toNat).map fun k : Nat =>
      (Node.runBody [⟨k + 1, opens k⟩] l.body).act).prod := by
  rw [act_iterate]
  refine congrArg List.prod (List.map_congr_left fun k _ => ?_)
  exact Node.act_runBody_advance h.layout.nodes h.statements k (opens k)

/-- The remaining loop folds or scans along itself as the whole one does. -/
theorem sweeps_remaining (id : Nat) : (l.remaining id).head.sweeps ≠ [] := by
  obtain ⟨layout, sweeps, -⟩ := h
  cases layout with
  | loop rank nonneg records together nodes =>
      rw [← List.isEmpty_eq_false_iff] at sweeps ⊢
      rw [← sweeps, remaining, refresh, Node.advanceBody_eq_transformBody]
      exact Node.isEmpty_sweeps_transform records fun _ _ => rfl

/-- The first blocks and the remaining loop act like the whole loop, if the remaining loop opens in
the same iterations. -/
theorem act_runBody_peel (k : Nat) (change : Nest → Node) (opens : Nat → Bool)
    (acts : ∀ id, ((change (l.remaining id)).run []).act =
      ((l.remaining id).iterate fun k => opens (k + 1)).act) :
    (Node.runBody [] ((l.peel k).1.1 ++ (l.peel k).1.2.toList.map change)).act =
      (l.iterate fun k => k == 0 || opens k).act := by
  rw [act_iterate_of_pos h.runs, Node.act_runBody_append]
  rcases Int.lt_or_eq_of_le (Int.add_one_le_iff.mpr h.runs) with more | once
  · obtain ⟨id, peeled⟩ := peel_of_one_lt_size h.rank more k
    rw [peeled, h.act_first, Option.toList_some, List.map_singleton, Node.act_runBody_singleton,
      acts, h.act_remaining]
    rfl
  · obtain ⟨id, peeled⟩ := peel_of_size_eq_one h.rank once.symm k
    rw [peeled, Node.act_runBody_append, h.act_first, act_runBody_holders, mul_one, ← once]
    rfl

/-- The remaining loop opens in its first iteration. -/
theorem run_remaining (id : Nat) :
    (l.remaining id).toNode.run [] = (l.remaining id).iterate (· == 0) := by
  refine run_eq_iterate ?_ (h.sweeps_remaining id)
  show 0 ≤ l.head.rank
  rw [h.rank]

/-- The remaining loop opens in no iteration if it records no folds and scans. -/
theorem run_remaining_withSweeps_nil (id : Nat) :
    ((l.remaining id).withSweeps []).toNode.run [] = (l.remaining id).iterate fun _ => false := by
  have rank : 0 ≤ ((l.remaining id).withSweeps []).head.rank := by
    show 0 ≤ l.head.rank
    rw [h.rank]
  rw [toNode, Node.run_loop_eq_forM rank]
  rfl

end Peels

end Nest

end ArrayFusion
