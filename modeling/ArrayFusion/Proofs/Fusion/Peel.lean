import ArrayFusion.Proofs.Engine.Kernel
import ArrayFusion.Proofs.Eval.Fused
import ArrayFusion.Proofs.Eval.Peeling

/-!
# Peeling fused loops

A fused loop that is peeled gives blocks for its first iteration and a loop over the other ones. The
remaining loop still records the folds and scans along itself, so that it opens again in its first
iteration and forgets what the first block has left. Without these records, the blocks and the loop
do what the whole loop does.
-/

namespace ArrayFusion

open Fusion

namespace Nest

/-! ## Statements that depend on their position -/

/-- Statements that depend on their position stay away from folds and scans along the loop. -/
def KeepsApart (l : Nest) : Prop := l.head.sweeps = [] ∨ l.hasPositionDependent = false

variable {l : Nest} {outer : List Int}

theorem hasPositionDependent_eq_false : l.hasPositionDependent = false ↔
    ∀ s ∈ l.statements, s.instr.isPositionDependent = false := by
  simp [hasPositionDependent, instrs]

theorem keepsApart_of_length_le_one (layout : l.toNode.Layout outer)
    (single : l.statements.length ≤ 1) : l.KeepsApart := by
  by_cases sweeps : l.head.sweeps = []
  · exact .inl sweeps
  · refine .inr (hasPositionDependent_eq_false.mpr fun t ht => ?_)
    obtain ⟨s, hs⟩ := List.exists_mem_of_ne_nil _ sweeps
    obtain ⟨inside, along⟩ := (mem_sweeps layout).mp hs
    obtain ⟨u, alone⟩ := List.length_eq_one_iff.mp
      (Nat.le_antisymm single (List.length_pos_of_mem ht))
    rw [alone, List.mem_singleton] at ht inside
    obtain rfl : s = t := inside.trans ht.symm
    rw [sweepsAlong] at along
    split at along
    next axis found =>
      have sweep := Instruction.isSweep_of_sweepAxis? found
      cases op : s.instr.opcode <;> simp_all [Opcode.isSweep, Instruction.isPositionDependent]
    · contradiction

theorem plain_of_isSystemOnly (layout : l.toNode.Layout outer) (systemOnly : l.isSystemOnly = true) :
    l.head.sweeps = [] ∧ l.hasPositionDependent = false := by
  have empty := statements_of_isSystemOnly layout systemOnly
  refine ⟨List.eq_nil_iff_forall_not_mem.mpr fun s hs => ?_,
    hasPositionDependent_eq_false.mpr (by simp [empty])⟩
  have inside := ((mem_sweeps layout).mp hs).1
  simp [empty] at inside

theorem keepsApart_of_merge {a b : Nest} {separate : Bool} {n m : Nat}
    (layoutA : a.toNode.Layout outer) (layoutB : b.toNode.Layout outer)
    (test : a.mergeable b separate = .ok true) (merged : a.merge b n = .ok (l, m))
    (apartA : a.KeepsApart) (apartB : b.KeepsApart) : l.KeepsApart := by
  have joined := joined_of_merge layoutA layoutB test merged
  have layout := joined.layouts l.toNode (by simp)
  have keeps := joined.keeps layoutA layoutB
  by_cases none : l.head.sweeps = []
  · exact .inl none
  -- The fold or scan along the merged loop comes from one of its parts.
  have sweeps : a.head.sweeps ≠ [] ∨ b.head.sweeps ≠ [] := by
    obtain ⟨t, ht⟩ := List.exists_mem_of_ne_nil _ none
    obtain ⟨inside, along⟩ := (mem_sweeps layout).mp ht
    obtain ⟨s, hs, computes, reshapes⟩ := exists_of_forall₂ keeps inside
    rw [layout_rank layout, sweepsAlong, (reshapes.instr.similar computes.views).sweepAxis?,
      ← sweepsAlong] at along
    rcases List.mem_append.mp hs with hs | hs
    · rw [← layout_rank layoutA] at along
      exact .inl (List.ne_nil_of_mem ((mem_sweeps layoutA).mpr ⟨hs, along⟩))
    · rw [← layout_rank layoutB] at along
      exact .inr (List.ne_nil_of_mem ((mem_sweeps layoutB).mpr ⟨hs, along⟩))
  have plain : a.hasPositionDependent = false ∧ b.hasPositionDependent = false := by
    rcases inStep_of_mergeable test with systemA | systemB | inStep
    · obtain ⟨noSweeps, plainA⟩ := plain_of_isSystemOnly layoutA systemA
      exact ⟨plainA, apartB.resolve_left (sweeps.resolve_left (not_not.mpr noSweeps))⟩
    · obtain ⟨noSweeps, plainB⟩ := plain_of_isSystemOnly layoutB systemB
      exact ⟨apartA.resolve_left (sweeps.resolve_right (not_not.mpr noSweeps)), plainB⟩
    · rcases sweeps with sweeps | sweeps
      · exact ⟨apartA.resolve_left sweeps, inStep.positionsB.resolve_left sweeps⟩
      · exact ⟨inStep.positionsA.resolve_left sweeps, apartB.resolve_left sweeps⟩
  refine .inr (hasPositionDependent_eq_false.mpr fun t ht => ?_)
  obtain ⟨s, hs, computes, reshapes⟩ := exists_of_forall₂ keeps ht
  rw [(reshapes.instr.similar computes.views).isPositionDependent]
  rcases List.mem_append.mp hs with hs | hs
  · exact hasPositionDependent_eq_false.mp plain.1 s hs
  · exact hasPositionDependent_eq_false.mp plain.2 s hs

end Nest

namespace Fusion

theorem Step.keepsApart {ls ls' : List Nest} (h : Step ls ls') (laidOut : LaidOut ls)
    (apart : ∀ l ∈ ls, l.KeepsApart) : ∀ l ∈ ls', l.KeepsApart := by
  cases h with
  | @merge before after a b l separate n m test merged =>
      simp only [List.forall_mem_append, List.forall_mem_cons] at apart ⊢
      obtain ⟨first, apartA, apartB, last⟩ := apart
      have layoutA := laidOut a (by simp)
      have layoutB := laidOut b (by simp)
      exact ⟨first, Nest.keepsApart_of_merge layoutA layoutB test merged apartA apartB, last⟩
  | swap before after independent =>
      simp only [List.forall_mem_append, List.forall_mem_cons] at apart ⊢
      tauto

/-- In a fused loop with folds or scans along it, no statement depends on its position. -/
theorem keepsApart_of_fuse {separate : Bool} {ss : List Statement}
    (views : ∀ s ∈ ss, s.instr.WellFormed) {n m : Nat} {ls : List Nest}
    (fused : fuse separate ss n = .ok (ls, m)) : ∀ l ∈ ls, l.KeepsApart := by
  have prepared := prepared_singletons ss n
  have start := (prepared.keeps views).1
  have single : ∀ l ∈ (singletons ss n).1, l.KeepsApart := fun l hl =>
    Nest.keepsApart_of_length_le_one (start l hl) (prepared.single views l hl)
  have kept : ∀ {ls}, Reaches (singletons ss n).1 ls → ∀ l ∈ ls, l.KeepsApart := by
    intro ls reached
    induction reached with
    | refl => exact single
    | tail before step ih => exact step.keepsApart (Reaches.laidOut before start) ih
  have outcome := fuse_outcome separate start
  rw [fused] at outcome
  cases outcome with
  | done reached => exact kept reached

end Fusion

/-! ## Bases of the peeled loop -/

open Node (atFirst)

theorem creates_atFirst {s : Statement} {b : BaseId} :
    Nest.Creates b (atFirst s) ↔ Nest.Creates b s := by
  have creates : (s.instr.sliceAxis 0 0).creates = s.instr.creates := by
    rw [Instruction.sliceAxis]
    split <;> rfl
  rw [Nest.Creates, Nest.Creates, atFirst, Statement.fresh, creates,
    Instruction.outputBase?_sliceAxis]

theorem creates_advanceAxis {s : Statement} {b : BaseId} :
    Nest.Creates b (.fresh (s.instr.advanceAxis 0)) ↔ Nest.Creates b s := by
  rw [Nest.Creates, Nest.Creates, Statement.fresh,
    (Instruction.moved_advanceAxis s.instr 0).outputBase?]
  rfl

namespace Node

mutual

/-- A changed node records what is created in it. -/
theorem recordsNews_transform (f : Statement → Statement) (down : Int) : (n : Node) →
    Nest.RecordsNews (n.transform f down)
  | loop head body => by
      rw [transform]
      refine Nest.recordsNews_loop ?_ (recordsNews_transformBody f down body)
      exact Nest.mem_news_of_records (l := ⟨_, transformBody f down body⟩) ⟨rfl, rfl⟩
  | leaf s rank => by simp [transform, Nest.RecordsNews, nests]

theorem recordsNews_transformBody (f : Statement → Statement) (down : Int) : (body : List Node) →
    ∀ n ∈ transformBody f down body, Nest.RecordsNews n
  | [] => by simp [transformBody]
  | n :: body => by
      rw [transformBody, List.forall_mem_cons]
      exact ⟨recordsNews_transform f down n, recordsNews_transformBody f down body⟩

end

/-- Blocks that carry out statements at the first index. They record what is created in them, and
they free nothing. -/
structure AtFirst (ss : List Statement) (blocks : List Node) : Prop where
  statements : bodyStatements blocks = ss.map atFirst
  news : ∀ n ∈ blocks, Nest.RecordsNews n
  frees : ∀ n ∈ blocks, ∀ b, ¬ n.Frees b

variable {n : Node} {size : Int}

theorem atFirst_firstIteration (layout : n.Layout [size]) (spaced : n.Spaced)
    (peels : ∀ s ∈ n.statements, s.Peels) (k : Nat) :
    AtFirst n.statements (n.firstIteration 0 k).1 := by
  cases n with
  | leaf s rank =>
      have block : (firstIteration 0 (leaf s rank) k).1 = [leaf (atFirst s) (rank - 1)] := rfl
      rw [block]
      exact ⟨rfl, by simp [Nest.RecordsNews, nests], by simp⟩
  | loop head body =>
      by_cases empty : bodyStatements body = []
      · have none : (firstIteration 0 (loop head body) k).1 = [] := by
          rw [firstIteration, empty]
          rfl
        rw [none, statements, empty]
        exact ⟨rfl, by simp, by simp⟩
      · obtain ⟨whole, built, block⟩ := firstIteration_loop layout spaced peels empty k
        rw [block]
        refine ⟨?_, ?_, ?_⟩
        · simp [bodyStatements, built.statements, statements]
        · simpa using recordsNews_transform atFirst 1 whole
        · simpa [frees_transform] using built.frees

theorem atFirst_firstIterations {body : List Node} (layout : ∀ n ∈ body, n.Layout [size])
    (spaced : ∀ n ∈ body, n.Spaced) (peels : ∀ s ∈ bodyStatements body, s.Peels) (k : Nat) :
    AtFirst (bodyStatements body) (firstIterations 0 body k).1 := by
  induction body generalizing k with
  | nil =>
      rw [firstIterations_nil]
      exact ⟨rfl, by simp, by simp⟩
  | cons n body ih =>
      simp only [bodyStatements, List.mem_append, List.forall_mem_cons] at layout spaced peels
      have first := atFirst_firstIteration layout.1 spaced.1 (fun s hs => peels s (.inl hs)) k
      have rest := ih layout.2 spaced.2 (fun s hs => peels s (.inr hs)) (n.firstIteration 0 k).2
      rw [firstIterations_cons, bodyStatements]
      refine ⟨?_, ?_, ?_⟩
      · rw [bodyStatements_append, first.statements, rest.statements, List.map_append]
      · exact List.forall_mem_append.mpr ⟨first.news, rest.news⟩
      · exact List.forall_mem_append.mpr ⟨first.frees, rest.frees⟩

end Node

namespace Nest

/-- The nodes create and free the same bases as the loop. -/
structure SameBases (l : Nest) (body : List Node) : Prop where
  records : ∀ n ∈ body, RecordsNews n
  creates : ∀ b, (∃ s ∈ Node.bodyStatements body, Creates b s) ↔ ∃ s ∈ l.statements, Creates b s
  frees : ∀ b, (∃ n ∈ body, n.Frees b) ↔ l.toNode.Frees b

variable {l : Nest}

/-- Kernels of nodes with the same bases allocate the same temporaries. -/
theorem SameBases.mem_allTemps {body : List Node} (h : l.SameBases body)
    (own : RecordsNews l.toNode) (n : Nat) (b : BaseId) :
    b ∈ (Nest.kernel body n).1.allTemps ↔ b ∈ (Fusion.kernel [l] n).1.allTemps := by
  have whole : b ∈ (Fusion.kernel [l] n).1.allNews ↔ ∃ s ∈ l.statements, Creates b s := by
    have news : b ∈ (Fusion.kernel [l] n).1.allNews ↔
        ∃ s ∈ Node.bodyStatements [l.toNode], Creates b s :=
      mem_allNews_kernel (by simpa using own)
    simpa [Node.bodyStatements] using news
  rw [allTemps, allTemps, BaseSet.mem_inter, BaseSet.mem_inter, mem_allFrees_kernel, h.frees,
    mem_allNews_kernel h.records, h.creates, Fusion.mem_allFrees_kernel, mem_allFrees_iff, whole]

/-- The holder of frees creates nothing and frees what the loop frees. -/
theorem sameBases_holders (l : Nest) (id : Nat) : (∀ n ∈ l.holders id, RecordsNews n) ∧
    Node.bodyStatements (l.holders id) = [] ∧
    ∀ b, (∃ n ∈ l.holders id, n.Frees b) ↔ l.toNode.Frees b := by
  simp only [← mem_allFrees_iff]
  rw [holders]
  split
  next none =>
    rw [List.isEmpty_iff] at none
    exact ⟨by simp, rfl, by simp [none]⟩
  next =>
    refine ⟨?_, rfl, by simp⟩
    rw [List.forall_mem_singleton]
    exact recordsNews_loop (by simp [Node.bodyStatements]) (by simp)

/-- The remaining loop creates and frees what the loop does. -/
theorem sameBases_remaining (l : Nest) (id : Nat) (sweeps : List Statement) :
    l.SameBases [((l.remaining id).withSweeps sweeps).toNode] := by
  have body : (l.remaining id).body =
      Node.transformBody (fun s => .fresh (s.instr.advanceAxis 0)) 0 l.body :=
    Node.advanceBody_eq_transformBody 0 l.body
  have statements : (l.remaining id).statements =
      l.statements.map fun s => .fresh (s.instr.advanceAxis 0) := by
    rw [Nest.statements, body, Node.bodyStatements_transformBody]
    rfl
  have node : ((l.remaining id).withSweeps sweeps).toNode =
      .loop { (l.remaining id).head with sweeps } (l.remaining id).body := rfl
  refine ⟨?_, fun b => ?_, fun b => ?_⟩
  · rw [List.forall_mem_singleton, node]
    refine recordsNews_loop (mem_news_of_records (l := l.remaining id) ⟨rfl, rfl⟩) ?_
    rw [body]
    exact Node.recordsNews_transformBody _ 0 l.body
  · have same : Node.bodyStatements [((l.remaining id).withSweeps sweeps).toNode] =
        (l.remaining id).statements := List.append_nil _
    rw [same, statements]
    simp only [List.mem_map, exists_exists_and_eq_and, creates_advanceAxis]
  · simp only [List.mem_singleton, exists_eq_left]
    rw [node, Node.frees_loop, body, Node.frees_transformBody, toNode, Node.frees_loop]
    rfl

/-- Whatever the remaining loop records as its folds and scans, peeling keeps the bases. -/
theorem Peels.sameBases (h : l.Peels) (k : Nat) (change : Nest → Nest)
    (changes : ∀ r, ∃ sweeps, change r = r.withSweeps sweeps) :
    l.SameBases ((l.peel k).1.1 ++ (l.peel k).1.2.toList.map fun r => (change r).toNode) := by
  have first := Node.atFirst_firstIterations h.layout.nodes h.spaced h.statements k
  have created : ∀ b, (∃ s ∈ Node.bodyStatements (Node.firstIterations 0 l.body k).1, Creates b s) ↔
      ∃ s ∈ l.statements, Creates b s := by
    intro b
    rw [first.statements]
    simp only [List.mem_map, exists_exists_and_eq_and, creates_atFirst, Nest.statements]
  have freed : ∀ b, ¬ ∃ n ∈ (Node.firstIterations 0 l.body k).1, n.Frees b := by
    rintro b ⟨n, hn, frees⟩
    exact first.frees n hn b frees
  rcases Int.lt_or_eq_of_le (Int.add_one_le_iff.mpr h.runs) with more | once
  · obtain ⟨id, peeled⟩ := peel_of_one_lt_size h.rank more k
    obtain ⟨sweeps, changed⟩ := changes (l.remaining id)
    obtain ⟨records, creates, frees⟩ := l.sameBases_remaining id sweeps
    rw [peeled]
    simp only [Option.toList_some, List.map_singleton, changed]
    refine ⟨List.forall_mem_append.mpr ⟨first.news, records⟩, fun b => ?_, fun b => ?_⟩
    · simp only [Node.bodyStatements_append, List.mem_append, or_and_right, exists_or, created,
        creates, or_self]
    · simp only [List.mem_append, or_and_right, exists_or, freed, frees, false_or]
  · obtain ⟨id, peeled⟩ := peel_of_size_eq_one h.rank once.symm k
    obtain ⟨records, empty, frees⟩ := l.sameBases_holders id
    rw [peeled]
    simp only [Option.toList_none, List.map_nil, List.append_nil]
    refine ⟨List.forall_mem_append.mpr ⟨first.news, records⟩, fun b => ?_, fun b => ?_⟩
    · rw [Node.bodyStatements_append, empty, List.append_nil, created]
    · simp only [List.mem_append, or_and_right, exists_or, freed, frees, false_or]

/-- Runs a kernel with other work in place of its body. -/
def runWith (kernel : Nest) (work : Exec Unit) : Exec Unit := do
  kernel.allTemps.forM fun b => Exec.change (·.allocate b)
  work

theorem act_runWith (kernel : Nest) (work : Exec Unit) : (kernel.runWith work).act =
    (kernel.allTemps.forM fun b => Exec.change (·.allocate b)).act * work.act :=
  Exec.act_bind _ _

/-- The kernel of nodes with the same bases is the kernel of the loop with other work. -/
theorem SameBases.act_run_kernel {body : List Node} (h : l.SameBases body)
    (own : RecordsNews l.toNode) (n : Nat) : (Nest.kernel body n).1.run.act =
      ((Fusion.kernel [l] n).1.runWith (Node.runBody [] body)).act := by
  have unfolded : (Nest.kernel body n).1.run =
      (Nest.kernel body n).1.runWith (Node.runBody [] body) := rfl
  rw [unfolded, act_runWith, act_runWith, act_allocate_congr (h.mem_allTemps own n)]

namespace Peels

variable (h : l.Peels)

include h

theorem act_run_kernel (n : Nat) : (Fusion.kernel [l] n).1.run.act =
    ((Fusion.kernel [l] n).1.runWith (l.iterate (· == 0))).act := by
  have unfolded : (Fusion.kernel [l] n).1.run =
      (Fusion.kernel [l] n).1.runWith (Node.runBody [] [l.toNode]) := rfl
  rw [unfolded, act_runWith, act_runWith, Node.act_runBody_singleton,
    run_eq_iterate (by rw [h.rank]) h.sweeps]

/-- The peeled kernel opens in the first two iterations. -/
theorem act_run_peeled (k n : Nat) :
    (Nest.kernel ((l.peel k).1.1 ++ (l.peel k).1.2.toList.map toNode) n).1.run.act =
      ((Fusion.kernel [l] n).1.runWith (l.iterate (· ≤ 1))).act := by
  have same : l.SameBases ((l.peel k).1.1 ++ (l.peel k).1.2.toList.map toNode) :=
    h.sameBases k id fun r => ⟨r.head.sweeps, rfl⟩
  have opens : (fun k : Nat => decide (k ≤ 1)) = fun k => k == 0 || k == 1 := by
    funext k
    rw [Bool.eq_iff_iff]
    simp
    omega
  rw [same.act_run_kernel (recordsNews_of_layout h.layout), act_runWith, act_runWith, opens,
    h.act_runBody_peel k toNode (· == 1) fun id => ?_]
  rw [h.run_remaining]
  simp

/-- Without the records of the remaining loop, the peeled kernel does what the kernel does. -/
theorem act_run_peeled_withSweeps_nil (k n : Nat) :
    (Nest.kernel ((l.peel k).1.1 ++
      (l.peel k).1.2.toList.map fun r => (r.withSweeps []).toNode) n).1.run.act =
        (Fusion.kernel [l] n).1.run.act := by
  have same := h.sameBases k (withSweeps []) fun r => ⟨[], rfl⟩
  rw [same.act_run_kernel (recordsNews_of_layout h.layout), h.act_run_kernel, act_runWith,
    act_runWith, h.act_runBody_peel k _ (fun _ => false) fun id => ?_]
  · simp
  · rw [h.run_remaining_withSweeps_nil]

end Peels

end Nest

namespace Fusion

/-- Peeling a fused loop keeps its meaning if the remaining loop records no folds and scans along it.
With its records the remaining loop opens once more: the peeled kernel opens in the first two
iterations, the whole one in the first.

The loop runs, as a first iteration is peeled off a loop of size 0 as well. Folds along it lose the
axis, as the copy that is left of a fold would have the axis in its output alone. Its inner loops are
spaced, as peeling joins neighbouring loops of one size. -/
theorem fuse_peel (separate : Bool) {ss : List Statement} (views : ∀ s ∈ ss, s.instr.WellFormed)
    {n m : Nat} {ls : List Nest} (fused : fuse separate ss n = .ok (ls, m)) {l : Nest} (hl : l ∈ ls)
    (sweeps : l.head.sweeps ≠ []) (runs : 0 < l.head.size)
    (arity : ∀ s ∈ l.statements, s.instr.operands.length = s.instr.opcode.arity)
    (arrays : ∀ s ∈ l.statements, ∀ out ∈ s.instr.operands[0]?, out.isConstant = false)
    (fit : ∀ s ∈ l.statements, s.instr.ShapesFit)
    (evaluable : ∀ s ∈ l.statements, s.instr.sweepAxis? = some 0 → s.instr.isEvaluable = true)
    (lost : ∀ s ∈ l.statements, s.instr.opcode.isReduction = true → s.instr.sweepAxis? = some 0 →
      1 < s.instr.ndim → ∀ out ∈ s.instr.operands[0]?, out.ndim < s.instr.ndim)
    (spaced : ∀ inner ∈ l.localNests, inner.toNode.Spaced) (k k' : Nat) :
    let whole := (kernel [l] k').1
    let first := (l.peel k).1.1
    let rest := (l.peel k).1.2
    let peeled := (Nest.kernel (first ++ rest.toList.map (·.toNode)) k').1
    let closed := (Nest.kernel (first ++ rest.toList.map fun r => (r.withSweeps []).toNode) k').1
    closed.run.act = whole.run.act ∧
      whole.run.act = (whole.runWith (l.iterate (· == 0))).act ∧
      peeled.run.act = (whole.runWith (l.iterate (· ≤ 1))).act ∧
      (l.head.size = 1 → peeled.run.act = whole.run.act) := by
  intro whole first rest peeled closed
  have layout := (faithful_of_fuse views fused).laidOut l hl
  have plain := Nest.hasPositionDependent_eq_false.mp
    ((keepsApart_of_fuse views fused l hl).resolve_left sweeps)
  have peels : l.Peels := by
    refine ⟨layout, sweeps, runs, fun s hs => ?_, fun n hn => ?_⟩
    · have computes := (Nest.layout_statements layout s hs).1
      exact {
        sound := ⟨computes.notSystem, computes.views, fit s hs⟩
        plain := plain s hs
        evaluable := evaluable s hs
        shape := fun deep => Instruction.shape_sliceAxis_zero (fit s hs) computes.views (arity s hs)
          computes.notSystem (arrays s hs) fun fold along => lost s hs fold along deep }
    · cases n with
      | leaf s rank => exact Node.spaced_leaf
      | loop head body => exact spaced ⟨head, body⟩ (List.mem_filterMap.mpr ⟨_, hn, rfl⟩)
  refine ⟨peels.act_run_peeled_withSweeps_nil k k', peels.act_run_kernel k',
    peels.act_run_peeled k k', fun once => ?_⟩
  -- The only iteration of the loop opens either way.
  have same : (l.iterate (· ≤ 1)).act = (l.iterate (· == 0)).act := by
    rw [Nest.act_iterate_of_pos runs, Nest.act_iterate_of_pos runs, once]
    rfl
  have first := peels.act_run_peeled k k'
  have second := peels.act_run_kernel k'
  rw [Nest.act_runWith] at first second
  exact first.trans (same ▸ second.symm)

/-- The columns of a square are summed in the loop that doubles the square. -/
theorem fuse_peel_square :
    let square (b : BaseId) : View :=
      { base := some b, dtype := .int64, axes := View.rowMajor [2, 2] }
    let ss := Statement.number
      [.sweep (.reduce .add) (.whole 1 .int64 2) (square 0) 0,
       { opcode := .binary .add, operands := [square 2, square 0, square 0] }] 0
    ∃ l m, fuse false ss 0 = .ok ([l], m) ∧ l.head.size = 2 ∧ l.statements.length = 2 ∧
      (Nest.kernel ((l.peel m).1.1 ++
        (l.peel m).1.2.toList.map fun r => (r.withSweeps []).toNode) 0).1.run.act =
          (kernel [l] 0).1.run.act ∧
      (Nest.kernel ((l.peel m).1.1 ++ (l.peel m).1.2.toList.map (·.toNode)) 0).1.run.act =
        ((kernel [l] 0).1.runWith (l.iterate (· ≤ 1))).act := by
  intro square ss
  have single : (fuse false ss 0).toOption.map (fun r => r.1.map fun l =>
      (l.head.sweeps.isEmpty, l.head.size, l.statements.map (·.instr),
        l.localNests.all fun inner => inner.toNode.Spaced)) =
          some [(false, 2, ss.map (·.instr), true)] := by
    decide
  cases found : fuse false ss 0 with
  | error e => simp [found, Except.toOption] at single
  | ok r =>
      obtain ⟨ls, m⟩ := r
      rw [found] at single
      obtain ⟨l, rfl, shape⟩ := List.map_eq_singleton_iff.mp (Option.some.inj single)
      simp only [Prod.mk.injEq] at shape
      obtain ⟨sweeps, size, instrs, inner⟩ := shape
      have each : ∀ (P : Instruction → Prop), (∀ i ∈ ss.map (·.instr), P i) →
          ∀ s ∈ l.statements, P s.instr := by
        intro P all
        rw [← instrs] at all
        exact List.forall_mem_map.mp all
      obtain ⟨closed, -, peeled, -⟩ := fuse_peel false
        (by decide : ∀ s ∈ ss, s.instr.WellFormed) found (List.mem_singleton_self l)
        (List.isEmpty_eq_false_iff.mp sweeps) (by omega)
        (each (fun i => i.operands.length = i.opcode.arity) (by decide))
        (each (fun i => ∀ out ∈ i.operands[0]?, out.isConstant = false) (by decide))
        (each Instruction.ShapesFit (by decide))
        (each (fun i => i.sweepAxis? = some 0 → i.isEvaluable = true) (by decide))
        (each (fun i => i.opcode.isReduction = true → i.sweepAxis? = some 0 → 1 < i.ndim →
          ∀ out ∈ i.operands[0]?, out.ndim < i.ndim) (by decide))
        (by simpa using inner) m 0
      have count : l.statements.length = 2 := by
        rw [← List.length_map (fun s : Statement => s.instr), instrs]
        decide
      exact ⟨l, m, rfl, size, count, closed, peeled⟩

end Fusion

end ArrayFusion
