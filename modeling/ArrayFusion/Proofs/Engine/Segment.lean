import ArrayFusion.Proofs.Engine.Kernel
import ArrayFusion.Proofs.Fusion.Schedule

/-!
# Running a program on the interpreter

The interpreter runs a program without extensions and index arrays as the kernels that fusion makes
of it. Every kernel is a piece of the run, so the run acts like the product of the pieces.
-/

namespace ArrayFusion

open ArrayFusion.Action

namespace Engine

variable {e : Engine Unit} {target : Target}

theorem performs_freeAll (kernel : Nest) :
    Run.Performs (σ := Unit) (freeAll kernel) (clear kernel.allFrees) := by
  rw [← prod_clear]
  exact Run.performs_forM fun b _ => Run.performs_modify _ _ fun s => (s.arena.free_eq b).symm

/-- What the engine does for a kernel that computes something. -/
theorem performs_runKernel (interprets : e.backend = Backend.interpreter target) {kernel : Nest}
    (computes : kernel.isSystemOnly = false) :
    Run.Performs (e.runKernel kernel)
      ((kernel.allNonTemps.forM fun b => Exec.change (·.allocate b)).act *
        (kernel.run.act * clear kernel.allFrees)) := by
  have noSource : e.sourceOf kernel = pure none := by
    rw [sourceOf, interprets]
    rfl
  have aside : ∀ {c : Bool} {x y : Run Unit Unit} {f : Action}, Run.Performs x 1 →
      Run.Performs y f → Run.Performs (if c then x >>= fun _ => y else y) f := by
    intro c x y f hx hy
    split
    · rw [← one_mul f]
      exact hx.bind hy
    · exact hy
  have executed : (Backend.interpreter target).execute { kernel } = Run.onArena kernel.run := rfl
  rw [runKernel, computes, noSource, interprets, Exec.act_forM]
  simp only [Bool.false_eq_true, if_false, pure_bind, executed]
  refine (Run.performs_forM fun b _ => Run.performs_onArena _).bind ?_
  refine aside (Run.performs_printText _) ((Run.performs_onArena _).bind ?_)
  refine aside (Run.performs_print _) ?_
  rw [← one_mul (clear _)]
  exact (Run.performs_count _).bind (performs_freeAll kernel)

/-- A kernel of one loop is a piece of the run, if all its bases exist. -/
theorem ends_runKernel (interprets : e.backend = Backend.interpreter target) {l : Nest}
    (layout : l.toNode.Layout []) (n : Nat) {s : Session Unit}
    (exist : s.arena.HasAll l.allBases) :
    Ends (e.runKernel (Fusion.kernel [l] n).1 s) (l.fullPiece.act.run s.arena) := by
  have same : ∀ b, b ∈ (Fusion.kernel [l] n).1.allFrees ↔ b ∈ l.allFrees := fun b =>
    Fusion.mem_allFrees_kernel
  have inside := Nest.local_fullPiece layout
  cases system : (Fusion.kernel [l] n).1.isSystemOnly with
  | true =>
      have none : l.statements = [] := by
        rw [Nest.isSystemOnly, Nest.instrs, Fusion.statements_kernel] at system
        refine List.eq_nil_iff_forall_not_mem.mpr fun t ht => ?_
        have := (layout.statement t (by simpa using ht)).1.notSystem
        simp only [List.all_map, List.all_eq_true, Function.comp_apply] at system
        rw [system t ht] at this
        contradiction
      have act : l.fullPiece.act = clear l.allFrees := by
        have needs : l.fullPiece.needs = [] := by
          simp [Nest.fullPiece, Node.bases, Node.indexBases, none]
        have action : l.fullPiece.action = 1 := by
          have acts : (l.toNode.run []).act = (l.toNode.statements.map (·.actFrom [])).prod :=
            Node.act_run_eq_prod layout .nil rfl (by simp [none]) (by simp [none]) (by simp [none])
          rwa [Nest.statements_toNode, none] at acts
        rw [Piece.act, needs, action, mul_one, grant_nil, one_mul]
        rfl
      rw [runKernel, system, act, ← clear_congr same]
      exact performs_freeAll _ s
  | false =>
      have performs := performs_runKernel interprets system s
      have body : (Fusion.kernel [l] n).1.run.act =
          ((Fusion.kernel [l] n).1.allTemps.forM fun b => Exec.change (·.allocate b)).act *
            l.fullPiece.action := by
        have inner : (Fusion.kernel [l] n).1.body = [l.toNode] := rfl
        rw [Nest.run, Exec.act_bind, inner, Node.act_runBody, List.map_singleton,
          List.prod_singleton, Nest.fullPiece, Nest.piece]
      rw [body, mul_assoc, ← mul_assoc, Exec.act_forM, Exec.act_forM, ← List.prod_append,
        ← List.map_append, ← Exec.act_forM, Action.run_mul, run_allocate, ← Action.run_mul,
        clear_congr same, ← mul_assoc] at performs
      · rwa [← Piece.act_of_allocated inside fun b => Fusion.mem_allocated_kernel]
      · intro b hb
        refine exist b (Nest.mem_allBases_iff.mpr ?_)
        rw [Nest.accesses_iff, or_comm]
        exact Fusion.mem_allocated_kernel.mp hb

/-- What running loops one after the other amounts to. -/
def actNests (ls : List Nest) : Action := (ls.map fun l : Nest => l.piece.act).prod

/-- What running loops as kernels one after the other amounts to, also if bases address views. -/
def actKernels (ls : List Nest) : Action := (ls.map fun l : Nest => l.fullPiece.act).prod

theorem actKernels_of_direct {ls : List Nest} (direct : ∀ l ∈ ls, l.Direct) :
    actKernels ls = actNests ls := by
  have same : ∀ l ∈ ls, l.fullPiece.act = l.piece.act := fun l hl => by
    rw [Nest.fullPiece_of_direct (direct l hl)]
  rw [actKernels, actNests, List.map_congr_left same]

/-- Kernels that run one after the other are the product of their pieces. -/
theorem ends_runNests (interprets : e.backend = Backend.interpreter target) {ls : List Nest}
    (layouts : ∀ l ∈ ls, l.toNode.Layout []) (n : Nat) {s : Session Unit}
    (exist : ∀ l ∈ ls, s.arena.HasAll l.allBases) :
    Ends (e.runNests n ls s) ((actKernels ls).run s.arena) := by
  induction ls generalizing n s with
  | nil => exact Run.performs_pure s
  | cons l ls ih =>
      have unfolded : e.runNests n (l :: ls) =
          e.runKernel (Fusion.kernel [l] n).1 >>= fun _ =>
            e.runNests (Fusion.kernel [l] n).2 ls := rfl
      have layout := layouts l (by simp)
      rw [unfolded, actKernels, List.map_cons, List.prod_cons]
      refine Run.ends_bind (ends_runKernel interprets layout n (exist l (by simp)))
        fun s' reached => ?_
      refine ih (fun m hm => layouts m (by simp [hm])) _ fun m hm => ?_
      exact Piece.keeps_exists (Nest.local_fullPiece layout) reached (exist m (by simp [hm]))

/-- The engine runs statements as the kernels that fusion makes of them. -/
theorem ends_runSegment (interprets : e.backend = Backend.interpreter target)
    {ss : List Statement} {ls : List Nest} {m : Nat}
    (fused : Fusion.fuse e.settings.separate ss 0 = .ok (ls, m))
    (layouts : ∀ l ∈ ls, l.toNode.Layout []) {s : Session Unit}
    (exist : ∀ l ∈ ls, s.arena.HasAll l.allBases) :
    Ends (e.runSegment ss s) ((actKernels ls).run s.arena) := by
  rw [runSegment]
  split
  next empty =>
    rw [List.isEmpty_iff] at empty
    rw [empty] at fused
    cases fused
    exact Run.performs_pure s
  next =>
    have ran : (Fusion.fuse e.settings.separate ss).run 0 = .ok (ls, m) := fused
    rw [ran]
    exact ends_runNests interprets layouts m exist

/-- Without extensions there is one segment. -/
theorem runStatements_eq {ss : List Statement}
    (plain : ∀ s ∈ ss, s.instr.opcode.isExtension = false) (segment : List Statement) :
    e.runStatements segment ss = e.runSegment (segment.reverse ++ ss) := by
  induction ss generalizing segment with
  | nil => rw [runStatements, List.append_nil]
  | cons s ss ih =>
      have here := plain s (by simp)
      have next := ih (fun t ht => plain t (by simp [ht])) (s :: segment)
      rw [List.reverse_cons, List.append_assoc, List.singleton_append] at next
      rw [← next, runStatements]
      split
      next extension =>
        rw [extension] at here
        contradiction
      next => rfl

/-- A program that runs once runs its body. -/
theorem ends_run_of_body {ss : List Statement} {s : Session Unit} {f : Action}
    (body : Ends (e.runBody ({ body := ss } : Program).usesIndexArrays ss s) (f.run s.arena)) :
    Ends (e.run { body := ss } s) (f.run s.arena) := by
  have once : max (Program.mk ss 1 none).repeats 1 = 0 + 1 := rfl
  rw [run, once, runRepeats]
  simp only [decide_true, Bool.true_or, if_true]
  rw [← mul_one f]
  exact Run.ends_bind body fun s' _ => ⟨rfl, rfl⟩

/-- A program that runs once and needs no resolving is one segment. -/
theorem ends_run_of_segment {ss : List Statement}
    (plain : ∀ s ∈ ss, s.instr.opcode.isExtension = false)
    (noIndex : ∀ s ∈ ss, ∀ v ∈ s.instr.operands, v.usesIndexArrays = false) {s : Session Unit}
    {f : Action} (segment : Ends (e.runSegment ss s) (f.run s.arena)) :
    Ends (e.run { body := ss } s) (f.run s.arena) := by
  have noResolving : Program.usesIndexArrays { body := ss } = false := by
    simpa [Program.usesIndexArrays] using noIndex
  refine ends_run_of_body ?_
  rw [noResolving, runBody, ← mul_one f]
  refine Run.ends_bind ?_ fun s' _ => Run.performs_count _ s'
  rw [runStatements_eq plain]
  exact segment

/-- A program that can not be fused fails. -/
theorem ends_run_of_stuck {ss : List Statement}
    (plain : ∀ s ∈ ss, s.instr.opcode.isExtension = false)
    (noIndex : ∀ s ∈ ss, ∀ v ∈ s.instr.operands, v.usesIndexArrays = false) {f : Fault}
    (stuck : Fusion.fuse e.settings.separate ss 0 = .error f) (s : Session Unit) :
    Ends (e.run { body := ss } s) none := by
  refine ends_run_of_segment (f := ⟨fun _ => none⟩) plain noIndex ?_
  rw [runSegment]
  split
  next empty =>
    rw [List.isEmpty_iff] at empty
    rw [empty] at stuck
    contradiction
  next =>
    have ran : (Fusion.fuse e.settings.separate ss).run 0 = .error f := stuck
    rw [ran]
    exact ⟨f, rfl⟩

/-- The engine runs a program as the kernels that fusion makes of it. -/
theorem ends_run (interprets : e.backend = Backend.interpreter target) {ss : List Statement}
    (plain : ∀ s ∈ ss, s.instr.opcode.isExtension = false)
    (noIndex : ∀ s ∈ ss, ∀ v ∈ s.instr.operands, v.usesIndexArrays = false)
    {ls : List Nest} {m : Nat} (fused : Fusion.fuse e.settings.separate ss 0 = .ok (ls, m))
    (layouts : ∀ l ∈ ls, l.toNode.Layout []) (direct : ∀ l ∈ ls, l.Direct) {s : Session Unit}
    (exist : ∀ l ∈ ls, s.arena.HasAll l.allBases) :
    Ends (e.run { body := ss } s) ((actNests ls).run s.arena) := by
  rw [← actKernels_of_direct direct]
  exact ends_run_of_segment plain noIndex (ends_runSegment interprets fused layouts exist)

end Engine

end ArrayFusion
