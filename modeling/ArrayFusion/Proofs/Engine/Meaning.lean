import ArrayFusion.Proofs.Engine.Frees
import ArrayFusion.Proofs.Fusion.Failure
import ArrayFusion.Proofs.Eval.Alone
import ArrayFusion.Proofs.Eval.Fused

/-!
# Fusion preserves meaning

Statements can be run one by one, without any fusion. A statement alone is a piece of a run as well,
and so is a kernel. Pieces are collected into one if none needs what an earlier one freed, so that
it is enough to compare what the statements and the kernels need, compute and drop on the whole.
-/

namespace ArrayFusion

open ArrayFusion.Action Fusion

namespace Statement

/-- Runs a statement alone. A free drops the data of its bases, and no other system operation does
anything. Any other statement gets a kernel of its own. -/
def execute (s : Statement) : Exec Unit :=
  if s.instr.opcode = .free then s.instr.bases.forM fun b => modify (·.free b)
  else if s.instr.opcode.isSystem then pure ()
  else do
    s.instr.bases.forM fun b => Exec.change (·.allocate b)
    (Fusion.kernel [(Nest.ofStatements 0 [] [s] 0).1] 0).1.run

/-- What running a statement alone amounts to. -/
def piece (s : Statement) : Piece :=
  if s.instr.opcode = .free then ⟨[], 1, s.instr.bases⟩
  else if s.instr.opcode.isSystem then ⟨[], 1, []⟩
  else ⟨s.instr.bases, s.act, []⟩

variable {s : Statement}

theorem piece_of_computes (computes : s.instr.opcode.isSystem = false) :
    s.piece = ⟨s.instr.bases, s.act, []⟩ := by
  have notFree : s.instr.opcode ≠ .free := fun free => by rw [free] at computes; contradiction
  rw [piece, if_neg notFree, computes]
  rfl

theorem piece_of_system (system : s.instr.opcode.isSystem = true) :
    s.piece = ⟨[], 1, s.piece.drops⟩ := by
  rw [piece, system]
  split <;> rfl

theorem mem_needs_piece {b : BaseId} :
    b ∈ s.piece.needs ↔ s.instr.opcode.isSystem = false ∧ b ∈ s.instr.bases := by
  cases system : s.instr.opcode.isSystem with
  | true =>
      rw [piece_of_system system]
      simp
  | false =>
      rw [piece_of_computes system]
      simp

theorem mem_drops_piece {b : BaseId} :
    b ∈ s.piece.drops ↔ s.instr.opcode = .free ∧ b ∈ s.instr.bases := by
  rw [piece]
  split
  next free => simp [free]
  next notFree => split <;> simp [notFree]

theorem local_piece (s : Statement) : Local s.piece.action s.piece.needs := by
  cases system : s.instr.opcode.isSystem with
  | true =>
      rw [piece_of_system system]
      exact .one []
  | false =>
      rw [piece_of_computes system, act_eq]
      refine Local.prod fun e he => ?_
      obtain ⟨p, -, rfl⟩ := List.mem_map.mp he
      exact s.instr.local_act _

/-- What running a statement amounts to, with the bases that address its views among those that are
allocated first. -/
def fullPiece (s : Statement) : Piece :=
  { s.piece with
    needs := if s.instr.opcode.isSystem then [] else s.instr.bases ++ s.instr.indexBases }

theorem mem_needs_fullPiece {b : BaseId} : b ∈ s.fullPiece.needs ↔
    s.instr.opcode.isSystem = false ∧ s.instr.mentions b = true := by
  cases system : s.instr.opcode.isSystem <;> simp [fullPiece, system, Instruction.mentions]

theorem local_fullPiece (s : Statement) : Local s.fullPiece.action s.fullPiece.needs := by
  refine s.local_piece.mono fun b hb => ?_
  obtain ⟨computes, named⟩ := mem_needs_piece.mp hb
  exact mem_needs_fullPiece.mpr ⟨computes, by simp [Instruction.mentions, named]⟩

theorem fullPiece_of_direct (direct : s.instr.opcode.isSystem = false → s.instr.indexBases = []) :
    s.fullPiece = s.piece := by
  cases system : s.instr.opcode.isSystem with
  | true => rw [fullPiece, piece_of_system system, system]; rfl
  | false =>
    rw [fullPiece, piece_of_computes system, direct system, List.append_nil, system]
    rfl

theorem Runs.computes (runs : s.Runs) : s.Computes := ⟨runs.sound.notSystem, runs.sound.views⟩

theorem Runs.sweepsInside (runs : s.Runs) : s.instr.SweepsInside := runs.sound.fit.sweepsInside

/-- The kernel of a statement alone acts like the statement. -/
theorem act_kernel_of_inside (computes : s.Computes) (inside : s.instr.SweepsInside) (n m : Nat) :
    (Fusion.kernel [(Nest.ofStatements 0 [] [s] n).1] m).1.run.act = s.act := by
  obtain ⟨vs, run, acts⟩ := run_kernel_alone computes inside n m
  rw [run, Exec.act_forM, acts, act_eq]

theorem act_kernel (runs : s.Runs) (n m : Nat) :
    (Fusion.kernel [(Nest.ofStatements 0 [] [s] n).1] m).1.run.act = s.act :=
  act_kernel_of_inside runs.computes runs.sweepsInside n m

/-- A statement that is run alone is a piece of the run, if its bases exist. -/
theorem run_execute_of_inside
    (inside : s.instr.opcode.isSystem = false → s.Computes ∧ s.instr.SweepsInside) {a : Arena}
    (exist : a.HasAll s.piece.needs) : s.execute.act.run a = s.piece.act.run a := by
  rw [execute]
  split
  next free =>
    have drop : ∀ b, (modify (·.free b) : Exec Unit).act = clear [b] := fun b =>
      Action.ext fun a => a.free_eq b
    rw [Exec.act_forM, List.map_congr_left fun b _ => drop b, prod_clear, piece, if_pos free,
      Piece.act, grant_nil, one_mul, one_mul]
  next notFree =>
    split
    next system =>
      rw [Exec.act_pure, piece, if_neg notFree, if_pos system, Piece.act, grant_nil, clear_nil]
      rfl
    next computes =>
      have computes : s.instr.opcode.isSystem = false := by simpa using computes
      rw [piece_of_computes computes] at exist ⊢
      obtain ⟨able, along⟩ := inside computes
      rw [Exec.act_bind, act_kernel_of_inside able along 0 0, Action.run_mul, run_allocate exist,
        ← Action.run_mul, Piece.act, clear_nil, mul_one]

theorem run_execute (runs : s.instr.opcode.isSystem = false → s.Runs) {a : Arena}
    (exist : a.HasAll s.piece.needs) : s.execute.act.run a = s.piece.act.run a :=
  run_execute_of_inside (fun computes => ⟨(runs computes).computes, (runs computes).sweepsInside⟩)
    exist

/-- Statements that are run one by one are the product of their pieces. -/
theorem run_forM_execute {ss : List Statement}
    (runs : ∀ s ∈ ss, s.instr.opcode.isSystem = false → s.Runs) {a : Arena}
    (exist : ∀ s ∈ ss, a.HasAll s.piece.needs) :
    (ss.forM execute).act.run a = (ss.map fun s : Statement => s.piece.act).prod.run a := by
  induction ss generalizing a with
  | nil => rfl
  | cons s ss ih =>
      have first := run_execute (runs s (by simp)) (exist s (by simp))
      rw [Exec.act_forM, List.map_cons, List.prod_cons, ← Exec.act_forM, List.map_cons,
        List.prod_cons, Action.run_mul, Action.run_mul, first]
      cases reached : s.piece.act.run a with
      | none => rfl
      | some a' =>
          rw [Option.bind_some, Option.bind_some]
          refine ih (fun t ht => runs t (by simp [ht])) fun t ht => ?_
          exact Piece.keeps_exists s.local_piece reached (exist t (by simp [ht]))

/-- On the whole, statements compute what those do that are no system operations. -/
theorem prod_action_piece (ss : List Statement) : (ss.map fun s => s.piece.action).prod =
    ((ss.filter (!·.instr.opcode.isSystem)).map act).prod := by
  induction ss with
  | nil => rfl
  | cons s ss ih =>
      rw [List.map_cons, List.prod_cons, ih]
      cases system : s.instr.opcode.isSystem with
      | true =>
          rw [List.filter_cons_of_neg (by simp [system]), piece_of_system system]
          exact one_mul _
      | false =>
          rw [List.filter_cons_of_pos (by simp [system]), piece_of_computes system, List.map_cons,
            List.prod_cons]

end Statement

namespace Fusion

/-- The kernels of fused loops act like the statements of the program one by one, if those allocate
the bases that address their views as well. -/
theorem Faithful.actKernels_eq {ss : List Statement} {ls : List Nest} (h : Faithful ss ls)
    (runs : ∀ s ∈ ss, s.instr.opcode.isSystem = false → s.Runs)
    (unused : ∀ b, UnusedAfterFree b ss) :
    Engine.actKernels ls = (ss.map fun s => s.fullPiece.act).prod := by
  have apartLoops : ls.Pairwise fun l m => ∀ b ∈ l.fullPiece.drops, b ∉ m.fullPiece.needs := by
    refine List.pairwise_iff_getElem.mpr fun i j hi hj less b freed needed => ?_
    have last := List.pairwise_iff_getElem.mp (h.freedLast b (unused b)) i j hi hj less freed
    exact last (Nest.accesses_iff.mpr needed)
  have apart : ss.Pairwise fun s t => ∀ b ∈ s.fullPiece.drops, b ∉ t.fullPiece.needs := by
    refine List.pairwise_iff_getElem.mpr fun i j hi hj less b freed needed => ?_
    obtain ⟨free, named⟩ := Statement.mem_drops_piece.mp freed
    obtain ⟨computes, mentioned⟩ := Statement.mem_needs_fullPiece.mp needed
    have := List.pairwise_iff_getElem.mp (unused b) i j hi hj less free named computes
    exact Bool.noConfusion (mentioned.symm.trans this)
  have needs : ∀ b, (b ∈ ls.flatMap fun l => l.fullPiece.needs) ↔
      b ∈ ss.flatMap fun s => s.fullPiece.needs := by
    intro b
    simp only [List.mem_flatMap, Statement.mem_needs_fullPiece, ← Nest.accesses_iff]
    constructor
    · rintro ⟨l, hl, t, ht, mentioned⟩
      obtain ⟨s, hs, computes, similar⟩ := h.statement hl ht
      exact ⟨s, hs, computes, similar.indistinct.mentions b ▸ mentioned⟩
    · rintro ⟨s, hs, computes, mentioned⟩
      obtain ⟨l, hl, t, ht, similar⟩ := h.carriedOut hs computes
      exact ⟨l, hl, t, ht, (similar.indistinct.mentions b).trans mentioned⟩
  have drops : ∀ b, (b ∈ ls.flatMap fun l => l.fullPiece.drops) ↔
      b ∈ ss.flatMap fun s => s.fullPiece.drops := by
    intro b
    simp only [List.mem_flatMap, Statement.fullPiece, Statement.mem_drops_piece]
    exact h.frees b
  have actions : (ls.map fun l => l.fullPiece.action).prod =
      (ss.map fun s => s.fullPiece.action).prod :=
    (h.prod_act runs).trans (Statement.prod_action_piece ss).symm
  rw [Engine.actKernels,
    Piece.prod_act (fun l hl => Nest.local_fullPiece (h.laidOut l hl)) apartLoops,
    Piece.prod_act (fun s _ => s.local_fullPiece) apart, actions, Piece.act, Piece.act,
    grant_congr needs, clear_congr drops]

/-- The kernels of fused loops act like the statements of the program one by one. -/
theorem Faithful.actNests_eq {ss : List Statement} {ls : List Nest} (h : Faithful ss ls)
    (direct : ∀ l ∈ ls, l.Direct) (runs : ∀ s ∈ ss, s.instr.opcode.isSystem = false → s.Runs)
    (unused : ∀ b, UnusedAfterFree b ss) :
    Engine.actNests ls = (ss.map fun s => s.piece.act).prod := by
  have same : ∀ s ∈ ss, s.fullPiece.act = s.piece.act := by
    intro s hs
    rw [Statement.fullPiece_of_direct]
    intro computes
    obtain ⟨l, hl, t, ht, similar⟩ := h.carriedOut hs computes
    rw [← similar.indistinct.indexBases]
    exact direct l hl t ht
  rw [← Engine.actKernels_of_direct direct, h.actKernels_eq runs unused, List.map_congr_left same]

/-- A program can be fused if the operands of its statements fit. -/
theorem fuse_of_fits (separate : Bool) {ss : List Statement}
    (views : ∀ s ∈ ss, s.instr.WellFormed)
    (fit : ∀ s ∈ ss, s.instr.opcode.isSystem = false → s.instr.ShapesFit) (n : Nat) :
    ∃ ls m, fuse separate ss n = .ok (ls, m) ∧ Faithful ss ls := by
  rcases fuse_faithful separate views n with done | ⟨-, ls, faithful, stuck⟩
  · exact done
  · obtain ⟨⟨s, hs, bare⟩, -⟩ := faithful.of_stuck stuck
    have computes := Statement.notSystem_of_isBareSweep bare
    rw [Statement.isBareSweep, Bool.and_eq_true, List.isEmpty_iff] at bare
    obtain ⟨-, -, input, operand, -⟩ :=
      (fit s hs computes).axis (Statement.isSweep_of_sweepsAlong bare.1)
    rw [bare.2] at operand
    contradiction

end Fusion

namespace Engine

variable {ss : List Statement}

/-- The engine acts like the statements one by one, and fails where they fail. -/
theorem ends_run_execute (settings : Settings) (target : Target)
    (plain : ∀ s ∈ ss, s.instr.opcode.isExtension = false)
    (views : ∀ s ∈ ss, s.instr.WellFormed)
    (noIndex : ∀ s ∈ ss, ∀ v ∈ s.instr.operands, v.usesIndexArrays = false)
    (runs : ∀ s ∈ ss, s.instr.opcode.isSystem = false → s.Runs)
    (unused : ∀ b, UnusedAfterFree b ss) {before : Session Unit}
    (exist : ∀ s ∈ ss, ∀ b, Uses b s → (before.arena.get? b).isSome = true) :
    Ends ((new settings (Backend.interpreter target)).run { body := ss } before)
      ((ss.forM Statement.execute).act.run before.arena) := by
  obtain ⟨ls, m, fused, faithful⟩ := fuse_of_fits settings.separate views
    (fun s hs computes => (runs s hs computes).sound.fit) 0
  have direct := faithful.direct noIndex
  have existAlone : ∀ s ∈ ss, before.arena.HasAll s.piece.needs := by
    intro s hs b needed
    obtain ⟨computes, named⟩ := Statement.mem_needs_piece.mp needed
    exact exist s hs b (.inr ⟨computes, by simp [Instruction.mentions, named]⟩)
  rw [Statement.run_forM_execute runs existAlone, ← faithful.actNests_eq direct runs unused]
  exact ends_run rfl plain noIndex fused faithful.laidOut direct (faithful.hasAll exist)

/-- Fusion preserves meaning. If running the statements of a program one by one succeeds, then the
engine succeeds and leaves all bases as they are left there. -/
theorem run_eq_execute {settings : Settings} {target : Target}
    (plain : ∀ s ∈ ss, s.instr.opcode.isExtension = false)
    (views : ∀ s ∈ ss, s.instr.WellFormed)
    (noIndex : ∀ s ∈ ss, ∀ v ∈ s.instr.operands, v.usesIndexArrays = false)
    (fit : ∀ s ∈ ss, s.instr.opcode.isSystem = false → s.instr.ShapesFit)
    (once : ∀ s ∈ ss, s.instr.opcode.isSystem = false → s.instr.WritesOnce)
    (unused : ∀ b, UnusedAfterFree b ss) {before : Session Unit}
    (exist : ∀ s ∈ ss, ∀ b, Uses b s → (before.arena.get? b).isSome = true)
    (executed : ((ss.forM Statement.execute) before.arena).1 = .ok ()) :
    ∃ after, (new settings (Backend.interpreter target)).run { body := ss } before =
      (.ok (), after) ∧ after.arena = ((ss.forM Statement.execute) before.arena).2 := by
  have runs : ∀ s ∈ ss, s.instr.opcode.isSystem = false → s.Runs := fun s hs computes =>
    ⟨⟨computes, views s hs, fit s hs computes⟩, once s hs computes⟩
  have ends := ends_run_execute settings target plain views noIndex runs unused exist
  have acts : (ss.forM Statement.execute).act.run before.arena =
      some ((ss.forM Statement.execute) before.arena).2 := by
    simp only [Exec.act]
    generalize (ss.forM Statement.execute) before.arena = r at executed ⊢
    obtain ⟨_, a⟩ := r
    cases executed
    rfl
  rw [acts] at ends
  obtain ⟨succeeded, arena⟩ := ends
  exact ⟨_, Prod.ext succeeded rfl, arena⟩

/-- The sum of an array with itself is copied as a square, and the sum is freed. -/
theorem run_eq_execute_square :
    let square (b : BaseId) : View :=
      { base := some b, dtype := .int64, axes := View.rowMajor [2, 2] }
    let flat (b : BaseId) : View := .whole b .int64 4
    let ss := Statement.number
      [{ opcode := .binary .add, operands := [flat 1, flat 0, flat 0] },
       { opcode := .unary .identity, operands := [square 2, square 1] },
       { opcode := .free, operands := [flat 1] }] 0
    let before : Session Unit :=
      { arena := .ofList [⟨.int64, 4, some (.zeros .int64 4)⟩, ⟨.int64, 4, none⟩, ⟨.int64, 4, none⟩]
        backend := () }
    ∃ after, (new {} (Backend.interpreter .openmp)).run { body := ss } before = (.ok (), after) ∧
      after.arena = ((ss.forM Statement.execute) before.arena).2 := by
  intro square flat ss before
  have exist : ∀ s ∈ ss, ∀ b ∈ s.instr.bases ++ s.instr.indexBases,
      (before.arena.get? b).isSome = true := by decide
  have unused : ∀ b, UnusedAfterFree b ss := unusedAfterFree_of_mem (by decide)
  have executed : ((ss.forM Statement.execute) before.arena).1 = .ok () :=
    ok_of_toOption (by decide +kernel)
  exact run_eq_execute (by decide) (by decide) (by decide) (by decide) (by decide) unused
    (fun s hs b uses => exist s hs b (mem_bases_of_uses uses)) executed

end Engine

end ArrayFusion
