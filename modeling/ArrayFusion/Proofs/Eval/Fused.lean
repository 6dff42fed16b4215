import ArrayFusion.Proofs.Eval.Reshape
import ArrayFusion.Proofs.Fusion.Schedule

/-!
# Fused loops act like the program

Fusion carries out the statements of a program in loops that they share, in another order, and in
other shapes. None of this changes the action: loops act like their statements one after the other,
statements that changed places do not depend on each other, and reshaped statements act alike.
-/

namespace ArrayFusion

open Shape

namespace Statement

/-- Statements that do not depend on each other commute. -/
theorem commute_of_independent {s t : Statement} (hs : s.instr.StaysInside)
    (ht : t.instr.StaysInside) (independent : s.instr.dependent t.instr = false) :
    Commute s.act t.act := by
  rw [s.act_eq, t.act_eq]
  refine Commute.list_prod_left _ _ fun f hf => Commute.list_prod_right _ _ fun g hg => ?_
  obtain ⟨p, hp, rfl⟩ := List.mem_map.mp hf
  obtain ⟨q, hq, rfl⟩ := List.mem_map.mp hg
  exact Instruction.commute_of_independent hs ht independent (mem_positions.mp hp)
    (mem_positions.mp hq)

end Statement

namespace Fusion

/-- A legal order of the statements acts like their order in the program. -/
theorem prod_act_of_schedule {ss : List Statement} {order : List (Statement × Nat)}
    (complete : order.Perm (computing ss)) (legal : order.Pairwise MayPrecede)
    (runs : ∀ s ∈ ss, s.instr.opcode.isSystem = false → s.Runs) :
    (order.map fun x => x.1.act).prod =
      ((ss.filter (!·.instr.opcode.isSystem)).map Statement.act).prod := by
  have runs' : ∀ x ∈ order, x.1.Runs := by
    intro x hx
    obtain ⟨member, computes⟩ := List.mem_filter.mp (complete.subset hx)
    exact runs x.1 (List.mem_of_getElem? (List.mem_zipIdx_iff_getElem?.mp member))
      (by simpa using computes)
  rw [← map_fst_computing, List.map_map]
  refine prod_eq_of_perm complete (computing_sorted ss) ?_
  refine legal.imp_of_mem fun {x y} hx hy may before => ?_
  exact (Statement.commute_of_independent (runs' y hy).sound.staysInside
    (runs' x hx).sound.staysInside (may before)).symm

/-- The statements of the loops can run if those of the program can. -/
theorem Faithful.runs {ss : List Statement} {ls : List Nest} (h : Faithful ss ls)
    (runs : ∀ s ∈ ss, s.instr.opcode.isSystem = false → s.Runs) {l : Nest} (hl : l ∈ ls)
    {t : Statement} (ht : t ∈ l.statements) : t.Runs := by
  obtain ⟨s, hs, computes, reshapes⟩ := h.source hl ht
  exact Statement.runs_of_reshapesTo (runs s hs computes.notSystem) reshapes.instr

/-- The loops that fusion makes of a program act like its statements one after the other. -/
theorem Faithful.prod_act {ss : List Statement} {ls : List Nest} (h : Faithful ss ls)
    (runs : ∀ s ∈ ss, s.instr.opcode.isSystem = false → s.Runs) :
    (ls.map fun l => (l.toNode.run []).act).prod =
      ((ss.filter (!·.instr.opcode.isSystem)).map Statement.act).prod := by
  obtain ⟨order, complete, legal, carriedOut⟩ := h.schedule
  have runsOrder : ∀ x ∈ order, x.1.Runs := by
    intro x hx
    obtain ⟨member, computes⟩ := List.mem_filter.mp (complete.subset hx)
    exact runs x.1 (List.mem_of_getElem? (List.mem_zipIdx_iff_getElem?.mp member))
      (by simpa using computes)
  have loops : ∀ l ∈ ls, (l.toNode.run []).act = (l.statements.map Statement.act).prod := by
    intro l hl
    have runs : ∀ s ∈ l.toNode.statements, s.Runs := by simpa using fun s => h.runs runs hl
    have stands : ∀ s ∈ l.toNode.statements, s.instr.StandsAt [] [] := fun s _ =>
      ⟨⟨Nat.le_refl _, by simp⟩, by simp⟩
    have acts := Node.act_run_eq_prod (h.laidOut l hl) .nil rfl runs stands
      (List.pairwise_of_forall fun _ _ r below => absurd below (Nat.not_lt_zero r))
    rwa [Nest.statements_toNode] at acts
  have reshaped : (ls.flatMap Nest.statements).map Statement.act =
      order.map fun x => x.1.act := by
    have both := (List.forall₂_and_left _ _).mpr ⟨runsOrder, carriedOut⟩
    exact map_eq_of_forall₂ both fun x t ⟨runs, _, reshapes⟩ =>
      Statement.act_of_reshapesTo runs reshapes.instr
  rw [← prod_act_of_schedule complete legal runs, ← reshaped, List.map_congr_left loops,
    List.map_flatMap, List.flatMap_def, List.prod_flatten, List.map_map]
  rfl

end Fusion

end ArrayFusion
