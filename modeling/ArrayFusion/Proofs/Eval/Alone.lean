import ArrayFusion.Proofs.Engine.Kernel
import ArrayFusion.Proofs.Eval.Visits

/-!
# The nest of a single statement

A statement that is run alone gets a nest of its own. The visits of this nest are the positions of
the statement in row-major order, so that running the nest is carrying out the actions at these
positions one after the other. The list of the actions tells how the run ends, also if it stops
halfway: an action that fails changes nothing, and those before it have been carried out.
-/

namespace ArrayFusion

open Shape

/-! ## How a computation ends -/

namespace Action

/-- Carries out actions until one of them fails. Tells whether none does, and what arena is left. -/
def runAll : List Action → Arena → Bool × Arena
  | [], a => (true, a)
  | e :: es, a =>
    match e.run a with
    | some a' => runAll es a'
    | none => (false, a)

end Action

namespace Exec

/-- Whether a computation succeeds, and what arena it leaves. -/
def outcome (x : Exec Unit) (a : Arena) : Bool × Arena := ((x a).1.isOk, (x a).2)

theorem outcome_bind (x y : Exec Unit) (a : Arena) : (x >>= fun _ => y).outcome a =
    match x.outcome a with
    | (true, a') => y.outcome a'
    | (false, a') => (false, a') := by
  simp only [outcome, run_bind]
  rcases x a with ⟨_ | _, a'⟩ <;> rfl

theorem outcome_change (f : Arena → Except Fault Arena) (a : Arena) : (change f).outcome a =
    match (change f).act.run a with
    | some a' => (true, a')
    | none => (false, a) := by
  rw [act_change, outcome, run_change]
  dsimp only
  cases f a <;> rfl

/-- Changes one after the other end as the list of their actions says. -/
theorem outcome_forM {α : Type} (xs : List α) (f : α → Arena → Except Fault Arena) (a : Arena) :
    (xs.forM fun x => change (f x)).outcome a =
      Action.runAll (xs.map fun x => (change (f x)).act) a := by
  induction xs generalizing a with
  | nil => rfl
  | cons x xs ih =>
      have first := outcome_bind (change (f x)) (xs.forM fun x => change (f x)) a
      rw [outcome_change] at first
      rw [List.map_cons, Action.runAll]
      refine first.trans ?_
      cases (change (f x)).act.run a with
      | none => rfl
      | some a' => exact ih a'

end Exec

/-! ## Visits of a single statement -/

namespace Node

/-- In the course of its iterations every loop tells its first one apart, or none. -/
theorem forall₂_of_mem_courses {heads : List LoopHead} {us : Turns} (h : us ∈ courses heads) :
    List.Forall₂ (fun head t => t = turn head t.index) heads us := by
  induction heads generalizing us with
  | nil =>
      rw [courses, List.mem_singleton] at h
      exact h ▸ .nil
  | cons head heads ih =>
      rw [courses, List.mem_flatMap] at h
      obtain ⟨k, -, h⟩ := h
      obtain ⟨us, hus, rfl⟩ := List.mem_map.mp h
      exact .cons rfl (ih hus)

/-- The loops around a statement list it if it folds or scans along them. -/
theorem Layout.sweeps_placements {outer : List Int} {n : Node} (layout : Layout outer n) :
    ∀ x ∈ n.placements, ∀ head ∈ x.loops,
      Nest.sweepsAlong head.rank x.stmt = true → x.stmt ∈ head.sweeps := by
  induction layout with
  | leaf computes under depth innermost => simp [placements]
  | @loop outer head body rank size records together nodes ih =>
      intro x hx head' hhead along
      obtain ⟨k, n, hn, y, hy, rfl⟩ := mem_placements_loop.mp hx
      have member := List.mem_of_getElem? hn
      rcases List.mem_cons.mp hhead with rfl | inner
      · rw [records.sweeps]
        refine List.mem_filter.mpr ⟨(statements_sublist member).subset ?_, along⟩
        rw [← map_stmt_placements]
        exact List.mem_map.mpr ⟨y, hy, rfl⟩
      · exact ih n member y hy head' inner along

end Node

/-- In the course of the loops around it, a statement stands at the position that they make up. -/
theorem Placement.standsAt {x : Placement} (fits : x.Fits [])
    (sweeps : ∀ head ∈ x.loops, Nest.sweepsAlong head.rank x.stmt = true → x.stmt ∈ head.sweeps)
    (small : ∀ axis, x.stmt.instr.sweepAxis? = some axis → axis < 2 ^ 31) {us : Turns}
    (h : us ∈ Node.courses x.loops) :
    x.stmt.instr.StandsAt us ((us.map (·.index)).take x.stmt.instr.ndim) := by
  have turn : ∀ {axis : Nat} {k : Int},
      ((us.map (·.index)).take x.stmt.instr.ndim)[axis]? = some k →
        ∃ t, us[axis]? = some t ∧ t.index = k := by
    intro axis k hk
    rw [List.getElem?_take] at hk
    split at hk
    · rwa [List.getElem?_map, Option.map_eq_some_iff] at hk
    · contradiction
  refine ⟨⟨by simp, fun axis k hk => ?_⟩, fun axis k along hk => ?_⟩
  · obtain ⟨t, ht, rfl⟩ := turn hk
    rw [Turns.index, ht]
    rfl
  · obtain ⟨t, ht, rfl⟩ := turn hk
    have stand := forall₂_getElem? (Node.forall₂_of_mem_courses h) axis
    rw [ht] at stand
    cases hhead : x.loops[axis]? with
    | none => rw [hhead] at stand; contradiction
    | some head =>
      rw [hhead] at stand
      obtain ⟨stand⟩ := stand
      have rank : head.rank = axis := by
        have inside : axis < x.loops.length := (List.getElem?_eq_some_iff.mp hhead).1
        have ranks := congrArg (·[axis]?) fits.ranks
        simp only [List.getElem?_map, hhead] at ranks
        simpa [inside] using ranks
      have listed : x.stmt ∈ head.sweeps := by
        refine sweeps head (List.mem_of_getElem? hhead) ?_
        rw [rank, Nest.sweepsAlong_natCast axis small, along, beq_self_eq_true]
      have apart : head.sweeps.isEmpty = false := by
        rw [List.isEmpty_eq_false_iff]
        exact List.ne_nil_of_mem listed
      rw [Turns.isOpening, ht, Option.map_some, Option.getD_some, stand]
      simp [Node.turn, apart]

namespace Statement

variable {s : Statement}

/-- The visits of a nest of a single statement are its positions. This holds of everything about a
visit that depends on nothing but the position. -/
theorem map_visits {β : Type} {l : Nest} (layout : l.toNode.Layout [])
    (single : l.statements = [s]) (inside : s.instr.SweepsInside) {f : Visit → β} {g : List Int → β}
    (same : ∀ path us p, s.instr.StandsAt us p → p.length = s.instr.ndim → f ⟨path, s, us⟩ = g p) :
    (l.toNode.visits []).map f = (positions s.instr.shape).map g := by
  have placed : l.toNode.placements.map (·.stmt) = [s] := by
    rw [Node.map_stmt_placements, Nest.statements_toNode, single]
  obtain ⟨x, placements, stmt⟩ := List.map_eq_singleton_iff.mp placed
  have hx : x ∈ l.toNode.placements := placements ▸ List.mem_singleton_self x
  obtain ⟨-, -, -, visited⟩ := Nest.inFull_of_layout layout x hx
  have visits := layout.visits hx []
  have all : (l.toNode.visits []).filter (·.path = x.path) = l.toNode.visits [] := by
    refine List.filter_eq_self.mpr fun v hv => ?_
    obtain ⟨y, hy, path, -⟩ := Node.exists_placement_of_visit _ hv
    rw [placements, List.mem_singleton] at hy
    simp [← path, hy]
  rw [all] at visited visits
  have computes : x.stmt.Computes := by
    have := layout.statement s (by rw [Nest.statements_toNode, single]; simp)
    exact stmt ▸ this.1
  have small := (stmt ▸ inside : x.stmt.instr.SweepsInside).sweepAxis?_lt computes.views
  subst stmt
  rw [← visited, List.map_map]
  refine List.map_congr_left fun v hv => ?_
  rw [visits] at hv
  obtain ⟨us, hus, rfl⟩ := List.mem_map.mp hv
  have stands := Placement.standsAt (layout.fits_placements x hx)
    (layout.sweeps_placements x hx) small hus
  have deep := (layout.fits_placements x hx).depth
  have length := (Node.forall₂_of_mem_courses hus).length_eq
  rw [List.length_nil, Nat.zero_add] at deep
  refine same _ _ _ stands ?_
  change ((us.map (·.index)).take x.stmt.instr.ndim).length = x.stmt.instr.ndim
  rw [List.length_take, List.length_map]
  omega

/-- The visits of a nest of a single statement carry out the statement at its positions. -/
theorem map_act_visits {l : Nest} (layout : l.toNode.Layout []) (single : l.statements = [s])
    (inside : s.instr.SweepsInside) : (l.toNode.visits []).map (fun v => v.run.act) =
      (positions s.instr.shape).map s.instr.actAt := by
  refine map_visits layout single inside fun path us p stands length => ?_
  exact (Exec.act_change _).trans (Instruction.act_eq_actAt_of_inside inside stands length)

end Statement

/-! ## The kernel of a single statement -/

namespace Fusion

/-- The kernel of a loop that frees nothing does not allocate anything either. -/
theorem run_kernel {l : Nest} (kept : ∀ b, ¬ l.toNode.Frees b) (n : Nat) :
    (kernel [l] n).1.run = l.toNode.run [] := by
  have noTemps : (kernel [l] n).1.allTemps = [] := by
    refine List.eq_nil_iff_forall_not_mem.mpr fun b hb => ?_
    have freed := mem_allFrees_kernel.mp (BaseSet.mem_inter.mp hb).1
    exact kept b (Nest.mem_allFrees_iff.mp freed)
  have inner : (kernel [l] n).1.body = [l.toNode] := rfl
  rw [Nest.run, noTemps, inner]
  exact bind_pure_unit (m := Exec)

end Fusion

namespace Statement

variable {s : Statement}

/-- The kernel of a statement alone makes the visits of a loop with no other statement. -/
theorem exists_loop_of_kernel (computes : s.Computes) (n m : Nat) :
    ∃ l : Nest, l.toNode.Layout [] ∧ l.statements = [s] ∧
      (Fusion.kernel [(Nest.ofStatements 0 [] [s] n).1] m).1.run =
        (l.toNode.visits []).forM Visit.run := by
  have built := Nest.ofStatements_single computes n
  refine ⟨(Nest.ofStatements 0 [] [s] n).1, built.layout, ?_, ?_⟩
  · rw [← Nest.statements_toNode, built.statements]
  · rw [Fusion.run_kernel built.frees, Node.run_eq_forM_visits]

/-- The kernel of a statement alone carries out the statement at its positions. -/
theorem run_kernel_alone (computes : s.Computes) (inside : s.instr.SweepsInside) (n m : Nat) :
    ∃ vs : List Visit,
      (Fusion.kernel [(Nest.ofStatements 0 [] [s] n).1] m).1.run = vs.forM Visit.run ∧
        vs.map (fun v => v.run.act) = (positions s.instr.shape).map s.instr.actAt := by
  obtain ⟨l, layout, single, run⟩ := exists_loop_of_kernel computes n m
  exact ⟨l.toNode.visits [], run, map_act_visits layout single inside⟩

/-- The actions at the positions of a statement tell how its kernel ends. -/
theorem outcome_kernel (computes : s.Computes) (inside : s.instr.SweepsInside) (n m : Nat)
    (a : Arena) : (Fusion.kernel [(Nest.ofStatements 0 [] [s] n).1] m).1.run.outcome a =
      Action.runAll ((positions s.instr.shape).map s.instr.actAt) a := by
  obtain ⟨vs, run, acts⟩ := run_kernel_alone computes inside n m
  rw [run, ← acts]
  exact Exec.outcome_forM vs (fun v => v.stmt.instr.step v.turns) a

end Statement

end ArrayFusion
