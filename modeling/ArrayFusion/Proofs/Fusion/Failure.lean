import ArrayFusion.Proofs.Fusion.Schedule
import Mathlib.Data.List.Flatten

/-!
# When fusion fails

Fusion can only fail where two loops are tested, at a fold or scan without operands. It takes a
second loop to be tested with, one with folds or scans if these are kept separate. If they are not,
any second statement is enough: the first pass tests the loop of the bare statement with a neighbour
that computes something.
-/

namespace ArrayFusion

namespace Statement

/-- A fold or scan along the first axis that has no operands. -/
def isBareSweep (s : Statement) : Bool := Nest.sweepsAlong 0 s && s.instr.operands.isEmpty

/-- The statement computes something, a fold or scan along the first axis if these are kept
separate. -/
def meetsSweeps (separate : Bool) (s : Statement) : Bool :=
  !s.instr.opcode.isSystem && (!separate || Nest.sweepsAlong 0 s)

variable {s : Statement}

theorem isSweep_of_sweepsAlong {rank : Int} (h : Nest.sweepsAlong rank s = true) :
    s.instr.opcode.isSweep = true := by
  rw [Nest.sweepsAlong] at h
  cases axis : s.instr.sweepAxis? with
  | none => simp [axis] at h
  | some n => exact Instruction.isSweep_of_sweepAxis? axis

theorem notSystem_of_sweepsAlong {rank : Int} (h : Nest.sweepsAlong rank s = true) :
    s.instr.opcode.isSystem = false :=
  Instruction.not_isSystem_of_isSweep (isSweep_of_sweepsAlong h)

theorem notSystem_of_isBareSweep (h : s.isBareSweep = true) : s.instr.opcode.isSystem = false :=
  notSystem_of_sweepsAlong (Bool.and_eq_true_iff.mp h).1

/-- A test of statements that does not depend on their shape. -/
def Stable (p : Statement → Bool) : Prop :=
  ∀ s t : Statement, s.Computes → s.ReshapesTo t → p t = p s

theorem stable_sweepsAlong (rank : Int) : Stable (Nest.sweepsAlong rank) := by
  intro s t computes reshapes
  rw [Nest.sweepsAlong, Nest.sweepsAlong, (reshapes.instr.similar computes.views).sweepAxis?]

theorem stable_isBareSweep : Stable isBareSweep := by
  intro s t computes reshapes
  rw [isBareSweep, isBareSweep, stable_sweepsAlong 0 s t computes reshapes,
    (reshapes.instr.similar computes.views).indistinct.isEmpty_operands]

theorem stable_meetsSweeps (separate : Bool) : Stable (meetsSweeps separate) := by
  intro s t computes reshapes
  rw [meetsSweeps, meetsSweeps, stable_sweepsAlong 0 s t computes reshapes,
    (reshapes.instr.similar computes.views).opcode]

theorem Stable.countP_eq {p : Statement → Bool} (stable : Stable p) {ss ts : List Statement}
    (h : List.Forall₂ (fun s t => s.Computes ∧ s.ReshapesTo t) ss ts) :
    ts.countP p = ss.countP p := by
  have same := map_eq_of_forall₂ h fun s t related => stable s t related.1 related.2
  have count := congrArg (List.countP id) same
  rwa [List.countP_map, List.countP_map] at count

end Statement

namespace Fusion

open Numbered Statement

variable {ss : List Statement} {ls : List Nest} {a b l : Nest}

/-! ## What a failing test tells -/

/-- Loops that are faithful to a program carry out all its statements of a kind. -/
theorem Faithful.countP_eq (h : Faithful ss ls) {p : Statement → Bool} (stable : Stable p)
    (computes : ∀ s, p s = true → s.instr.opcode.isSystem = false) :
    (ls.flatMap Nest.statements).countP p = ss.countP p := by
  obtain ⟨order, complete, -, carriedOut⟩ := h.schedule
  have carriedOut' : List.Forall₂ (fun s t => s.Computes ∧ s.ReshapesTo t) (order.map (·.1))
      (ls.flatMap Nest.statements) := List.forall₂_map_left_iff.mpr carriedOut
  have inProgram : ((computing ss).map (·.1)).countP p = ss.countP p := by
    rw [map_fst_computing, List.countP_filter]
    refine List.countP_congr fun s _ => ?_
    cases found : p s with
    | false => simp
    | true => simp [computes s found]
  rw [stable.countP_eq carriedOut', (complete.map _).countP_eq, inProgram]

/-- A loop that computes something, and has folds or scans along it if these are kept separate, has
a statement that others meet. -/
theorem countP_meetsSweeps_pos {separate : Bool} {l : Nest} (layout : l.toNode.Layout [])
    (computes : l.isSystemOnly = false) (sweeps : separate = true → l.head.sweeps ≠ []) :
    0 < l.statements.countP (meetsSweeps separate) := by
  rw [List.countP_pos_iff]
  cases separate with
  | true =>
      obtain ⟨t, ht⟩ := List.exists_mem_of_ne_nil _ (sweeps rfl)
      have rank : l.head.rank = 0 := Nest.layout_rank layout
      obtain ⟨ht, along⟩ := (Nest.mem_sweeps layout).mp ht
      rw [rank] at along
      exact ⟨t, ht, by simp [meetsSweeps, along, notSystem_of_sweepsAlong along]⟩
  | false =>
      cases statements : l.statements with
      | nil => simp [Nest.isSystemOnly, Nest.instrs, statements] at computes
      | cons t ts =>
          have := (Nest.layout_statements layout t (by simp [statements])).1.notSystem
          exact ⟨t, by simp, by simp [meetsSweeps, this]⟩

/-- A failing test in loops that are faithful to a program is due to a fold or scan without operands
and to another statement that it meets. -/
theorem Faithful.of_stuck {separate : Bool} (h : Faithful ss ls) (stuck : Stuck separate ls) :
    (∃ s ∈ ss, s.isBareSweep = true) ∧ 2 ≤ ss.countP (meetsSweeps separate) := by
  obtain ⟨a, b, pair, fault⟩ := stuck
  obtain ⟨-, computesA, computesB, together, s, hs, none⟩ := mergeable_error fault
  have layoutA := h.laidOut a (pair.subset (by simp))
  have layoutB := h.laidOut b (pair.subset (by simp))
  have inside : (a.statements ++ b.statements).Sublist (ls.flatMap Nest.statements) := by
    simpa using pair.flatMap Nest.statements
  have rank : ∀ {l : Nest}, l.toNode.Layout [] → l.head.rank = 0 := fun layout =>
    Nest.layout_rank layout
  constructor
  · have bare : 0 < (a.statements ++ b.statements).countP isBareSweep := by
      have along : s ∈ a.statements ++ b.statements ∧ Nest.sweepsAlong 0 s = true := by
        rcases List.mem_append.mp hs with hs | hs
        · obtain ⟨hs, along⟩ := (Nest.mem_sweeps layoutA).mp hs
          exact ⟨List.mem_append_left _ hs, rank layoutA ▸ along⟩
        · obtain ⟨hs, along⟩ := (Nest.mem_sweeps layoutB).mp hs
          exact ⟨List.mem_append_right _ hs, rank layoutB ▸ along⟩
      exact List.countP_pos_iff.mpr ⟨s, along.1, by simp [isBareSweep, along.2, none]⟩
    have total := h.countP_eq stable_isBareSweep fun s => notSystem_of_isBareSweep
    exact List.countP_pos_iff.mp (total ▸ lt_of_lt_of_le bare inside.countP_le)
  · have both : separate = true → a.head.sweeps ≠ [] ∧ b.head.sweeps ≠ [] := by
      rintro rfl
      have same : a.head.sweeps.isEmpty = b.head.sweeps.isEmpty := by
        simpa [rank layoutA] using together
      have empty : a.head.sweeps = [] ↔ b.head.sweeps = [] := by
        rw [← List.isEmpty_iff, ← List.isEmpty_iff, same]
      rcases List.mem_append.mp hs with hs | hs
      · exact ⟨List.ne_nil_of_mem hs, fun none => List.ne_nil_of_mem hs (empty.mpr none)⟩
      · exact ⟨fun none => List.ne_nil_of_mem hs (empty.mp none), List.ne_nil_of_mem hs⟩
    have total := h.countP_eq (stable_meetsSweeps separate) fun s meets => by
      rw [meetsSweeps, Bool.and_eq_true, Bool.not_eq_true'] at meets
      exact meets.1
    have count := inside.countP_le (p := meetsSweeps separate)
    rw [total, List.countP_append] at count
    have first := countP_meetsSweeps_pos layoutA computesA fun h => (both h).1
    have second := countP_meetsSweeps_pos layoutB computesB fun h => (both h).2
    omega

/-! ## What a bare fold or scan leads to -/

/-- Two loops that compute something can not be tested if one of them consists of a fold or scan
without operands. -/
theorem mergeable_of_bare (layoutA : a.toNode.Layout []) (layoutB : b.toNode.Layout [])
    (computesA : a.isSystemOnly = false) (computesB : b.isSystemOnly = false) {s : Statement}
    (bare : s.isBareSweep = true) (only : a.statements = [s] ∨ b.statements = [s]) :
    a.mergeable b false = .error .missingPart := by
  obtain ⟨along, none⟩ := Bool.and_eq_true_iff.mp bare
  rw [List.isEmpty_iff] at none
  have faults : ∀ {l m : Nest}, l.toNode.Layout [] → l.statements = [s] →
      l.touchesSweeps m = .error .missingPart := by
    intro l m layout only
    have sweeps : l.head.sweeps = [s] := by
      have rank : l.head.rank = 0 := Nest.layout_rank layout
      cases layout with
      | loop _ _ records _ _ =>
          have statements : Node.bodyStatements l.body = [s] := only
          rw [records.sweeps, statements, rank, List.filter_cons_of_pos along, List.filter_nil]
    rw [Nest.touchesSweeps, sweeps, List.anyM_cons, none]
    rfl
  have ranks : (a.head.rank != b.head.rank) = false := by
    rw [Nest.layout_rank layoutA, Nest.layout_rank layoutB, bne_self_eq_false]
  rw [Nest.mergeable, computesA, computesB, ranks]
  simp only [Bool.or_self, Bool.false_and, Bool.false_eq_true, if_false]
  rcases only with only | only
  · rw [faults layoutA only]
    rfl
  · cases first : a.touchesSweeps b with
    | error e =>
        obtain ⟨rfl, -⟩ := touchesSweeps_error first
        rfl
    | ok touches =>
        cases touches with
        | true =>
            -- A loop without operands is not touched.
            obtain ⟨t, -, touched⟩ := exists_of_anyM first
            have empty : b.instrs = [s.instr] := by rw [Nest.instrs, only, List.map_singleton]
            rw [empty] at touched
            split at touched <;> simp [none] at touched
        | false =>
            rw [faults layoutB only]
            rfl

/-- Serial merging fails from here on: a bare fold or scan stands alone in its loop, or in one of
the loops to come, and it is not the only statement. -/
structure Doomed (last : Nest) (rest : List Nest) : Prop where
  single : ∀ l ∈ rest, l.statements.length ≤ 1
  alone : 0 < last.statements.countP isBareSweep → last.statements.length = 1
  bare : 0 < (last.statements ++ rest.flatMap Nest.statements).countP isBareSweep
  two : 2 ≤ (last.statements ++ rest.flatMap Nest.statements).length

/-- If the first test of a doomed list does not fail, one of the two loops computes nothing, or the
bare fold or scan is still to come. -/
theorem Doomed.of_test {last : Nest} {rest : List Nest} {joins : Bool} (h : Doomed last (l :: rest))
    (layout : last.toNode.Layout []) (layoutL : l.toNode.Layout [])
    (test : last.mergeable l false = .ok joins) :
    last.statements = [] ∨ l.statements = [] ∨
      last.statements.countP isBareSweep = 0 ∧ l.statements.countP isBareSweep = 0 := by
  by_contra both
  simp only [not_or] at both
  obtain ⟨computes, computesL, bare⟩ := both
  have notSystem : ∀ {m : Nest}, m.toNode.Layout [] → m.statements ≠ [] →
      m.isSystemOnly = false := by
    intro m layout computes
    by_contra system
    exact computes (Nest.statements_of_isSystemOnly layout (by simpa using system))
  have only : ∀ {m : Nest}, m.statements.length = 1 → 0 < m.statements.countP isBareSweep →
      ∃ s, s.isBareSweep = true ∧ m.statements = [s] := by
    intro m one bare
    obtain ⟨s, hs⟩ := List.length_eq_one_iff.mp one
    rw [hs, List.countP_pos_iff] at bare
    obtain ⟨t, ht, bare⟩ := bare
    exact ⟨s, List.mem_singleton.mp ht ▸ bare, hs⟩
  have fails : ∃ s, s.isBareSweep = true ∧ (last.statements = [s] ∨ l.statements = [s]) := by
    by_cases here : 0 < last.statements.countP isBareSweep
    · obtain ⟨s, bare, hs⟩ := only (h.alone here) here
      exact ⟨s, bare, .inl hs⟩
    · have there : 0 < l.statements.countP isBareSweep := by omega
      have one : l.statements.length = 1 := by
        have := h.single l (by simp)
        have := List.length_pos_of_ne_nil computesL
        omega
      obtain ⟨s, bare, hs⟩ := only one there
      exact ⟨s, bare, .inr hs⟩
  obtain ⟨s, bare, only⟩ := fails
  rw [mergeable_of_bare layout layoutL (notSystem layout computes) (notSystem layoutL computesL)
    bare only] at test
  contradiction

/-- If one of two loops computes nothing, or the bare fold or scan is still to come, a merge of the
two does not help. -/
theorem Doomed.merge {last l merged : Nest} {rest : List Nest} (h : Doomed last (l :: rest))
    (keeps : List.Forall₂ (fun s t => s.Computes ∧ s.ReshapesTo t)
      (last.statements ++ l.statements) merged.statements)
    (tested : last.statements = [] ∨ l.statements = [] ∨
      last.statements.countP isBareSweep = 0 ∧ l.statements.countP isBareSweep = 0) :
    Doomed merged rest := by
  obtain ⟨single, alone, bare, two⟩ := h
  have short := single l (by simp)
  have bareL := List.countP_le_length (p := isBareSweep) (l := l.statements)
  have count := stable_isBareSweep.countP_eq keeps
  have length := keeps.length_eq
  rw [List.countP_append] at count
  rw [List.length_append] at length
  simp only [List.flatMap_cons, List.countP_append, List.length_append] at bare two
  refine ⟨fun k hk => single k (by simp [hk]), fun bare => ?_, ?_, ?_⟩
  · rcases tested with none | none | none
    · rw [none] at count length
      simp only [List.countP_nil, List.length_nil] at count length
      omega
    · rw [none] at count length
      simp only [List.countP_nil, List.length_nil] at count length
      omega
    · omega
  · rw [List.countP_append]
    omega
  · rw [List.length_append]
    omega

/-- Loops that are not merged both compute something, so that neither has the bare fold or scan. -/
theorem Doomed.skip {last l : Nest} {rest : List Nest} (h : Doomed last (l :: rest))
    (layout : last.toNode.Layout []) (layoutL : l.toNode.Layout [])
    (test : last.mergeable l false = .ok false) : Doomed l rest := by
  have computes : ∀ {m : Nest}, (m = last ∨ m = l) → m.statements ≠ [] := by
    intro m here none
    have system : m.isSystemOnly = true := by
      simp [Nest.isSystemOnly, Nest.instrs, none]
    rcases here with rfl | rfl <;> simp [Nest.mergeable, system] at test
  obtain ⟨clear, clearL⟩ : last.statements.countP isBareSweep = 0 ∧
      l.statements.countP isBareSweep = 0 := by
    rcases h.of_test layout layoutL test with none | none | clear
    · exact absurd none (computes (.inl rfl))
    · exact absurd none (computes (.inr rfl))
    · exact clear
  obtain ⟨single, -, bare, -⟩ := h
  have some := List.length_pos_of_ne_nil (computes (.inr rfl))
  have more := List.countP_le_length (p := isBareSweep) (l := rest.flatMap Nest.statements)
  simp only [List.flatMap_cons, List.countP_append] at bare
  refine ⟨fun k hk => single k (by simp [hk]), fun bare => ?_, ?_, ?_⟩
  · omega
  · rw [List.countP_append]
    omega
  · rw [List.length_append]
    omega

theorem Doomed.serialFrom {last : Nest} {done rest : List Nest} (h : Doomed last rest)
    (laidOut : LaidOut ((last :: done).reverse ++ rest)) (n : Nat) :
    serialFrom false (last :: done) rest n = .error .missingPart := by
  induction rest generalizing last done n with
  | nil =>
      have bare := h.bare
      have two := h.two
      simp only [List.flatMap_nil, List.append_nil] at bare two
      have := h.alone bare
      omega
  | cons l rest ih =>
      have layout := laidOut last (by simp)
      have layoutL := laidOut l (by simp)
      rw [Fusion.serialFrom]
      cases test : last.mergeable l false with
      | error e =>
          obtain ⟨rfl, -⟩ := mergeable_error test
          exact bind_error (liftM_error rfl n)
      | ok joins =>
          rw [bind_ok (liftM_ok rfl n)]
          cases joins with
          | true =>
              obtain ⟨merged, m, found, joined⟩ := Nest.merge_spec layout layoutL test n
              have step := Step.merge done.reverse rest test found
              have next := h.merge (joined.keeps layout layoutL) (h.of_test layout layoutL test)
              rw [if_pos rfl, bind_ok found]
              exact ih next (by simpa using step.laidOut (by simpa using laidOut)) m
          | false =>
              rw [if_neg Bool.false_ne_true]
              exact ih (h.skip layout layoutL test) (by simpa using laidOut) n

/-- A fold or scan without operands and a second statement can not be fused, unless folds and scans
are kept separate. -/
theorem fuse_of_bareSweep (views : ∀ s ∈ ss, s.instr.WellFormed)
    (bare : ∃ s ∈ ss, s.isBareSweep = true) (two : 2 ≤ ss.countP (meetsSweeps false)) (n : Nat) :
    fuse false ss n = .error .missingPart := by
  have prepared := prepared_singletons ss n
  obtain ⟨laidOut, statements, -⟩ := prepared.keeps views
  have single := prepared.single views
  have total : (ss.filter (!·.instr.opcode.isSystem)).length = ss.countP (meetsSweeps false) := by
    rw [← List.countP_eq_length_filter]
    exact List.countP_congr fun s _ => by simp [meetsSweeps]
  have here : 0 < (ss.filter (!·.instr.opcode.isSystem)).countP isBareSweep := by
    obtain ⟨s, hs, bare⟩ := bare
    have computes := notSystem_of_isBareSweep bare
    exact List.countP_pos_iff.mpr ⟨s, List.mem_filter.mpr ⟨hs, by simp [computes]⟩, bare⟩
  rw [← statements] at total here
  rw [fuse]
  generalize start : singletons ss n = r at laidOut statements single total here ⊢
  obtain ⟨ls, k⟩ := r
  rw [bind_ok (lift_ok start), serial]
  cases ls with
  | nil => simp at here
  | cons l rest =>
      have doomed : Doomed l rest := by
        refine ⟨fun m hm => single m (by simp [hm]), fun bare => ?_, by simpa using here, ?_⟩
        · have := single l (by simp)
          have := List.countP_le_length (p := isBareSweep) (l := l.statements)
          omega
        · simp only [List.flatMap_cons] at total
          omega
      have start : LaidOut ([l].reverse ++ rest) := laidOut
      exact bind_error (doomed.serialFrom start k)

example : fuse false (Statement.number
    [{ opcode := .reduce .add, operands := [], constant := some (.int64 0) },
     { opcode := .unary .identity, operands := [.whole 1 .int64 4, .whole 0 .int64 4] }] 0) 0 =
    .error .missingPart := by rfl

end Fusion

end ArrayFusion
