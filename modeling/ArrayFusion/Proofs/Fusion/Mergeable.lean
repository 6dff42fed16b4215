import ArrayFusion.Fusion.Merge
import ArrayFusion.Proofs.Nest.Build

/-!
# Loops that can share their iterations

What the test for mergeable loops finds out, as a symmetric relation between two loops that compute
something. The relation survives splitting the axis of the longer loop: afterwards both loops have
the same size, and each statement of one can run together with each statement of the other. So the
test says yes again.
-/

namespace ArrayFusion

theorem anyM_eq_ok_false {α ε : Type} {f : α → Except ε Bool} {xs : List α} :
    xs.anyM f = .ok false ↔ ∀ x ∈ xs, f x = .ok false := by
  induction xs with
  | nil => simp [pure, Except.pure]
  | cons x xs ih =>
      rw [List.anyM_cons, List.forall_mem_cons, ← ih]
      cases f x with
      | error e => simp [bind, Except.bind]
      | ok found => cases found <;> simp [bind, Except.bind, pure, Except.pure]

theorem anyM_ok {α ε : Type} {f : α → Except ε Bool} {xs : List α}
    (h : ∀ x ∈ xs, ∃ b, f x = .ok b) : ∃ b, xs.anyM f = .ok b := by
  induction xs with
  | nil => exact ⟨false, rfl⟩
  | cons x xs ih =>
      obtain ⟨found, hx⟩ := h x (by simp)
      obtain ⟨rest, hxs⟩ := ih fun y hy => h y (by simp [hy])
      rw [List.anyM_cons, hx, hxs]
      cases found <;> exact ⟨_, rfl⟩

theorem exists_of_anyM {α ε : Type} {f : α → Except ε Bool} {xs : List α}
    (h : xs.anyM f = .ok true) : ∃ x ∈ xs, f x = .ok true := by
  induction xs with
  | nil => simp [pure, Except.pure] at h
  | cons x xs ih =>
      rw [List.anyM_cons] at h
      cases hx : f x with
      | error e =>
          rw [hx] at h
          contradiction
      | ok found =>
          cases found with
          | true => exact ⟨x, by simp, hx⟩
          | false =>
              rw [hx] at h
              obtain ⟨y, hy, yes⟩ := ih h
              exact ⟨y, by simp [hy], yes⟩

theorem anyM_error {α ε : Type} {f : α → Except ε Bool} {xs : List α} {e : ε}
    (h : xs.anyM f = .error e) : ∃ x ∈ xs, f x = .error e := by
  induction xs with
  | nil => contradiction
  | cons x xs ih =>
      rw [List.anyM_cons] at h
      cases hx : f x with
      | error e' =>
          rw [hx] at h
          cases h
          exact ⟨x, by simp, hx⟩
      | ok found =>
          rw [hx] at h
          cases found with
          | true => contradiction
          | false =>
              obtain ⟨y, hy, fault⟩ := ih h
              exact ⟨y, by simp [hy], fault⟩

theorem anyM_eq_of_forall₂ {α β ε : Type} {R : α → β → Prop} {f : α → Except ε Bool}
    {g : β → Except ε Bool} {xs : List α} {ys : List β} (h : List.Forall₂ R xs ys)
    (same : ∀ x y, R x y → g y = f x) : ys.anyM g = xs.anyM f := by
  induction h with
  | nil => rfl
  | cons head _ ih => rw [List.anyM_cons, List.anyM_cons, same _ _ head, ih]

namespace Statement

/-- The statement itself, or a new one with the instruction in another shape. -/
def ReshapesTo (s t : Statement) : Prop :=
  t = s ∨ (t.place = none ∧ (∀ n ∈ t.instr.shape, 0 ≤ n) ∧
    s.instr.reshape t.instr.shape = .ok t.instr)

theorem ReshapesTo.refl (s : Statement) : s.ReshapesTo s := .inl rfl

theorem ReshapesTo.instr {s t : Statement} (h : s.ReshapesTo t) :
    s.instr.ReshapesTo t.instr := by
  rcases h with rfl | ⟨-, reshaped⟩
  · exact .refl _
  · exact .inr reshaped

theorem ReshapesTo.trans {s t u : Statement} (wf : s.instr.WellFormed) (first : s.ReshapesTo t)
    (second : t.ReshapesTo u) : s.ReshapesTo u := by
  rcases first with rfl | ⟨place, hshape, first⟩
  · exact second
  rcases second with rfl | ⟨place', hshape', second⟩
  · exact .inr ⟨place, hshape, first⟩
  · exact .inr ⟨place', hshape', Instruction.reshape_of_reshape wf hshape first second⟩

theorem Computes.reshapesTo {s t : Statement} (h : s.Computes) (same : s.ReshapesTo t) :
    t.Computes := by
  have similar := same.instr.similar h.views
  exact ⟨by rw [similar.opcode]; exact h.notSystem, similar.wellFormed⟩

theorem Together.reshapesTo {rank : Int} {s s' t t' : Statement} (hs : s.Computes) (ht : t.Computes)
    (changeS : s.ReshapesTo s') (changeT : t.ReshapesTo t') (h : s.Together rank t) :
    s'.Together rank t' := by
  have similarS := changeS.instr.similar hs.views
  have similarT := changeT.instr.similar ht.views
  obtain ⟨aligned, isolated, isolated'⟩ := h
  refine ⟨aligned.similar similarS similarT, fun along => ?_, fun along => ?_⟩
  · rw [Nest.sweepsAlong, similarS.sweepAxis?] at along
    exact (isolated along).similar similarS similarT
  · rw [Nest.sweepsAlong, similarT.sweepAxis?] at along
    exact (isolated' along).similar similarT similarS

end Statement

theorem pairwise_of_forall₂ {α β : Type} {R : α → β → Prop} {S : α → α → Prop} {T : β → β → Prop}
    {xs : List α} {ys : List β} (h : List.Forall₂ R xs ys)
    (step : ∀ x y x' y', R x y → R x' y' → S x x' → T y y') (pairs : xs.Pairwise S) :
    ys.Pairwise T := by
  induction h with
  | nil => exact .nil
  | @cons x y xs ys head tail ih =>
      obtain ⟨first, rest⟩ := List.pairwise_cons.mp pairs
      refine List.pairwise_cons.mpr ⟨fun y' hy' => ?_, ih rest⟩
      obtain ⟨k, hk⟩ := List.getElem?_of_mem hy'
      have related := forall₂_getElem? tail k
      rw [hk] at related
      generalize found : xs[k]? = x' at related
      cases related with
      | some same => exact step _ _ _ _ head same (first _ (List.mem_of_getElem? found))

namespace Nest

/-! ## The parts of the test -/

theorem touchesSweeps_eq_false {a b : Nest} : a.touchesSweeps b = .ok false ↔
    ∀ s ∈ a.head.sweeps, ∃ out, s.instr.operands[0]? = some out ∧
      ∀ t ∈ b.statements, ∀ v ∈ t.instr.operands, out.disjoint v = true := by
  rw [touchesSweeps, anyM_eq_ok_false]
  refine forall₂_congr fun s _ => ?_
  cases s.instr.operands[0]? with
  | none => simp
  | some out =>
      simp only [Except.ok.injEq, Option.some.injEq, exists_eq_left', instrs, List.any_eq_false,
        List.forall_mem_map]
      refine forall₂_congr fun t _ => ?_
      simp only [Bool.not_eq_true, List.any_eq_false, Bool.and_eq_false_iff, Bool.not_eq_false']
      refine forall₂_congr fun v _ => ⟨fun h => h.elim (fun constant => ?_) id, .inr⟩
      simp [View.disjoint, constant]

/-- The statements of the loop, split so that the loop has the given size. -/
def SplitTo (l : Nest) (size : Int) (ss : List Statement) : Prop :=
  (l.head.size = size ∧ ss = l.statements) ∨
    (l.head.size ≠ size ∧ l.head.reshapable = true ∧ l.splitStatements size = .ok ss)

/-- Two loops that compute something can share their iterations. -/
structure InStep (a b : Nest) : Prop where
  rank : a.head.rank = b.head.rank
  sweepsA : a.touchesSweeps b = .ok false
  sweepsB : b.touchesSweeps a = .ok false
  positionsB : a.head.sweeps = [] ∨ b.hasPositionDependent = false
  positionsA : b.head.sweeps = [] ∨ a.hasPositionDependent = false
  compatible : ∃ ss ts, a.SplitTo (min a.head.size b.head.size) ss ∧
    b.SplitTo (min a.head.size b.head.size) ts ∧
    ∀ s ∈ ss, ∀ t ∈ ts, s.instr.compatible t.instr = true

theorem splitTo_of_aligned? {a b : Nest} {ss ts : List Statement}
    (h : aligned? a b = some (ss, ts)) : a.SplitTo (min a.head.size b.head.size) ss ∧
      b.SplitTo (min a.head.size b.head.size) ts := by
  rw [aligned?] at h
  split at h
  next same =>
    cases h
    exact ⟨.inl ⟨by omega, rfl⟩, .inl ⟨by omega, rfl⟩⟩
  next different =>
    split at h
    · contradiction
    · split at h
      next less =>
        obtain ⟨us, hus, pair⟩ := Option.map_eq_some_iff.mp h
        cases pair
        simp only at hus
        split at hus
        next conditions =>
          have size : min a.head.size b.head.size = b.head.size := by omega
          rw [size]
          exact ⟨.inr ⟨different, conditions.1, ok_of_toOption hus⟩, .inl ⟨rfl, rfl⟩⟩
        · contradiction
      next notLess =>
        obtain ⟨us, hus, pair⟩ := Option.map_eq_some_iff.mp h
        cases pair
        simp only at hus
        split at hus
        next conditions =>
          have size : min a.head.size b.head.size = a.head.size := by omega
          rw [size]
          exact ⟨.inl ⟨rfl, rfl⟩, .inr ⟨Ne.symm different, conditions.1, ok_of_toOption hus⟩⟩
        · contradiction

theorem allCompatible_iff {ss ts : List Statement} : allCompatible ss ts = true ↔
    ∀ s ∈ ss, ∀ t ∈ ts, s.instr.compatible t.instr = true := by
  simp [allCompatible]

/-- The test of two loops that compute something ends with a yes exactly if all its parts do. -/
theorem mergeable_eq_ok_true {a b : Nest} {separate : Bool} (ha : a.isSystemOnly = false)
    (hb : b.isSystemOnly = false) : mergeable a b separate = .ok true ↔
      a.head.rank = b.head.rank ∧
      (separate && a.head.rank == 0 && a.head.sweeps.isEmpty != b.head.sweeps.isEmpty) = false ∧
      a.touchesSweeps b = .ok false ∧ b.touchesSweeps a = .ok false ∧ a.runsInStep b = true := by
  rw [mergeable, ha, hb]
  generalize (separate && a.head.rank == 0 &&
    a.head.sweeps.isEmpty != b.head.sweeps.isEmpty) = separated
  simp only [Bool.or_self, Bool.false_eq_true, if_false, bne_iff_ne, ne_eq, ite_not]
  split
  next rank =>
    cases separated with
    | true => simp
    | false =>
        cases a.touchesSweeps b with
        | error e => simp [bind, Except.bind]
        | ok touchesA =>
            cases b.touchesSweeps a with
            | error e => cases touchesA <;> simp [bind, Except.bind, pure, Except.pure]
            | ok touchesB =>
                cases touchesA <;> cases touchesB <;>
                  simp [bind, Except.bind, pure, Except.pure, rank]
  next rank => simp [rank]

/-- Loops pass the test if one of them computes nothing or if they can share their iterations. -/
theorem inStep_of_mergeable {a b : Nest} {separate : Bool}
    (h : mergeable a b separate = .ok true) :
    a.isSystemOnly = true ∨ b.isSystemOnly = true ∨ InStep a b := by
  cases ha : a.isSystemOnly with
  | true => exact .inl rfl
  | false =>
      cases hb : b.isSystemOnly with
      | true => exact .inr (.inl rfl)
      | false =>
          obtain ⟨rank, -, sweepsA, sweepsB, runs⟩ := (mergeable_eq_ok_true ha hb).mp h
          rw [runsInStep] at runs
          split at runs
          · contradiction
          next positions =>
            split at runs
            · contradiction
            next ss ts found =>
              obtain ⟨splitA, splitB⟩ := splitTo_of_aligned? found
              simp only [Bool.or_eq_true, Bool.and_eq_true, Bool.not_eq_true', not_or, not_and,
                Bool.not_eq_true, List.isEmpty_eq_false_iff] at positions
              exact .inr (.inr ⟨rank, sweepsA, sweepsB,
                Decidable.or_iff_not_imp_left.mpr positions.1,
                Decidable.or_iff_not_imp_left.mpr positions.2, ss, ts, splitA, splitB,
                allCompatible_iff.mp runs⟩)

/-- Loops of one size that can share their iterations pass the test. -/
theorem InStep.mergeable {a b : Nest} (h : InStep a b) (size : a.head.size = b.head.size) :
    Nest.mergeable a b false = .ok true := by
  by_cases systemOnly : (a.isSystemOnly || b.isSystemOnly) = true
  · rw [Nest.mergeable, if_pos systemOnly]
  rw [Bool.or_eq_true, not_or, Bool.not_eq_true, Bool.not_eq_true] at systemOnly
  obtain ⟨ss, ts, splitA, splitB, compatible⟩ := h.compatible
  have sizeA : min a.head.size b.head.size = a.head.size := by omega
  have sizeB : min a.head.size b.head.size = b.head.size := by omega
  rw [sizeA, SplitTo] at splitA
  rw [sizeB, SplitTo] at splitB
  simp only [ne_eq, not_true_eq_false, true_and, false_and, or_false] at splitA splitB
  subst splitA
  subst splitB
  refine (mergeable_eq_ok_true systemOnly.1 systemOnly.2).mpr
    ⟨h.rank, rfl, h.sweepsA, h.sweepsB, ?_⟩
  have positions : (!a.head.sweeps.isEmpty && b.hasPositionDependent ||
      !b.head.sweeps.isEmpty && a.hasPositionDependent) = false := by
    rcases h.positionsB with first | first <;> rcases h.positionsA with second | second <;>
      simp [first, second]
  rw [runsInStep, positions, aligned?, if_pos size]
  simpa using allCompatible_iff.mpr compatible

end Nest

end ArrayFusion
