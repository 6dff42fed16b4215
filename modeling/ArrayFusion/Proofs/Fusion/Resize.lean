import ArrayFusion.Proofs.Fusion.Mergeable

/-!
# Splitting the axis of the longer loop

Before loops of different sizes are merged, the longer one is built anew with its axis split. Its
statements are reshaped, it frees the same bases, and it can still share its iterations with the
other loop.
-/

namespace ArrayFusion

namespace Numbered

theorem lift_ok {α : Type} {x : Numbering α} {n m : Nat} {y : α} (h : x n = (y, m)) :
    x.lift n = .ok (y, m) := congrArg Except.ok h

theorem bind_ok {α β : Type} {x : Numbered α} {f : α → Numbered β} {n m : Nat} {y : α}
    (h : x n = .ok (y, m)) : (x >>= f) n = f y m := by
  simp only [bind, StateT.bind, h, Except.bind]

theorem bind_error {α β : Type} {x : Numbered α} {f : α → Numbered β} {n : Nat} {e : Fault}
    (h : x n = .error e) : (x >>= f) n = .error e := by
  simp only [bind, StateT.bind, h, Except.bind]

theorem liftM_ok {α : Type} {x : Except Fault α} {y : α} (h : x = .ok y) (n : Nat) :
    (liftM x : Numbered α) n = .ok (y, n) := by
  rw [h]
  rfl

theorem liftM_error {α : Type} {x : Except Fault α} {e : Fault} (h : x = .error e) (n : Nat) :
    (liftM x : Numbered α) n = .error e := by
  rw [h]
  rfl

end Numbered

namespace Nest

open Numbered

/-- A well laid out loop may get another number and other frees. -/
theorem layout_with {outer : List Int} {l : Nest} (h : l.toNode.Layout outer) (id : Nat)
    (frees : BaseSet) : (Nest.mk { l.head with id, frees } l.body).toNode.Layout outer := by
  cases h with
  | loop rank nonneg records together nodes =>
      exact .loop rank nonneg ⟨records.sweeps, records.news⟩ together nodes

theorem layout_refresh {outer : List Int} {l : Nest} (h : l.toNode.Layout outer) :
    l.refresh.toNode.Layout outer := by
  cases h with
  | loop rank nonneg records together nodes => exact .loop rank nonneg ⟨rfl, rfl⟩ together nodes

theorem layout_rank {outer : List Int} {l : Nest} (h : l.toNode.Layout outer) :
    l.head.rank = outer.length := by
  cases h with
  | loop rank nonneg records together nodes => exact rank

theorem layout_size {outer : List Int} {l : Nest} (h : l.toNode.Layout outer) :
    0 ≤ l.head.size := by
  cases h with
  | loop rank nonneg records together nodes => exact nonneg

theorem layout_together {outer : List Int} {l : Nest} (h : l.toNode.Layout outer) :
    l.statements.Pairwise (Statement.Together l.head.rank) := by
  cases h with
  | loop rank nonneg records together nodes => exact together

/-- The head lists exactly the statements that fold or scan along the loop. -/
theorem mem_sweeps {outer : List Int} {l : Nest} (h : l.toNode.Layout outer) {s : Statement} :
    s ∈ l.head.sweeps ↔ s ∈ l.statements ∧ sweepsAlong l.head.rank s = true := by
  cases h with
  | loop rank nonneg records together nodes =>
      rw [records.sweeps]
      exact List.mem_filter

theorem layout_statements {outer : List Int} {l : Nest} (h : l.toNode.Layout outer) :
    ∀ s ∈ l.statements, s.Computes ∧ s.Under (outer ++ [l.head.size]) := Node.Layout.body h

theorem computes_append {outer : List Int} {a b : Nest} (ha : a.toNode.Layout outer)
    (hb : b.toNode.Layout outer) : ∀ s ∈ a.statements ++ b.statements, s.Computes :=
  List.forall_mem_append.mpr
    ⟨fun s hs => (layout_statements ha s hs).1, fun s hs => (layout_statements hb s hs).1⟩

/-! ## Split statements -/

theorem sweepsAlong_of_isElementwise {s : Statement} (h : s.instr.opcode.isElementwise = true)
    (rank : Int) : sweepsAlong rank s = false := by
  rw [sweepsAlong, Instruction.sweepAxis?_of_isElementwise h]

/-- What splitting the axis of a loop does to each of its statements. -/
theorem forall₂_splitStatements {outer : List Int} {l : Nest} {size : Int} {ss : List Statement}
    (h : l.toNode.Layout outer) (split : l.splitStatements size = .ok ss) :
    List.Forall₂ (fun s t => s.Computes ∧ s.ReshapesTo t ∧ 0 < size ∧
      s.instr.opcode.isElementwise = true ∧ t.Under (outer ++ [size])) l.statements ss := by
  have both := (List.forall₂_and_left _ _).mpr ⟨layout_statements h, forall₂_of_mapM split⟩
  refine both.imp fun s t related => ?_
  obtain ⟨⟨computes, under⟩, changed⟩ := related
  rw [layout_rank h, Int.toNat_natCast] at changed
  cases found : s.instr.splitAxis outer.length size with
  | error e =>
      rw [found] at changed
      contradiction
  | ok j =>
      rw [found] at changed
      cases changed
      obtain ⟨n, along, positive, -, reshapable, nonneg, reshaped, shape⟩ :=
        Instruction.splitAxis_spec computes.views found
      have elementwise := Instruction.isElementwise_of_isReshapable reshapable
      refine ⟨computes, .inr ⟨rfl, nonneg, reshaped⟩, positive, elementwise, ?_⟩
      · rcases under with under | ⟨-, empty⟩
        · left
          have before : s.instr.shape.take outer.length = outer := by
            have := congrArg (List.take outer.length) under
            simpa [List.take_take] using this
          have length : (s.instr.shape.take outer.length).length = outer.length := by rw [before]
          simp only [Statement.fresh, shape, List.length_append, List.length_singleton]
          rw [List.take_append, length, List.take_of_length_le (by omega), before]
          simp
        · rw [empty] at along
          simp at along

theorem buildable_split {outer : List Int} {l : Nest} {size : Int} {ss : List Statement}
    (h : l.toNode.Layout outer) (nonempty : l.statements ≠ [])
    (split : l.splitStatements size = .ok ss) : commonSize outer.length ss = size ∧
      Buildable outer size ss := by
  have related := forall₂_splitStatements h split
  have facts : ∀ t ∈ ss, t.Computes ∧ 0 < size ∧ t.instr.opcode.isElementwise = true ∧
      t.Under (outer ++ [size]) := by
    intro t ht
    obtain ⟨s, -, computes, reshaped, positive, elementwise, under⟩ := exists_of_forall₂ related ht
    refine ⟨computes.reshapesTo reshaped, positive, ?_, under⟩
    rw [(reshaped.instr.similar computes.views).opcode]
    exact elementwise
  cases ss with
  | nil =>
      exact absurd (List.forall₂_nil_right_iff.mp related) nonempty
  | cons t ts =>
      obtain ⟨-, positive, -, under⟩ := facts t (by simp)
      refine ⟨Statement.Under.sizeAt under, Int.le_of_lt positive, fun s hs => ?_, fun rank => ?_⟩
      · obtain ⟨computes, -, -, under⟩ := facts s hs
        exact ⟨computes, under⟩
      · refine pairwise_of_forall₂ related ?_ (layout_together h)
        intro s s' u u' hs hu together
        obtain ⟨computesS, reshapedS, -, elementwiseS, -⟩ := hs
        obtain ⟨computesU, reshapedU, -, elementwiseU, -⟩ := hu
        refine Statement.Together.reshapesTo computesS computesU reshapedS reshapedU
          ⟨together.1, ?_, ?_⟩
        · simp [sweepsAlong_of_isElementwise elementwiseS]
        · simp [sweepsAlong_of_isElementwise elementwiseU]

/-! ## Resized loops -/

/-- What a loop has in common with the loop that was given another size. -/
structure Resized (outer : List Int) (size : Int) (ss : List Statement) (l l' : Nest) : Prop where
  layout : l'.toNode.Layout outer
  size : l'.head.size = size
  statements : l'.statements = ss
  reshaped : List.Forall₂ Statement.ReshapesTo l.statements ss
  frees : ∀ b, l'.toNode.Frees b ↔ l.toNode.Frees b
  sweeps : l' = l ∨ l'.head.sweeps = []

theorem resize_spec {outer : List Int} {l : Nest} {size : Int} {ss : List Statement}
    (h : l.toNode.Layout outer) (nonempty : l.statements ≠ []) (split : l.SplitTo size ss)
    (n : Nat) : ∃ l' m, l.resize size n = .ok (l', m) ∧ Resized outer size ss l l' := by
  rcases split with ⟨same, rfl⟩ | ⟨different, -, split⟩
  · refine ⟨l, n, ?_, h, same, rfl, List.forall₂_same.mpr fun s _ => .refl s, fun b => Iff.rfl,
      .inl rfl⟩
    rw [resize, if_pos same]
    rfl
  · obtain ⟨common, buildable⟩ := buildable_split h nonempty split
    have related := forall₂_splitStatements h split
    have some : ss ≠ [] := fun none => nonempty (by
      rw [none] at related
      exact List.forall₂_nil_right_iff.mp related)
    obtain ⟨built, -, builtSize⟩ :=
      ofStatements_spec (common ▸ buildable) (buildable.length_lt some) n
    rw [common] at builtSize
    generalize result : ofStatements outer.length [] ss n = built' at built builtSize
    obtain ⟨made, m⟩ := built'
    refine ⟨refresh ⟨{ made.head with frees := l.allFrees }, made.body⟩, m, ?_, ?_, builtSize,
      built.statements, related.imp fun _ _ h => h.2.1, ?_, .inr ?_⟩
    · rw [resize, if_neg different, bind_ok (liftM_ok split n), layout_rank h, Int.toNat_natCast,
        bind_ok (lift_ok result)]
      rfl
    · exact layout_refresh (layout_with built.layout made.head.id l.allFrees)
    · intro b
      have none := built.frees b
      rw [toNode, Node.frees_loop, not_or] at none
      rw [toNode, Node.frees_loop, ← mem_allFrees_iff]
      simp only [refresh, describe, none.2, or_false]
    · refine List.filter_eq_nil_iff.mpr fun t ht => ?_
      have statements : Node.bodyStatements made.body = ss := built.statements
      rw [statements] at ht
      obtain ⟨s, -, computes, reshaped, -, elementwise, -⟩ := exists_of_forall₂ related ht
      rw [← (reshaped.instr.similar computes.views).opcode] at elementwise
      simp [sweepsAlong_of_isElementwise elementwise]

end Nest

end ArrayFusion
