import ArrayFusion.Proofs.Engine.Meaning

/-!
# Independent statements change places

Two statements that do not depend on each other can be run in either order. What one of them writes
the other one neither reads nor writes, so that their computations commute, and a free drops no base
that the other statement names. A dependency is the same seen from either side.

The operands of a fold need not lack the axis of the fold, or have size one there. If the output has
all axes of the input in full, only its elements at the first index of the axis are used.
-/

namespace ArrayFusion

open ArrayFusion.Action Shape View

/-- An index that is set back to the first one stays in range. -/
theorem Shape.InRange.set_zero {shape p : List Int} (h : InRange shape p) (s : Nat) :
    InRange shape (p.set s 0) := by
  induction h generalizing s with
  | nil => exact .nil
  | cons head tail ih =>
      cases s with
      | zero => exact .cons ⟨Int.le_refl 0, by omega⟩ tail
      | succ s => exact .cons head (ih s)

namespace Instruction

variable {i j : Instruction} {p : List Int} {b : BaseId} {x : Int}

/-! ## Dependency -/

theorem dependent_comm (i j : Instruction) : i.dependent j = j.dependent i := by
  have meets : i.bases.meets j.bases = j.bases.meets i.bases := by
    rw [Bool.eq_iff_iff, BaseSet.meets_iff, BaseSet.meets_iff]
    exact exists_congr fun b => And.comm
  rw [dependent, dependent, meets, Bool.or_comm (i.opcode == .none),
    Bool.or_comm i.opcode.isSystem, Bool.or_comm i.operands.isEmpty, Bool.or_comm (i.addresses j),
    Bool.or_assoc (j.addresses i || i.addresses j), Bool.or_comm (i.outputMeets j),
    ← Bool.or_assoc]

/-- A system operation and another instruction that do not depend on each other name no base in
common, unless one of them is none at all. -/
theorem not_mem_bases_of_independent (system : i.opcode.isSystem = true)
    (something : i.opcode ≠ .none) (something' : j.opcode ≠ .none)
    (independent : i.dependent j = false) (hb : b ∈ i.bases) : b ∉ j.bases := by
  intro hb'
  have meets : i.bases.meets j.bases = true := BaseSet.meets_iff.mpr ⟨b, hb, hb'⟩
  simp [dependent, system, something, something', meets] at independent

/-! ## Folds whose output keeps all axes -/

/-- The operands of a fold all have the shape of its positions. -/
structure FoldsWhole (i : Instruction) : Prop where
  reduction : i.opcode.isReduction = true
  axis : ∃ s ∈ i.sweepAxis?, ∃ input ∈ i.operands[1]?, s < input.ndim
  whole : ∀ v ∈ i.operands, v.isConstant = false → v.shape = i.shape

instance (i : Instruction) : Decidable i.FoldsWhole :=
  decidable_of_iff (_ ∧ _ ∧ _)
    ⟨fun ⟨reduction, axis, whole⟩ => ⟨reduction, axis, whole⟩, fun ⟨reduction, axis, whole⟩ =>
      ⟨reduction, axis, whole⟩⟩

namespace FoldsWhole

theorem isSweep (h : i.FoldsWhole) : i.opcode.isSweep = true := isSweep_of_isReduction h.reduction

theorem sweepsInside (h : i.FoldsWhole) : i.SweepsInside := by
  intro s axis
  obtain ⟨s', axis', inside, -⟩ := sweepAxis_of_input h.isSweep h.axis
  obtain rfl : s = s' := Option.some.inj (axis.symm.trans axis')
  exact inside

/-- Every operand is accessed inside. The output stands still along the axis of the fold. -/
theorem offset_mem_addresses (h : i.FoldsWhole) (views : i.WellFormed) (range : InRange i.shape p)
    {k : Nat} {v : View} (hv : i.operands[k]? = some v) (array : v.isConstant = false) :
    i.offset (i.turns p) k ∈ v.addresses := by
  have member := List.mem_of_getElem? hv
  have shape := h.whole v member array
  have direct := isIndirect_of_isSweep h.isSweep k
  have length : v.axes.length = i.ndim := by
    rw [Instruction.ndim, ← shape, View.length_shape, View.ndim]
  rw [mem_addresses (views v member).sizes,
    offset_eq (i.standsAt_turns p).at_p range.length_eq hv]
  by_cases output : k = 0
  · subst output
    obtain ⟨s, axis, inside, input⟩ := sweepAxis_of_input h.isSweep h.axis
    refine ⟨p.set s 0, shape ▸ range.set_zero s, ?_⟩
    rw [seenAxes_fold_kept hv array h.reduction axis inside input length, offsetAt_set]
  · refine ⟨p, shape ▸ range, ?_⟩
    rw [seenAxes_direct hv array direct (by simp [output]) shape]

theorem staysInside (h : i.FoldsWhole) (views : i.WellFormed) : i.StaysInside where
  notSystem := not_isSystem_of_isSweep h.isSweep
  views := views
  touches := by
    rintro p b x range ⟨k, v, hv, base, place⟩
    have direct := isIndirect_of_isSweep h.isSweep k
    have notScan := not_isAccumulate_of_isReduction h.reduction
    have here : x = i.offset (i.turns p) k := by simpa [direct, notScan] using place
    rw [here]
    exact ⟨k, v, hv, base, .inr (h.offset_mem_addresses views range hv (isConstant_of_base base))⟩
  writes := by
    rintro p b x range ⟨v, hv, base, place⟩
    have direct := isIndirect_of_isSweep h.isSweep 0
    have here : x = i.offset (i.turns p) 0 := by simpa [direct] using place
    rw [here]
    exact ⟨v, hv, base, .inr (h.offset_mem_addresses views range hv (isConstant_of_base base))⟩

end FoldsWhole

end Instruction

/-! ## Statements -/

namespace Statement

variable {s t : Statement} {a a' : Arena}

/-- What a statement that computes something needs of its operands: they are views that can be
built, and they have the shapes that the positions ask for, the output of a fold perhaps all axes
in full. -/
structure Shaped (s : Statement) : Prop where
  views : s.instr.WellFormed
  fit : s.instr.ShapesFit ∨ s.instr.FoldsWhole

theorem Shaped.staysInside (h : s.Shaped) (computes : s.instr.opcode.isSystem = false) :
    s.instr.StaysInside :=
  h.fit.elim (fun fit => Instruction.Sound.staysInside ⟨computes, h.views, fit⟩)
    fun whole => whole.staysInside h.views

theorem Shaped.sweepsInside (h : s.Shaped) : s.instr.SweepsInside :=
  h.fit.elim (·.sweepsInside) (·.sweepsInside)

/-- What a free drops, an independent statement does not need. -/
theorem not_mem_needs_of_independent (independent : s.instr.dependent t.instr = false) {b : BaseId}
    (dropped : b ∈ s.piece.drops) : b ∉ t.piece.needs := by
  intro needed
  obtain ⟨free, hb⟩ := mem_drops_piece.mp dropped
  obtain ⟨computes, hb'⟩ := mem_needs_piece.mp needed
  refine Instruction.not_mem_bases_of_independent ?_ ?_ ?_ independent hb hb'
  · simp [free, Opcode.isSystem]
  · simp [free]
  · intro none
    rw [none] at computes
    contradiction

/-- Independent statements commute as pieces of a run. -/
theorem commute_piece (shapedS : s.instr.opcode.isSystem = false → s.Shaped)
    (shapedT : t.instr.opcode.isSystem = false → t.Shaped)
    (independent : s.instr.dependent t.instr = false) : Commute s.piece.act t.piece.act := by
  have independent' : t.instr.dependent s.instr = false :=
    Instruction.dependent_comm s.instr t.instr ▸ independent
  refine Piece.commute s.local_piece t.local_piece
    (fun b => not_mem_needs_of_independent independent)
    (fun b => not_mem_needs_of_independent independent') ?_
  cases systemS : s.instr.opcode.isSystem with
  | true =>
      rw [piece_of_system systemS]
      exact Commute.one_left _
  | false =>
  cases systemT : t.instr.opcode.isSystem with
  | true =>
      rw [piece_of_system systemT]
      exact Commute.one_right _
  | false =>
      rw [piece_of_computes systemS, piece_of_computes systemT]
      exact commute_of_independent ((shapedS systemS).staysInside systemS)
        ((shapedT systemT).staysInside systemT) independent

/-- Two statements one after the other are the product of their pieces. -/
theorem run_execute_pair (shapedS : s.instr.opcode.isSystem = false → s.Shaped)
    (shapedT : t.instr.opcode.isSystem = false → t.Shaped)
    (existS : a.HasAll s.piece.needs) (existT : a.HasAll t.piece.needs) :
    (do s.execute; t.execute : Exec Unit).act.run a = (s.piece.act * t.piece.act).run a := by
  have inside : ∀ {s : Statement}, (s.instr.opcode.isSystem = false → s.Shaped) →
      s.instr.opcode.isSystem = false → s.Computes ∧ s.instr.SweepsInside :=
    fun shaped computes => ⟨⟨computes, (shaped computes).views⟩, (shaped computes).sweepsInside⟩
  rw [Exec.act_bind, Action.run_mul, Action.run_mul, run_execute_of_inside (inside shapedS) existS]
  cases reached : s.piece.act.run a with
  | none => rfl
  | some a₁ =>
      exact run_execute_of_inside (inside shapedT) (Piece.keeps_exists s.local_piece reached existT)

/-- Independent statements change places. Whether two statements depend on each other does not
depend on their order. If they do not and running one and then the other succeeds, on any arena that
has their bases, running them the other way round succeeds and leaves the same arena. -/
theorem execute_comm (s t : Statement) :
    s.instr.dependent t.instr = t.instr.dependent s.instr ∧
    ((s.instr.opcode.isSystem = false → s.Shaped) → (t.instr.opcode.isSystem = false → t.Shaped) →
      s.instr.dependent t.instr = false → ∀ a a' : Arena,
      (∀ b, b ∈ s.instr.bases ∨ b ∈ t.instr.bases → (a.get? b).isSome = true) →
      (do s.execute; t.execute : Exec Unit) a = (.ok (), a') →
      (do t.execute; s.execute : Exec Unit) a = (.ok (), a')) := by
  refine ⟨Instruction.dependent_comm s.instr t.instr, ?_⟩
  intro shapedS shapedT independent a a' exist executed
  have existS : a.HasAll s.piece.needs := fun b hb => exist b (.inl (mem_needs_piece.mp hb).2)
  have existT : a.HasAll t.piece.needs := fun b hb => exist b (.inr (mem_needs_piece.mp hb).2)
  apply Exec.eq_of_run_act
  calc (do t.execute; s.execute : Exec Unit).act.run a
      = (t.piece.act * s.piece.act).run a := run_execute_pair shapedT shapedS existT existS
    _ = (s.piece.act * t.piece.act).run a := by
        rw [(commute_piece shapedS shapedT independent).eq]
    _ = (do s.execute; t.execute : Exec Unit).act.run a :=
        (run_execute_pair shapedS shapedT existS existT).symm
    _ = some a' := Exec.run_act_of_ok executed

/-- Rows of a square are added into even elements of an array, at the first index of each row, and
a line is copied into its odd elements. -/
theorem execute_comm_interleaved :
    let input : View := { base := some 0, dtype := .int64, axes := View.rowMajor [2, 2] }
    let even : View := { base := some 1, dtype := .int64, axes := [⟨2, 4⟩, ⟨2, 2⟩] }
    let odd : View := { base := some 1, dtype := .int64, start := 1, axes := [⟨4, 2⟩] }
    let s : Statement := .fresh (.sweep (.reduce .add) even input 1)
    let t : Statement :=
      .fresh { opcode := .unary .identity, operands := [odd, .whole 0 .int64 4] }
    let a : Arena := .ofList [⟨.int64, 4, some (.zeros .int64 4)⟩, ⟨.int64, 8, none⟩]
    ∃ a', (do s.execute; t.execute : Exec Unit) a = (.ok (), a') ∧
      (do t.execute; s.execute : Exec Unit) a = (.ok (), a') := by
  intro input even odd s t a
  have shapedS : s.Shaped := ⟨by decide, .inr (by decide)⟩
  have shapedT : t.Shaped := ⟨by decide, .inl (by decide)⟩
  have exist : ∀ b ∈ s.instr.bases ++ t.instr.bases, (a.get? b).isSome = true := by decide
  have succeeded : ((do s.execute; t.execute : Exec Unit) a).1 = .ok () :=
    ok_of_toOption (by decide +kernel)
  obtain ⟨a', executed⟩ := Exec.exists_of_ok succeeded
  exact ⟨a', executed, (execute_comm s t).2 (fun _ => shapedS) (fun _ => shapedT) (by decide) a a'
    (fun b hb => exist b (List.mem_append.mpr hb)) executed⟩

end Statement

end ArrayFusion
