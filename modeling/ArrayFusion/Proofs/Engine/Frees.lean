import ArrayFusion.Proofs.Engine.Segment

/-!
# Which bases are allocated after a run

Kernels allocate what they mention and free bases when they end. So a base that was mentioned is
left without data exactly if the last kernel that mentions it frees it. The place of a free in the
program is not all that decides this: a kernel that a free was merged into also frees a base that a
statement behind the free writes again.
-/

namespace ArrayFusion

open ArrayFusion.Action

namespace Fusion

namespace Faithful

variable {ss : List Statement} {ls : List Nest} {b : BaseId}

/-- The statements of the loops are those of the program, up to their shapes. -/
theorem statement (h : Faithful ss ls) {l : Nest} (hl : l ∈ ls) {t : Statement}
    (ht : t ∈ l.statements) :
    ∃ s ∈ ss, s.instr.opcode.isSystem = false ∧ Instruction.Similar s.instr t.instr := by
  obtain ⟨s, hs, computes, reshapes⟩ := h.source hl ht
  exact ⟨s, hs, computes.notSystem, reshapes.instr.similar computes.views⟩

/-- Every statement that computes something is carried out in some loop. -/
theorem carriedOut (h : Faithful ss ls) {s : Statement} (hs : s ∈ ss)
    (computes : s.instr.opcode.isSystem = false) :
    ∃ l ∈ ls, ∃ t ∈ l.statements, Instruction.Similar s.instr t.instr := by
  obtain ⟨order, complete, -, carriedOut⟩ := h.schedule
  obtain ⟨k, hk⟩ := List.getElem?_of_mem hs
  have member : (s, k) ∈ order := complete.symm.subset
    (List.mem_filter.mpr ⟨List.mem_zipIdx_iff_getElem?.mpr hk, by simpa using computes⟩)
  obtain ⟨t, ht, computes', reshapes⟩ := exists_of_forall₂ carriedOut.flip member
  obtain ⟨l, hl, ht⟩ := List.mem_flatMap.mp ht
  exact ⟨l, hl, t, ht, reshapes.instr.similar computes'.views⟩

/-- The loops mention the bases that the program uses. -/
theorem mentioned_iff (h : Faithful ss ls) :
    (∃ l ∈ ls, b ∈ l.allBases) ↔ ∃ s ∈ ss, Uses b s := by
  constructor
  · rintro ⟨l, hl, hb⟩
    rcases Nest.mem_allBases_iff.mp hb with freed | ⟨t, ht, mentioned⟩
    · obtain ⟨s, hs, free⟩ := (h.frees b).mp ⟨l, hl, freed⟩
      exact ⟨s, hs, .inl free⟩
    · obtain ⟨s, hs, computes, similar⟩ := h.statement hl ht
      exact ⟨s, hs, .inr ⟨computes, similar.indistinct.mentions b ▸ mentioned⟩⟩
  · rintro ⟨s, hs, free | ⟨computes, mentioned⟩⟩
    · obtain ⟨l, hl, freed⟩ := (h.frees b).mpr ⟨s, hs, free⟩
      exact ⟨l, hl, Nest.mem_allBases_iff.mpr (.inl freed)⟩
    · obtain ⟨l, hl, t, ht, similar⟩ := h.carriedOut hs computes
      exact ⟨l, hl, Nest.mem_allBases_iff.mpr (.inr ⟨t, ht, (similar.indistinct.mentions b).trans mentioned⟩)⟩

theorem direct (h : Faithful ss ls)
    (noIndex : ∀ s ∈ ss, ∀ v ∈ s.instr.operands, v.usesIndexArrays = false) :
    ∀ l ∈ ls, l.Direct := by
  intro l hl t ht
  obtain ⟨s, hs, -, similar⟩ := h.statement hl ht
  rw [similar.indistinct.indexBases, Instruction.indexBases]
  have none : s.instr.operands.flatMap (·.indexBases) = [] := by
    rw [List.flatMap_eq_nil_iff]
    intro v hv
    have := noIndex s hs v hv
    simp only [View.usesIndexArrays, Bool.or_eq_false_iff, Option.isSome_eq_false_iff,
      Option.isNone_iff_eq_none] at this
    simp [View.indexBases, this]
  rw [none]
  rfl

/-- If all bases that the program uses exist, so do those that the loops mention. -/
theorem hasAll (h : Faithful ss ls) {a : Arena}
    (exist : ∀ s ∈ ss, ∀ b, Uses b s → (a.get? b).isSome = true) :
    ∀ l ∈ ls, a.HasAll l.allBases := by
  intro l hl b hb
  obtain ⟨s, hs, uses⟩ := h.mentioned_iff.mp ⟨l, hl, hb⟩
  exact exist s hs b uses

/-- If the program does not use a base after freeing it, the place of the free decides. -/
theorem lastFrees_iff (h : Faithful ss ls) (unused : UnusedAfterFree b ss) :
    LastFrees b ls ↔ EndsInFree b ss := by
  refine ⟨fun ⟨before, l, after, split, freed, _⟩ => ?_, h.lastFrees b⟩
  exact endsInFree_of_unusedAfterFree unused ((h.frees b).mp ⟨l, by simp [split], freed⟩)

end Faithful

end Fusion

namespace Engine

open Fusion

theorem not_lastFrees {ls : List Nest} {b : BaseId} (unmentioned : ∀ l ∈ ls, b ∉ l.allBases) :
    ¬ LastFrees b ls := by
  rintro ⟨before, l, after, rfl, freed, -⟩
  exact unmentioned l (by simp) (Nest.mem_allBases_iff.mpr (.inl freed))

/-- What is allocated after kernels that ran one after the other. A base that they mention is left
without data exactly if the last of them that mentions it frees it. -/
theorem allocation_actNests {ls : List Nest} (layouts : LaidOut ls) (direct : ∀ l ∈ ls, l.Direct)
    {a a' : Arena} (ran : (actNests ls).run a = some a') {b : BaseId} {base : Base}
    (found : a.get? b = some base) : ∃ base', a'.get? b = some base' ∧
      ((∃ l ∈ ls, b ∈ l.allBases) → (base'.isAllocated = false ↔ LastFrees b ls)) ∧
      ((∀ l ∈ ls, b ∉ l.allBases) → base'.isAllocated = base.isAllocated) := by
  induction ls generalizing a base with
  | nil =>
      cases ran
      exact ⟨base, found, by simp, fun _ => rfl⟩
  | cons l ls ih =>
      rw [actNests, List.map_cons, List.prod_cons, ← actNests, run_mul, Option.bind_eq_some_iff]
        at ran
      obtain ⟨after, first, rest⟩ := ran
      have layout := layouts l (by simp)
      have allocation := Piece.allocation (Nest.local_piece layout) first b
      rw [found, Option.map_some, Option.map_eq_some_iff] at allocation
      obtain ⟨base₁, found₁, allocated₁⟩ := allocation
      obtain ⟨base', found', mentioned, unmentioned⟩ :=
        ih (fun m hm => layouts m (by simp [hm])) (fun m hm => direct m (by simp [hm])) rest found₁
      have here : b ∈ l.allBases ↔ b ∈ l.piece.drops ∨ b ∈ l.piece.needs := by
        rw [Nest.mem_allBases_iff, Nest.accesses_iff, Nest.fullPiece_of_direct (direct l (by simp))]
        rfl
      refine ⟨base', found', ?_⟩
      by_cases later : ∃ m ∈ ls, b ∈ m.allBases
      · refine ⟨fun _ => ?_, fun none => ?_⟩
        · rw [mentioned later, lastFrees_cons]
          refine (or_iff_left fun last => ?_).symm
          obtain ⟨m, hm, hb⟩ := later
          exact last.2 m hm hb
        · obtain ⟨m, hm, hb⟩ := later
          exact absurd hb (none m (by simp [hm]))
      · have last : ∀ m ∈ ls, b ∉ m.allBases := fun m hm hb => later ⟨m, hm, hb⟩
        rw [unmentioned last, allocated₁]
        refine ⟨fun some => ?_, fun none => ?_⟩
        · obtain ⟨m, hm, hb⟩ := some
          rcases List.mem_cons.mp hm with rfl | hm
          · rw [lastFrees_cons, or_iff_right (not_lastFrees last), and_iff_left last]
            rw [here] at hb
            by_cases freed : b ∈ m.piece.drops
            · simp only [freed, decide_true, Bool.not_true, Bool.false_and, true_iff]
              exact freed
            · have needed := hb.resolve_left freed
              simp only [freed, needed, decide_true, decide_false, Bool.not_false, Bool.true_or,
                Bool.true_and, Bool.true_eq_false, false_iff]
              exact freed
          · exact absurd hb (last m hm)
        · have unmentioned := none l (by simp)
          rw [here, not_or] at unmentioned
          simp [unmentioned.1, unmentioned.2]

/-- Which bases are allocated after a program has run. A base that the program uses is left without
data exactly if the last kernel that mentions it frees it. That is so whenever the last statement
that uses the base is a free. The converse holds if the program computes nothing with the base after
freeing it; otherwise the free may have been merged into a kernel that ends after a later write. -/
theorem run_allocation {settings : Settings} {target : Target} {ss : List Statement}
    (plain : ∀ s ∈ ss, s.instr.opcode.isExtension = false)
    (views : ∀ s ∈ ss, s.instr.WellFormed)
    (noIndex : ∀ s ∈ ss, ∀ v ∈ s.instr.operands, v.usesIndexArrays = false)
    {before after : Session Unit}
    (exist : ∀ s ∈ ss, ∀ b, Uses b s → (before.arena.get? b).isSome = true)
    (ran : (new settings (Backend.interpreter target)).run { body := ss } before =
      (.ok (), after)) :
    ∃ ls m, fuse settings.separate ss 0 = .ok (ls, m) ∧ ∀ b, (∃ s ∈ ss, Uses b s) →
      (after.arena.buffer? b = none ↔ LastFrees b ls) ∧
      (EndsInFree b ss → after.arena.buffer? b = none) ∧
      (UnusedAfterFree b ss → (after.arena.buffer? b = none ↔ EndsInFree b ss)) := by
  rcases fuse_faithful settings.separate views 0 with
    ⟨ls, m, fused, faithful⟩ | ⟨stuck, -⟩
  swap
  · obtain ⟨f, failed⟩ := ends_run_of_stuck (e := new settings (Backend.interpreter target)) plain
      noIndex stuck before
    rw [ran] at failed
    contradiction
  have direct := faithful.direct noIndex
  have ends := ends_run (e := new settings (Backend.interpreter target)) rfl plain noIndex fused
    faithful.laidOut direct (faithful.hasAll exist)
  rw [ran] at ends
  obtain ⟨a', acted⟩ : ∃ a', (actNests ls).run before.arena = some a' := by
    cases acted : (actNests ls).run before.arena with
    | none =>
        rw [acted] at ends
        obtain ⟨f, failed⟩ := ends
        contradiction
    | some a' => exact ⟨a', rfl⟩
  rw [acted] at ends
  obtain ⟨-, rfl⟩ := ends
  refine ⟨ls, m, fused, fun b used => ?_⟩
  have status : after.arena.buffer? b = none ↔ LastFrees b ls := by
    obtain ⟨s, hs, uses⟩ := used
    obtain ⟨base, found⟩ := Option.isSome_iff_exists.mp (exist s hs b uses)
    obtain ⟨base', found', mentioned, -⟩ :=
      allocation_actNests faithful.laidOut direct acted found
    rw [← mentioned (faithful.mentioned_iff.mpr ⟨s, hs, uses⟩), Arena.buffer?, found',
      Option.bind_some, Base.isAllocated, Option.isSome_eq_false_iff, Option.isNone_iff_eq_none]
  refine ⟨status, fun ends => status.mpr (faithful.lastFrees b ends), fun unused => ?_⟩
  rw [status, faithful.lastFrees_iff unused]

/-- A copied array is freed, and the copy is copied. -/
theorem run_allocation_copies :
    let copy (out input : BaseId) : Instruction :=
      { opcode := .unary .identity, operands := [.whole out .int64 4, .whole input .int64 4] }
    let ss := Statement.number
      [copy 1 0, { opcode := .free, operands := [.whole 0 .int64 4] }, copy 2 1] 0
    let before : Session Unit :=
      { arena := .ofList [⟨.int64, 4, some (.zeros .int64 4)⟩, ⟨.int64, 4, none⟩, ⟨.int64, 4, none⟩]
        backend := () }
    ∃ after, (new {} (Backend.interpreter .openmp)).run { body := ss } before = (.ok (), after) ∧
      after.arena.buffer? 0 = none := by
  intro copy ss before
  have exist : ∀ s ∈ ss, ∀ b ∈ s.instr.bases ++ s.instr.indexBases,
      (before.arena.get? b).isSome = true := by decide
  obtain ⟨after, ran⟩ : ∃ after,
      (new {} (Backend.interpreter .openmp)).run { body := ss } before = (.ok (), after) :=
    Run.exists_of_succeeds (ok_of_toOption (by decide +kernel))
  obtain ⟨ls, m, -, allocation⟩ := run_allocation (by decide) (by decide) (by decide)
    (fun s hs b uses => exist s hs b (mem_bases_of_uses uses)) ran
  have used : ∃ s ∈ ss, Uses 0 s := ⟨_, List.mem_cons_self, .inr (by decide)⟩
  have unused : UnusedAfterFree 0 ss := by decide
  have last : EndsInFree 0 ss := endsInFree_of_unusedAfterFree unused (by decide)
  exact ⟨after, ran, (allocation 0 used).2.1 last⟩

example :
    let copy : Instruction :=
      { opcode := .unary .identity, operands := [.whole 1 .int64 2, .whole 0 .int64 2] }
    let ss := Statement.number [copy, { opcode := .free, operands := [.whole 1 .int64 2] }, copy] 0
    let before : Session Unit :=
      { arena := .ofList [⟨.int64, 2, some (.zeros .int64 2)⟩, ⟨.int64, 2, none⟩], backend := () }
    let after := ((new {} (Backend.interpreter .openmp)).run { body := ss } before).2
    (after.arena.buffer? 1).isNone = true := by decide +kernel

end Engine

end ArrayFusion
