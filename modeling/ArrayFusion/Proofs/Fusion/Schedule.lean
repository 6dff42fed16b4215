import ArrayFusion.Proofs.Fusion.Steps

/-!
# Loops as a schedule of a program

Fusion carries out every statement that computes something exactly once, as it is or reshaped, and
two statements whose order matters keep their order. It frees the bases that the program frees, each
after the last loop that mentions it unless the program mentions it again. All of this holds of the
loops of single statements and is kept by every step.
-/

namespace ArrayFusion.Fusion

theorem independent_of_dependOn {a b : Nest} (h : a.dependOn b = false) :
    (∀ s ∈ a.statements, ∀ t ∈ b.statements, s.instr.dependent t.instr = false) ∧
      (∀ c, c ∈ a.allFrees → c ∉ b.allBases) ∧ ∀ c, c ∈ b.allFrees → c ∉ a.allBases := by
  rw [Nest.dependOn, Bool.or_eq_false_iff, Bool.or_eq_false_iff] at h
  obtain ⟨⟨statements, freesA⟩, freesB⟩ := h
  have apart : ∀ {xs ys : BaseSet}, xs.meets ys = false → ∀ c, c ∈ xs → c ∉ ys := by
    intro xs ys h c hx hy
    have := BaseSet.meets_iff.mpr ⟨c, hx, hy⟩
    rw [h] at this
    contradiction
  refine ⟨?_, apart freesA, apart freesB⟩
  simpa [Nest.instrs] using statements

/-! ## Frees -/

theorem Step.frees {ls ls' : List Nest} (h : Step ls ls') (laidOut : LaidOut ls) (c : BaseId) :
    (∃ l ∈ ls', c ∈ l.allFrees) ↔ ∃ l ∈ ls, c ∈ l.allFrees := by
  cases h with
  | merge before after test merged =>
      have joined := Nest.joined_of_merge (laidOut _ (by simp)) (laidOut _ (by simp)) test merged
      simp only [List.mem_append, List.mem_cons, or_and_right, exists_or, exists_eq_left,
        joined.mem_allFrees_iff, or_assoc]
  | swap before after independent =>
      simp only [List.mem_append, List.mem_cons, or_and_right, exists_or, exists_eq_left]
      exact or_congr_right or_left_comm

theorem Step.lastFrees {ls ls' : List Nest} {c : BaseId} (h : Step ls ls') (laidOut : LaidOut ls)
    (freed : LastFrees c ls) : LastFrees c ls' := by
  cases h with
  | @merge before after a b l separate n m test merged =>
      have layoutA := laidOut a (by simp)
      have layoutB := laidOut b (by simp)
      have joined := Nest.joined_of_merge layoutA layoutB test merged
      have bases := joined.mem_allBases_iff layoutA layoutB c
      refine freed.replace before ?_ ?_
      · simp only [lastFrees_cons, List.forall_mem_cons, joined.mem_allFrees_iff]
        tauto
      · simp only [List.forall_mem_cons, bases, not_or, and_assoc]
        exact id
  | @swap before after a b independent =>
      obtain ⟨-, -, apart⟩ := independent_of_dependOn independent
      have freesB := apart c
      refine freed.replace before ?_ ?_
      · simp only [lastFrees_cons, List.forall_mem_cons]
        tauto
      · simp only [List.forall_mem_cons]
        tauto

theorem Step.freedLast {ls ls' : List Nest} {c : BaseId} (h : Step ls ls') (laidOut : LaidOut ls)
    (freed : FreedLast c ls) : FreedLast c ls' := by
  cases h with
  | @merge before after a b l separate n m test merged =>
      have layoutA := laidOut a (by simp)
      have layoutB := laidOut b (by simp)
      have joined := Nest.joined_of_merge layoutA layoutB test merged
      simp only [FreedLast, List.pairwise_append, List.pairwise_cons, List.forall_mem_cons,
        joined.mem_allFrees_iff, joined.accesses_iff layoutA layoutB] at freed ⊢
      grind
  | @swap before after a b independent =>
      obtain ⟨-, -, apart⟩ := independent_of_dependOn independent
      have freesB : c ∈ b.allFrees → ¬ a.Accesses c := fun frees accesses =>
        apart c frees (Nest.mem_allBases_iff.mpr (.inr accesses))
      simp only [FreedLast, List.pairwise_append, List.pairwise_cons, List.forall_mem_cons]
        at freed ⊢
      grind

/-! ## Order -/

theorem forall₂_append {α β : Type} {R : α → β → Prop} {xs : List α} {ys ys' : List β}
    (h : List.Forall₂ R xs (ys ++ ys')) :
    ∃ zs zs', xs = zs ++ zs' ∧ List.Forall₂ R zs ys ∧ List.Forall₂ R zs' ys' :=
  ⟨xs.take ys.length, xs.drop ys.length, (List.take_append_drop ..).symm,
    List.forall₂_take_append _ _ _ h, List.forall₂_drop_append _ _ _ h⟩

/-- Statements of a program that compute something, with their places. -/
def computing (ss : List Statement) : List (Statement × Nat) :=
  ss.zipIdx.filter fun x => !x.1.instr.opcode.isSystem

/-- The statements of a program stand in the order of their places. -/
theorem computing_sorted (ss : List Statement) : (computing ss).Pairwise fun x y => x.2 < y.2 := by
  refine List.Pairwise.filter _ (List.pairwise_iff_getElem.mpr fun i j hi hj less => ?_)
  simpa using less

theorem map_fst_computing (ss : List Statement) :
    (computing ss).map (·.1) = ss.filter (!·.instr.opcode.isSystem) := by
  have firsts : ss.zipIdx.map (·.1) = ss := by simp
  rw [computing]
  conv_rhs => rw [← firsts, List.filter_map]
  rfl

/-- One statement may be carried out before another one: it also comes first in the program, or
their order does not matter. -/
def MayPrecede (x y : Statement × Nat) : Prop :=
  y.2 < x.2 → y.1.instr.dependent x.1.instr = false

/-- Loops carry out the statements of a program in an order in which two statements only stand the
other way round if that does not matter. -/
structure Schedule (ss : List Statement) (order : List (Statement × Nat)) (ls : List Nest) :
    Prop where
  complete : order.Perm (computing ss)
  legal : order.Pairwise MayPrecede
  carriedOut : List.Forall₂ (fun x t => x.1.Computes ∧ x.1.ReshapesTo t) order
    (ls.flatMap Nest.statements)

/-- The loops of single statements carry them out as they stand in the program. -/
theorem Prepared.schedule {ss : List Statement} {ls : List Nest} (h : Prepared ss ls)
    (views : ∀ s ∈ ss, s.instr.WellFormed) : Schedule ss (computing ss) ls := by
  obtain ⟨-, statements, -⟩ := h.keeps views
  refine ⟨.refl _, ?_, ?_⟩
  · exact (computing_sorted ss).imp fun less more => absurd less (Nat.lt_asymm more)
  · have same : (computing ss).map (·.1) = ls.flatMap Nest.statements := by
      rw [map_fst_computing, statements]
    rw [← same, List.forall₂_map_right_iff, List.forall₂_same]
    intro x hx
    obtain ⟨inside, computes⟩ := List.mem_filter.mp hx
    have member : x.1 ∈ ss := by
      have := List.mem_map_of_mem (f := Prod.fst) inside
      simpa using this
    exact ⟨⟨by simpa using computes, views _ member⟩, .refl _⟩

theorem Step.schedule {ss : List Statement} {ls ls' : List Nest} {order : List (Statement × Nat)}
    (h : Step ls ls') (laidOut : LaidOut ls) (schedule : Schedule ss order ls) :
    ∃ order', Schedule ss order' ls' := by
  obtain ⟨complete, legal, carriedOut⟩ := schedule
  cases h with
  | @merge before after a b l separate n m test merged =>
      have layoutA := laidOut a (by simp)
      have layoutB := laidOut b (by simp)
      have keeps := (Nest.joined_of_merge layoutA layoutB test merged).keeps layoutA layoutB
      refine ⟨order, complete, legal, ?_⟩
      simp only [List.flatMap_append, List.flatMap_cons] at carriedOut ⊢
      rw [← List.append_assoc a.statements] at carriedOut
      obtain ⟨first, others, rfl, hfirst, hothers⟩ := forall₂_append carriedOut
      obtain ⟨joined, last, rfl, hjoined, hlast⟩ := forall₂_append hothers
      refine List.rel_append hfirst (List.rel_append ?_ hlast)
      refine List.forall₂_iff_get.mpr ⟨hjoined.length_eq.trans keeps.length_eq, fun i hi hi' => ?_⟩
      have middle : i < (a.statements ++ b.statements).length := hjoined.length_eq ▸ hi
      obtain ⟨computes, reshapes⟩ := hjoined.get hi middle
      exact ⟨computes, reshapes.trans computes.views (keeps.get middle hi').2⟩
  | @swap before after a b independent =>
      simp only [List.flatMap_append, List.flatMap_cons] at carriedOut ⊢
      obtain ⟨first, others, rfl, hfirst, hothers⟩ := forall₂_append carriedOut
      obtain ⟨ofA, others, rfl, hA, hothers⟩ := forall₂_append hothers
      obtain ⟨ofB, last, rfl, hB, hlast⟩ := forall₂_append hothers
      refine ⟨first ++ (ofB ++ (ofA ++ last)), ?_, ?_, ?_⟩
      · refine .trans (.append_left first ?_) complete
        rw [← List.append_assoc, ← List.append_assoc]
        exact List.perm_append_comm.append_right last
      · have apart : ∀ x ∈ ofB, ∀ y ∈ ofA, MayPrecede x y := by
          intro x hx y hy _
          obtain ⟨t, ht, computesX, reshapesX⟩ := exists_of_forall₂ hB.flip hx
          obtain ⟨u, hu, computesY, reshapesY⟩ := exists_of_forall₂ hA.flip hy
          have same := (reshapesY.instr.similar computesY.views).indistinct.dependent
            (reshapesX.instr.similar computesX.views).indistinct
          rw [← same]
          exact (independent_of_dependOn independent).1 u hu t ht
        simp only [List.pairwise_append, List.mem_append] at legal ⊢
        grind
      · simp only [List.flatMap_append, List.flatMap_cons]
        exact List.rel_append hfirst (List.rel_append hB (List.rel_append hA hlast))

/-! ## The whole of fusion -/

/-- What every list of loops that fusion passes through has in common with the program. -/
structure Faithful (ss : List Statement) (ls : List Nest) : Prop where
  laidOut : LaidOut ls
  schedule : ∃ order, Schedule ss order ls
  frees : ∀ b, (∃ l ∈ ls, b ∈ l.allFrees) ↔
    ∃ s ∈ ss, s.instr.opcode = .free ∧ b ∈ s.instr.bases
  lastFrees : ∀ b, EndsInFree b ss → LastFrees b ls
  freedLast : ∀ b, UnusedAfterFree b ss → FreedLast b ls

/-- The statements of the loops are those of the program, up to their shapes. -/
theorem Faithful.source {ss : List Statement} {ls : List Nest} (h : Faithful ss ls) {l : Nest}
    (hl : l ∈ ls) {t : Statement} (ht : t ∈ l.statements) :
    ∃ s ∈ ss, s.Computes ∧ s.ReshapesTo t := by
  obtain ⟨order, complete, -, carriedOut⟩ := h.schedule
  obtain ⟨x, hx, source⟩ := exists_of_forall₂ carriedOut (List.mem_flatMap.mpr ⟨l, hl, ht⟩)
  have member : x ∈ ss.zipIdx := (List.mem_filter.mp (complete.subset hx)).1
  exact ⟨x.1, List.mem_of_getElem? (List.mem_zipIdx_iff_getElem?.mp member), source⟩

theorem faithful_singletons {ss : List Statement} (views : ∀ s ∈ ss, s.instr.WellFormed) (n : Nat) :
    Faithful ss (singletons ss n).1 := by
  have prepared := prepared_singletons ss n
  obtain ⟨laidOut, -, frees⟩ := prepared.keeps views
  exact ⟨laidOut, ⟨_, prepared.schedule views⟩, frees, fun b => prepared.lastFrees views,
    fun b => prepared.freedLast views⟩

theorem Step.faithful {ss : List Statement} {ls ls' : List Nest} (h : Step ls ls')
    (faithful : Faithful ss ls) : Faithful ss ls' := by
  obtain ⟨laidOut, ⟨order, schedule⟩, frees, lastFrees, freedLast⟩ := faithful
  exact ⟨h.laidOut laidOut, h.schedule laidOut schedule,
    fun b => (h.frees laidOut b).trans (frees b),
    fun b ends => h.lastFrees laidOut (lastFrees b ends),
    fun b unused => h.freedLast laidOut (freedLast b unused)⟩

theorem Reaches.faithful {ss : List Statement} {ls ls' : List Nest} (h : Reaches ls ls')
    (faithful : Faithful ss ls) : Faithful ss ls' := by
  induction h with
  | refl => exact faithful
  | tail _ step ih => exact step.faithful ih

/-- Fusion ends with loops that are faithful to the program, or in front of a failing test in such
loops. -/
theorem fuse_faithful (separate : Bool) {ss : List Statement}
    (views : ∀ s ∈ ss, s.instr.WellFormed) (n : Nat) :
    (∃ ls m, fuse separate ss n = .ok (ls, m) ∧ Faithful ss ls) ∨
      (fuse separate ss n = .error .missingPart ∧ ∃ ls, Faithful ss ls ∧ Stuck separate ls) := by
  have start := faithful_singletons views n
  have outcome := fuse_outcome separate start.laidOut
  generalize fuse separate ss n = r at outcome
  cases outcome with
  | done reached => exact .inl ⟨_, _, rfl, reached.faithful start⟩
  | stuck reached stuck => exact .inr ⟨rfl, _, reached.faithful start, stuck⟩

theorem faithful_of_fuse {separate : Bool} {ss : List Statement}
    (views : ∀ s ∈ ss, s.instr.WellFormed) {n m : Nat} {ls : List Nest}
    (fused : fuse separate ss n = .ok (ls, m)) : Faithful ss ls := by
  rcases fuse_faithful separate views n with ⟨ls', m', found, faithful⟩ | ⟨found, -⟩
  · cases fused.symm.trans found
    exact faithful
  · cases fused.symm.trans found

end ArrayFusion.Fusion
