import ArrayFusion.Proofs.Engine.Stepwise

/-!
# Resolving once per stretch

An engine resolves the statements of a stretch together, before any of them runs. This is as good as
resolving every statement right before it runs, because no statement of a stretch writes an index
array that a later one reads. The frees that were moved into a stretch are no exception only if
their own index arrays are not written at all.
-/

namespace ArrayFusion

open ArrayFusion.Action

namespace Statement

/-- Resolves a statement with what its index arrays hold now, and runs it. -/
def executeNow (s : Statement) : Exec Unit := do
  match s.resolve (← get) with
  | .ok t => t.execute
  | .error e => throw e

/-- The operands fit together, and a computation writes no element twice. -/
structure Fits (s : Statement) : Prop where
  views : s.instr.WellFormed
  shapes : s.instr.opcode.isSystem = false → s.instr.ShapesFit
  once : s.instr.opcode.isSystem = false → s.instr.WritesOnce

instance (s : Statement) : Decidable s.Fits :=
  decidable_of_iff (s.instr.WellFormed ∧ (s.instr.opcode.isSystem = false → s.instr.ShapesFit) ∧
    (s.instr.opcode.isSystem = false → s.instr.WritesOnce))
    ⟨fun h => ⟨h.1, h.2.1, h.2.2⟩, fun h => ⟨h.views, h.shapes, h.once⟩⟩

theorem Fits.runs {s : Statement} (h : s.Fits) (computes : s.instr.opcode.isSystem = false) :
    s.Runs :=
  ⟨⟨computes, h.views, h.shapes computes⟩, h.once computes⟩

/-- Every statement fits once it is resolved, when the statements run one by one. -/
def FitAlong : Arena → List Statement → Prop
  | _, [] => True
  | a, s :: ss => (∀ t ∈ (s.resolve a).toOption, t.Fits) ∧ FitAlong (s.executeNow a).2 ss

instance decidableFitAlong : (a : Arena) → (ss : List Statement) → Decidable (FitAlong a ss)
  | _, [] => isTrue trivial
  | a, s :: ss =>
    have := decidableFitAlong (s.executeNow a).2 ss
    inferInstanceAs (Decidable (_ ∧ _))

/-- Every index array holds data in the arena, or a statement in front of its use writes it. -/
def Readable (a : Arena) (ss : List Statement) : Prop :=
  ∀ x ∈ ss.zipIdx, ∀ c ∈ x.1.instr.indexBases,
    (a.buffer? c).isSome = true ∨ ∃ w ∈ ss.take x.2, w.Outputs c

instance (a : Arena) (ss : List Statement) : Decidable (Readable a ss) :=
  inferInstanceAs (Decidable (∀ x ∈ ss.zipIdx, ∀ c ∈ x.1.instr.indexBases, _))

variable {a a' : Arena} {s : Statement} {ss ts : List Statement}

theorem readable_iff : Readable a ss ↔ ∀ before s after, ss = before ++ s :: after →
    ∀ c ∈ s.instr.indexBases, (a.buffer? c).isSome = true ∨ ∃ w ∈ before, w.Outputs c := by
  constructor
  · rintro h before s after rfl c hc
    have member : (s, before.length) ∈ (before ++ s :: after).zipIdx := by
      simp [List.mem_zipIdx_iff_getElem?]
    simpa using h _ member c hc
  · intro h x hx c hc
    rw [List.mem_zipIdx_iff_getElem?] at hx
    obtain ⟨inside, here⟩ := List.getElem?_eq_some_iff.mp hx
    refine h _ x.1 (ss.drop (x.2 + 1)) ?_ c hc
    rw [← here, ← List.drop_eq_getElem_cons, List.take_append_drop]

theorem executeNow_eq (s : Statement) (a : Arena) : s.executeNow a = match s.resolve a with
    | .ok t => t.execute a
    | .error e => (.error e, a) := by
  rw [executeNow, Exec.run_bind, Exec.run_get]
  dsimp only
  cases s.resolve a <;> rfl

/-- A run that succeeds goes on step by step. -/
theorem stepwise_of_executed (fits : FitAlong a ss)
    (exist : ∀ s ∈ ss, ∀ b, Fusion.Uses b s → (a.get? b).isSome = true)
    (executed : ((ss.forM executeNow) a).1 = .ok ()) :
    ∃ ts, Stepwise a ss ts ((ss.forM executeNow) a).2 ∧ ∀ t ∈ ts, t.Fits := by
  induction ss generalizing a with
  | nil => exact ⟨[], .nil a, by simp⟩
  | cons s ss ih =>
    have unfolded : (s :: ss).forM executeNow = s.executeNow >>= fun _ => ss.forM executeNow := rfl
    obtain ⟨here, later⟩ := fits
    rw [unfolded, Exec.run_bind] at executed ⊢
    rcases ran : s.executeNow a with ⟨_ | _, a₁⟩
    · rw [ran] at executed
      contradiction
    rw [ran] at executed later
    rw [executeNow_eq] at ran
    cases resolved : s.resolve a with
    | error e =>
      rw [resolved] at ran
      cases ran
    | ok t =>
      rw [resolved] at ran here
      have fitsT : t.Fits := here t rfl
      have renumbered := renumbered_of_resolve resolved
      have existHere : a.HasAll t.piece.needs := by
        intro b needed
        obtain ⟨computes, named⟩ := mem_needs_piece.mp needed
        rw [renumbered.opcode] at computes
        rw [renumbered.bases] at named
        have mentioned := Instruction.mentions_iff.mpr (.inl named)
        exact exist s List.mem_cons_self b (.inr ⟨computes, mentioned⟩)
      have step : t.piece.act.run a = some a₁ := by
        rw [← run_execute fitsT.runs existHere]
        exact Exec.run_act_of_ok ran
      obtain ⟨ts, rest, fitRest⟩ := ih later
        (fun u hu b uses => exists_of_step step (exist u (List.mem_cons_of_mem s hu) b uses))
        executed
      exact ⟨t :: ts, .cons resolved step rest, List.forall_mem_cons.mpr ⟨fitsT, fitRest⟩⟩

/-! ## Index arrays along the stretches -/

/-- What one of the statements writes is allocated behind them, unless they free it. -/
theorem allocated_of_stepwise {c : BaseId} (h : Stepwise a ss ts a')
    (unfreed : ∀ s ∈ ss, ¬ s.Frees c) (known : (a.buffer? c).isSome = true ∨
      (∃ w ∈ ss, w.Outputs c) ∧ (a.get? c).isSome = true) : (a'.buffer? c).isSome = true := by
  induction h with
  | nil => simpa using known
  | @cons a a₁ a' s t ss ts resolved step later ih =>
    have renumbered := renumbered_of_resolve resolved
    have ⟨here, others⟩ := List.forall_mem_cons.mp unfreed
    have after (known : (a.buffer? c).isSome = true ∨ s.Outputs c ∧ (a.get? c).isSome = true) :
        (a₁.buffer? c).isSome = true := by
      rw [← Outputs.renumbered renumbered] at known
      exact allocated_of_step step (by rwa [Frees.renumbered renumbered]) known
    refine ih others ?_
    rcases known with allocated | ⟨⟨w, hw, output⟩, exist⟩
    · exact .inl (after (.inl allocated))
    · rcases List.mem_cons.mp hw with rfl | hw
      · exact .inl (after (.inr ⟨output, exist⟩))
      · exact .inr ⟨⟨w, hw, output⟩, exists_of_step step exist⟩

/-- Behind the first statements of a list, the others can be read. -/
theorem Readable.later {rest : List Statement} (h : Stepwise a ss ts a')
    (freed : UnaccessedAfterFree (ss ++ rest))
    (exist : ∀ w ∈ ss, ∀ c, w.Outputs c → (a.get? c).isSome = true)
    (readable : Readable a (ss ++ rest)) : Readable a' rest := by
  rw [readable_iff] at readable ⊢
  rintro before s after rfl c hc
  have unfreed : ∀ f ∈ ss, ¬ f.Frees c := by
    intro f hf
    refine Stepwise.not_frees_of_avoids (u := s) ?_ hc
    exact (List.pairwise_append.mp freed).2.2 f hf s (by simp)
  have known := readable (ss ++ before) s after (by simp) c hc
  rcases known with allocated | ⟨w, hw, output⟩
  · exact .inl (allocated_of_stepwise h unfreed (.inl allocated))
  · rcases List.mem_append.mp hw with hw | hw
    · exact .inl (allocated_of_stepwise h unfreed (.inr ⟨⟨w, hw, output⟩, exist w hw c output⟩))
    · exact .inr ⟨w, hw, output⟩

/-- No statement writes an index array of a later one. -/
def UnwrittenIndex (ss : List Statement) : Prop :=
  ss.Pairwise fun s u => ∀ c ∈ u.instr.indexBases, ¬ s.Outputs c

theorem Readable.allocated {rest : List Statement} (readable : Readable a (ss ++ rest))
    (unwritten : UnwrittenIndex ss) :
    ∀ s ∈ ss, ∀ c ∈ s.instr.indexBases, (a.buffer? c).isSome = true := by
  intro s hs c hc
  obtain ⟨before, after, rfl⟩ := List.append_of_mem hs
  rcases readable_iff.mp readable before s (after ++ rest) (by simp) c hc with known | written
  · exact known
  · obtain ⟨w, hw, output⟩ := written
    have across := (List.pairwise_append.mp unwritten).2.2
    exact absurd output (across w hw s List.mem_cons_self c hc)

/-- Allocating index arrays that hold data makes no difference. -/
theorem run_prod_fullPiece (allocated : ∀ t ∈ ts, ∀ c ∈ t.instr.indexBases,
    (a.buffer? c).isSome = true) (freed : UnaccessedAfterFree ts) :
    (ts.map fun t : Statement => t.fullPiece.act).prod.run a =
      (ts.map fun t : Statement => t.piece.act).prod.run a := by
  have apartFull : ts.Pairwise fun s t => ∀ b ∈ s.fullPiece.drops, b ∉ t.fullPiece.needs := by
    refine freed.imp fun {s t} avoids b dropped needed => ?_
    obtain ⟨free, named⟩ := mem_drops_piece.mp dropped
    obtain ⟨computes, mentioned⟩ := mem_needs_fullPiece.mp needed
    have ⟨unindexed, unnamed⟩ := avoids free b named
    exact (Instruction.mentions_iff.mp mentioned).elim (unnamed computes) unindexed
  have sub : ∀ t : Statement, ∀ b ∈ t.piece.needs, b ∈ t.fullPiece.needs := by
    intro t b needed
    obtain ⟨computes, named⟩ := mem_needs_piece.mp needed
    exact mem_needs_fullPiece.mpr ⟨computes, Instruction.mentions_iff.mpr (.inl named)⟩
  have apart : ts.Pairwise fun s t => ∀ b ∈ s.piece.drops, b ∉ t.piece.needs :=
    apartFull.imp fun {s t} apart b dropped needed => apart b dropped (sub t b needed)
  have grants : (grant (ts.flatMap fun t => t.fullPiece.needs)).run a =
      (grant (ts.flatMap fun t => t.piece.needs)).run a := by
    refine congrArg some (Arena.mapBases_congr fun b base found => ?_)
    simp only [List.mem_flatMap]
    by_cases needed : ∃ t ∈ ts, b ∈ t.piece.needs
    · obtain ⟨t, ht, needed⟩ := needed
      rw [if_pos ⟨t, ht, sub t b needed⟩, if_pos ⟨t, ht, needed⟩]
    · rw [if_neg needed]
      split
      next indexed =>
        obtain ⟨t, ht, indexed⟩ := indexed
        obtain ⟨computes, mentioned⟩ := mem_needs_fullPiece.mp indexed
        rcases Instruction.mentions_iff.mp mentioned with named | indexed
        · exact absurd ⟨t, ht, mem_needs_piece.mpr ⟨computes, named⟩⟩ needed
        · have known := allocated t ht b indexed
          rw [Arena.buffer?, found, Option.bind_some] at known
          exact Base.granted_of_isAllocated known
      next => rfl
  rw [Piece.prod_act (fun t _ => t.local_fullPiece) apartFull,
    Piece.prod_act (fun t _ => t.local_piece) apart, Piece.act, Piece.act, mul_assoc, mul_assoc,
    run_mul, run_mul, grants]
  rfl

end Statement

namespace Engine

open Fusion Statement

variable {e : Engine Unit} {target : Target} {part ss ts : List Statement}

theorem runStretch_eq {s : Session Unit} (resolved : resolveAll s.arena part = (ts, none)) :
    e.runStretch part s = e.runStatements [] ts s := by
  have looked : (get : Run Unit (Session Unit)) s = (.ok s, s) := rfl
  rw [runStretch, Exec.run_bind, looked]
  dsimp only
  rw [resolved]

/-- A stretch whose statements can all be resolved at its beginning runs as if they were resolved
one by one. -/
theorem ends_runStretch (interprets : e.backend = Backend.interpreter target) {s : Session Unit}
    {a' : Arena} (h : Stepwise s.arena part ts a')
    (plain : ∀ u ∈ part, u.instr.opcode.isExtension = false)
    (exist : ∀ u ∈ part, ∀ b, Uses b u → (s.arena.get? b).isSome = true)
    (fits : ∀ t ∈ ts, t.Fits) (freed : UnaccessedAfterFree part)
    (unwritten : UnwrittenIndex part)
    (allocated : ∀ u ∈ part, ∀ c ∈ u.instr.indexBases, (s.arena.buffer? c).isSome = true) :
    Ends (e.runStretch part s) (some a') := by
  have renumbered := h.renumbered
  have source : ∀ t ∈ ts, ∃ u ∈ part, u.instr.Renumbered t.instr := fun t ht =>
    exists_of_forall₂ renumbered ht
  have plainT : ∀ t ∈ ts, t.instr.opcode.isExtension = false := by
    intro t ht
    obtain ⟨u, hu, same⟩ := source t ht
    rw [same.opcode]
    exact plain u hu
  have existT : ∀ t ∈ ts, ∀ b, Uses b t → (s.arena.get? b).isSome = true := by
    intro t ht b uses
    obtain ⟨u, hu, same⟩ := source t ht
    rw [Uses, same.opcode, same.bases, same.mentions] at uses
    exact exist u hu b uses
  have allocatedT : ∀ t ∈ ts, ∀ c ∈ t.instr.indexBases, (s.arena.buffer? c).isSome = true := by
    intro t ht
    obtain ⟨u, hu, same⟩ := source t ht
    rw [same.indexBases]
    exact allocated u hu
  have freedT : UnaccessedAfterFree ts := freed.renumbered renumbered
  obtain ⟨ls, m, fused, faithful⟩ := fuse_of_fits e.settings.separate
    (fun t ht => (fits t ht).views) (fun t ht => (fits t ht).shapes) 0
  have acts : (actKernels ls).run s.arena = some a' := by
    rw [faithful.actKernels_eq (fun t ht => (fits t ht).runs) freedT.unusedAfterFree,
      run_prod_fullPiece allocatedT freedT, h.run_prod]
  rw [runStretch_eq (resolveAll_of_forall₂ (h.resolve_first allocated unwritten freed)),
    runStatements_eq plainT, List.reverse_nil, List.nil_append, ← acts]
  exact ends_runSegment interprets fused faithful.laidOut (faithful.hasAll existT)

/-- Stretches run one after the other as if all their statements were resolved one by one. -/
theorem ends_runStretches (interprets : e.backend = Backend.interpreter target)
    {parts : List (List Statement)} {s : Session Unit} {a' : Arena}
    (h : Stepwise s.arena parts.flatten ts a')
    (plain : ∀ u ∈ parts.flatten, u.instr.opcode.isExtension = false)
    (exist : ∀ u ∈ parts.flatten, ∀ b, Uses b u → (s.arena.get? b).isSome = true)
    (fits : ∀ t ∈ ts, t.Fits) (freed : UnaccessedAfterFree parts.flatten)
    (unwritten : ∀ part ∈ parts, UnwrittenIndex part)
    (readable : Readable s.arena parts.flatten) :
    Ends (parts.forM e.runStretch s) (some a') := by
  induction parts generalizing s ts with
  | nil =>
    cases h
    exact Run.performs_pure s
  | cons part parts ih =>
    rw [List.flatten_cons] at h plain exist freed readable
    have ⟨here, later⟩ := List.forall_mem_cons.mp unwritten
    obtain ⟨freedHere, freedLater, -⟩ := List.pairwise_append.mp freed
    rw [List.forall_mem_append] at plain exist
    obtain ⟨us, vs, a₁, rfl, first, rest⟩ := Stepwise.append_iff.mp h
    rw [List.forall_mem_append] at fits
    have stretch := ends_runStretch interprets first plain.1 exist.1 fits.1 freedHere here
      (readable.allocated here)
    have written : ∀ w ∈ part, ∀ c, w.Outputs c → (s.arena.get? c).isSome = true := by
      rintro w hw c ⟨computes, output⟩
      have named := Instruction.mem_bases_of_outputBase output
      exact exist.1 w hw c (.inr ⟨computes, Instruction.mentions_iff.mpr (.inl named)⟩)
    have readable₁ := readable.later first freed written
    have acts : (us.map fun t : Statement => t.piece.act).prod.run s.arena = some a₁ :=
      first.run_prod
    have acts' : (vs.map fun t : Statement => t.piece.act).prod.run a₁ = some a' := rest.run_prod
    rw [← acts', ← run_mul_of_some acts]
    refine Run.ends_bind (by rwa [acts]) fun s₁ reached => ?_
    obtain rfl := Option.some.inj (acts.symm.trans reached)
    rw [acts']
    exact ih rest plain.2 (fun u hu b uses => first.keeps_exists (exist.2 u hu b uses)) fits.2
      freedLater later readable₁

end Engine

/-! ## The stretches of a program -/

namespace Stretch

open Statement

variable {a a' : Arena} {ss ts : List Statement}

theorem mem_partitions_iff {s : Statement} : s ∈ (partitions ss).flatten ↔ s ∈ ss :=
  (perm_partitions ss).mem_iff

/-- The index arrays of frees that are moved are written by no statement. -/
def SteadyFrees (ss : List Statement) : Prop :=
  ∀ f ∈ ss, isDeferred (indexBases ss) f = true → ∀ c ∈ f.instr.indexBases, ∀ w ∈ ss, ¬ w.Outputs c

instance (ss : List Statement) : Decidable (SteadyFrees ss) :=
  inferInstanceAs (Decidable (∀ f ∈ ss, isDeferred (indexBases ss) f = true →
    ∀ c ∈ f.instr.indexBases, ∀ w ∈ ss, ¬ w.Outputs c))

theorem unaccessed_partitions (freed : UnaccessedAfterFree ss) :
    UnaccessedAfterFree (partitions ss).flatten := by
  have moved : (partitions ss).flatten.Pairwise fun f t => isDeferred (indexBases ss) f = true →
      f.instr.opcode = .free → t.Avoids f.instr.bases := by
    refine pairwise_partitions ?_ (freed.imp fun avoids _ _ => avoids)
    intro f t untouched _ b named
    have unmentioned := touches_eq_false_iff.mp untouched b named
    rw [← Bool.not_eq_true, Instruction.mentions_iff, not_or] at unmentioned
    exact ⟨unmentioned.2, fun _ => unmentioned.1⟩
  have keptOrder : (kept ss).Pairwise fun f t => f.instr.opcode = .free → t.Avoids f.instr.bases :=
    List.Pairwise.filter _ freed
  rw [← filter_partitions, List.pairwise_filter] at keptOrder
  refine (moved.and keptOrder).imp_of_mem ?_
  rintro f t hf ht ⟨moved, keptOrder⟩ free
  cases isMoved : isDeferred (indexBases ss) f with
  | true => exact moved isMoved free
  | false =>
    cases isMoved' : isDeferred (indexBases ss) t with
    | false => exact keptOrder (by simp [isMoved]) (by simp [isMoved']) free
    | true =>
      -- A free that is not moved frees no index array.
      intro b named
      refine ⟨fun indexed => ?_, fun computes => ?_⟩
      · have known := mem_indexBases (mem_partitions_iff.mp ht)
          (Instruction.mem_indexReads_of_mem_indexBases indexed)
        have meets : f.instr.bases.meets (indexBases ss) = true :=
          BaseSet.meets_iff.mpr ⟨b, named, known⟩
        rw [isDeferred, free, meets] at isMoved
        contradiction
      · rw [opcode_of_isDeferred isMoved'] at computes
        contradiction

theorem unwritten_partitions (steady : SteadyFrees ss) :
    ∀ part ∈ partitions ss, UnwrittenIndex part := by
  intro part member
  refine (exact_partitions ss part member).imp_of_mem ?_
  intro s u hs hu exact c indexed output
  have inside : ∀ t ∈ part, t ∈ ss := fun t ht =>
    mem_partitions_iff.mp (List.mem_flatten.mpr ⟨part, member, ht⟩)
  cases isMoved : isDeferred (indexBases ss) u with
  | true => exact steady u (inside u hu) isMoved c indexed s (inside s hs) output
  | false => exact exact isMoved c output.2 (Instruction.mem_indexReads_of_mem_indexBases indexed)

theorem steady_of_isDeferred (steady : SteadyFrees ss) (readable : Readable a ss)
    {f : Statement} (hf : f ∈ ss) (moved : isDeferred (indexBases ss) f = true) :
    f.Steady a ss := by
  intro c indexed
  have unwritten := steady f hf moved c indexed
  obtain ⟨before, after, split⟩ := List.append_of_mem hf
  rcases readable_iff.mp readable before f after split c indexed with known | ⟨w, hw, output⟩
  · exact ⟨known, unwritten⟩
  · exact absurd output (unwritten w (by simp [split, hw]))

theorem readable_partitions (steady : SteadyFrees ss) (readable : Readable a ss) :
    Readable a (partitions ss).flatten := by
  rw [readable_iff]
  intro before s after split c indexed
  have member : s ∈ ss := mem_partitions_iff.mp (by simp [split])
  cases isMoved : isDeferred (indexBases ss) s with
  | true => exact .inl (steady_of_isDeferred steady readable member isMoved c indexed).1
  | false =>
    -- What stands in front of the statement in the program and is kept stands in front of it here.
    have order := filter_partitions ss
    rw [split, List.filter_append, List.filter_cons_of_pos (by simp [isMoved]), kept, eq_comm,
      List.filter_eq_append_iff] at order
    obtain ⟨front, back, whole, sameFront, sameBack⟩ := order
    obtain ⟨between, rest, rfl, none, -, -⟩ := List.filter_eq_cons_iff.mp sameBack
    rcases readable_iff.mp readable (front ++ between) s rest (by simp [whole]) c indexed with
      known | ⟨w, hw, output⟩
    · exact .inl known
    · refine .inr ⟨w, ?_, output⟩
      have isKept : isDeferred (indexBases ss) w = false := by
        rw [← Bool.not_eq_true]
        intro moved
        have computes := output.1
        rw [opcode_of_isDeferred moved] at computes
        contradiction
      rcases List.mem_append.mp hw with hw | hw
      · have inFront : w ∈ front.filter (!isDeferred (indexBases ss) ·) :=
          List.mem_filter.mpr ⟨hw, by simp [isKept]⟩
        exact List.mem_of_mem_filter (sameFront ▸ inFront)
      · exact absurd isKept (by simpa using none w hw)

/-- The statements of the stretches run step by step as those of the program do. -/
theorem stepwise_partitions (h : Stepwise a ss ts a') (freed : UnaccessedAfterFree ss)
    (steady : SteadyFrees ss) (readable : Readable a ss) :
    ∃ us, Stepwise a (partitions ss).flatten us a' ∧ us ⊆ ts := by
  have moved : ∀ f ∈ ss, isDeferred (indexBases ss) f = true → f.Steady a ss := fun f hf =>
    steady_of_isDeferred steady readable hf
  obtain ⟨us, a₁, ran, sub, rfl⟩ := h.putOff (isDeferred (indexBases ss))
    (fun _ _ => opcode_of_isDeferred)
    (freed.imp fun avoids moved => avoids (opcode_of_isDeferred moved))
  have order : ss.filter (!isDeferred (indexBases ss) ·) = kept ss := rfl
  rw [order, ← filter_partitions] at ran
  have resolvable : ∀ f ∈ (partitions ss).flatten, isDeferred (indexBases ss) f = true →
      f.Steady a (partitions ss).flatten ∧ ∃ t ∈ ts, f.resolve a = .ok t := by
    intro f hf isMoved
    have member := mem_partitions_iff.mp hf
    refine ⟨fun c indexed => ?_, h.exists_of_steady member (moved f member isMoved) freed⟩
    have ⟨allocated, unwritten⟩ := moved f member isMoved c indexed
    exact ⟨allocated, fun w hw => unwritten w (mem_partitions_iff.mp hw)⟩
  obtain ⟨vs, ran, sub'⟩ := ran.putBack (fun _ _ => opcode_of_isDeferred)
    (unaccessed_partitions freed) resolvable
  refine ⟨vs, ?_, fun t ht => ?_⟩
  · rwa [Arena.drop_congr]
    intro b
    simp only [List.mem_flatMap, List.mem_filter, mem_partitions_iff]
  · exact (List.mem_append.mp (sub' ht)).elim (fun ht => sub ht) id

end Stretch

namespace Engine

open Fusion Statement Stretch

variable {ss : List Statement}

/-- A program with index arrays runs stretch by stretch. -/
theorem ends_run_of_stretches {e : Engine Unit}
    (indexed : ({ body := ss } : Program).usesIndexArrays = true) {s : Session Unit} {f : Action}
    (stretches : Ends ((partitions ss).forM e.runStretch s) (f.run s.arena)) :
    Ends (e.run { body := ss } s) (f.run s.arena) := by
  refine ends_run_of_body ?_
  rw [indexed, runBody, ← mul_one f]
  exact Run.ends_bind stretches fun s' _ => Run.performs_count _ s'

/-- Splitting makes views with index arrays exact. If a program runs statement by statement, with
every statement resolved right before it runs, then the engine succeeds and leaves all bases as they
are left there. A free that is moved is resolved with the stretch that it was moved into, so its own
index arrays must not be written. -/
theorem run_resolving {settings : Settings} {target : Target}
    (indexed : ({ body := ss } : Program).usesIndexArrays = true)
    (plain : ∀ s ∈ ss, s.instr.opcode.isExtension = false)
    (freed : UnaccessedAfterFree ss) (steady : SteadyFrees ss) {before : Session Unit}
    (exist : ∀ s ∈ ss, ∀ b, Uses b s → (before.arena.get? b).isSome = true)
    (readable : Readable before.arena ss) (fits : FitAlong before.arena ss)
    (executed : ((ss.forM executeNow) before.arena).1 = .ok ()) :
    ∃ after, (new settings (Backend.interpreter target)).run { body := ss } before =
      (.ok (), after) ∧ after.arena = ((ss.forM executeNow) before.arena).2 := by
  obtain ⟨ts, stepwise, fitT⟩ := stepwise_of_executed fits exist executed
  obtain ⟨us, split, sub⟩ := stepwise_partitions stepwise freed steady readable
  have stretches := ends_runStretches
    (e := new settings (Backend.interpreter target)) rfl split
    (fun u hu => plain u (mem_partitions_iff.mp hu))
    (fun u hu => exist u (mem_partitions_iff.mp hu)) (fun t ht => fitT t (sub ht))
    (unaccessed_partitions freed) (unwritten_partitions steady)
    (readable_partitions steady readable)
  rw [← split.run_prod] at stretches
  have ends := ends_run_of_stretches indexed stretches
  rw [split.run_prod] at ends
  obtain ⟨succeeded, arena⟩ := ends
  exact ⟨_, Prod.ext succeeded rfl, arena⟩

/-- The start of a copied window is written, used, written again and used again, and freed. -/
theorem run_resolving_window :
    let window : View := { View.whole 2 .int64 2 with index.start := some 1 }
    let copy (out input : View) : Instruction :=
      { opcode := .unary .identity, operands := [out, input] }
    let ss := Statement.number
      [{ opcode := .range, operands := [.whole 1 .int64 1] },
       copy (.whole 3 .int64 2) window,
       copy (.whole 1 .int64 1) (.whole 0 .int64 1),
       copy (.whole 4 .int64 2) window,
       { opcode := .free, operands := [.whole 1 .int64 1] }] 0
    let before : Session Unit :=
      { arena := .ofList [⟨.int64, 1, some ⟨.int64, #[(2 : Int)]⟩⟩, ⟨.int64, 1, none⟩,
          ⟨.int64, 4, some (.zeros .int64 4)⟩, ⟨.int64, 2, none⟩, ⟨.int64, 2, none⟩]
        backend := () }
    (partitions ss).length = 3 ∧ ∃ after,
      (new {} (Backend.interpreter .openmp)).run { body := ss } before = (.ok (), after) ∧
        after.arena = ((ss.forM executeNow) before.arena).2 := by
  intro window copy ss before
  have exist : ∀ s ∈ ss, ∀ b ∈ s.instr.bases ++ s.instr.indexBases,
      (before.arena.get? b).isSome = true := by decide
  have fits : FitAlong before.arena ss := by decide +kernel
  have readable : Readable before.arena ss := by decide +kernel
  have executed : ((ss.forM executeNow) before.arena).1 = .ok () :=
    ok_of_toOption (by decide +kernel)
  exact ⟨by decide, run_resolving (by decide) (by decide) (by decide) (by decide)
    (fun s hs b uses => exist s hs b (mem_bases_of_uses uses)) readable fits executed⟩

end Engine

end ArrayFusion
