import ArrayFusion.Proofs.Engine.Meaning
import ArrayFusion.Proofs.Program.Partition
import ArrayFusion.Proofs.Program.Resolve

/-!
# Statements that are resolved one by one

A statement with index arrays can be resolved right before it runs, so that its views follow every
change of the arrays. What a step leaves alone decides what may change places with it: a free may
be put off past steps that do not access its bases, and a view is the same before and after steps
that spare its index arrays.
-/

namespace ArrayFusion

open ArrayFusion.Action

/-! ## What an action leaves alone -/

namespace Arena

variable {a : Arena} {c : BaseId}

/-- The arena without the data of the bases of a list. -/
def drop (a : Arena) (bs : List BaseId) : Arena :=
  a.mapBases fun b base => if b ∈ bs then base.cleared else base

theorem run_clear (a : Arena) (bs : List BaseId) : (clear bs).run a = some (a.drop bs) := rfl

theorem drop_congr {bs cs : List BaseId} (same : ∀ b, b ∈ bs ↔ b ∈ cs) (a : Arena) :
    a.drop bs = a.drop cs :=
  mapBases_congr fun b base _ => by simp only [same]

theorem drop_drop (a : Arena) (bs cs : List BaseId) : (a.drop bs).drop cs = a.drop (bs ++ cs) := by
  have same := congrArg (·.run a) (clear_mul_clear bs cs)
  exact Option.some.inj same

theorem buffer?_drop {bs : List BaseId} (kept : c ∉ bs) : (a.drop bs).buffer? c = a.buffer? c :=
  buffer?_mapBases_of_id (fun _ => if_neg kept) a

theorem isSome_buffer? : (a.buffer? c).isSome = ((a.get? c).map (·.isAllocated)).getD false := by
  rw [buffer?]
  cases a.get? c <;> rfl

end Arena

/-- The action changes no data of the base. -/
def Action.Keeps (e : Action) (c : BaseId) : Prop :=
  ∀ a a', e.run a = some a' → a'.buffer? c = a.buffer? c

theorem Action.Keeps.prod {es : List Action} {c : BaseId} (h : ∀ e ∈ es, e.Keeps c) :
    es.prod.Keeps c := by
  induction es with
  | nil =>
    rintro a _ ⟨⟩
    rfl
  | cons e es ih =>
    intro a a'' ran
    have ⟨first, rest⟩ := List.forall_mem_cons.mp h
    rw [List.prod_cons, run_mul, Option.bind_eq_some_iff] at ran
    obtain ⟨a', ran, later⟩ := ran
    rw [ih rest a' a'' later, first a a' ran]

/-- An instruction changes no data but that of its output. -/
theorem Instruction.keeps_act {i : Instruction} {c : BaseId} (other : i.outputBase? ≠ some c)
    (ts : Turns) : (i.act ts).Keeps c := by
  intro a a' ran
  rw [run_act, Option.bind_eq_some_iff] at ran
  obtain ⟨w, effect, written⟩ := ran
  cases w with
  | none =>
    cases written
    rfl
  | some w =>
    rw [writeAct, Write.run_act] at written
    split at written
    · cases written
      obtain ⟨v, first, base, -⟩ := writes_of_effect? effect
      refine Arena.buffer?_mapBases_of_id (fun _ => if_neg ?_) a
      rintro rfl
      refine other ?_
      rw [outputBase?, List.head?_eq_getElem?, first, Option.bind_some, base]
    · contradiction

/-- A piece changes places with frees of bases that it does not need. -/
theorem Piece.commute_clear {p : Piece} (inside : Local p.action p.needs) {bs : List BaseId}
    (apart : ∀ b ∈ bs, b ∉ p.needs) : Commute p.act (clear bs) := by
  have grants := (commute_clear_grant apart).symm
  have computes : Commute p.action (clear bs) := by
    refine inside.frame _ fun b needed base => ?_
    rw [if_neg fun freed => apart b freed needed]
  have clears : Commute (clear p.drops) (clear bs) := by
    rw [Commute, SemiconjBy, clear_mul_clear, clear_mul_clear]
    refine clear_congr fun b => ?_
    rw [List.mem_append, List.mem_append, or_comm]
  exact (grants.mul_left computes).mul_left clears

namespace Statement

variable {s t : Statement} {ss ts : List Statement} {a a' : Arena} {b c : BaseId}

/-- The statement computes something and writes to the base. -/
def Outputs (s : Statement) (c : BaseId) : Prop :=
  s.instr.opcode.isSystem = false ∧ s.instr.outputBase? = some c

instance (s : Statement) (c : BaseId) : Decidable (s.Outputs c) :=
  inferInstanceAs (Decidable (_ ∧ _))

/-- The statement frees the base. -/
def Frees (s : Statement) (c : BaseId) : Prop := s.instr.opcode = .free ∧ c ∈ s.instr.bases

/-- The statement does not access the bases, neither for data nor to address views. -/
def Avoids (s : Statement) (bs : List BaseId) : Prop :=
  ∀ b ∈ bs, b ∉ s.instr.indexBases ∧ (s.instr.opcode.isSystem = false → b ∉ s.instr.bases)

instance (s : Statement) (bs : List BaseId) : Decidable (s.Avoids bs) :=
  inferInstanceAs (Decidable (∀ b ∈ bs, _))

theorem Outputs.renumbered (h : s.instr.Renumbered t.instr) : t.Outputs c ↔ s.Outputs c := by
  rw [Outputs, Outputs, h.opcode, h.outputBase?]

theorem Frees.renumbered (h : s.instr.Renumbered t.instr) : t.Frees c ↔ s.Frees c := by
  rw [Frees, Frees, h.opcode, h.bases]

theorem Avoids.renumbered (h : s.instr.Renumbered t.instr) {bs : List BaseId} :
    t.Avoids bs ↔ s.Avoids bs := by
  rw [Avoids, Avoids, h.opcode, h.bases, h.indexBases]

theorem keeps_act (other : s.instr.outputBase? ≠ some c) : s.act.Keeps c := by
  refine Action.Keeps.prod fun e he => ?_
  obtain ⟨w, -, rfl⟩ := List.mem_map.mp he
  exact s.instr.keeps_act other _

/-- A step leaves the data of a base that it neither writes nor frees. -/
theorem buffer?_of_step (step : s.piece.act.run a = some a') (unwritten : ¬ s.Outputs c)
    (unfreed : ¬ s.Frees c) (allocated : (a.buffer? c).isSome = true) :
    a'.buffer? c = a.buffer? c := by
  rw [Piece.act, mul_assoc, grant, run_mul_of_some (run_mapBases _ a), run_mul,
    Option.bind_eq_some_iff] at step
  obtain ⟨after, computed, freed⟩ := step
  have granted : (a.mapBases fun b base => if b ∈ s.piece.needs then base.granted else base).buffer?
      c = a.buffer? c := by
    rw [Arena.buffer?_mapBases, Arena.buffer?]
    cases found : a.get? c with
    | none => rfl
    | some base =>
      rw [Arena.buffer?, found, Option.bind_some] at allocated
      rw [Option.bind_some, Option.bind_some, Base.granted_of_isAllocated allocated, ite_self]
  have kept : after.buffer? c = a.buffer? c := by
    rw [← granted]
    cases system : s.instr.opcode.isSystem with
    | true =>
      rw [piece_of_system system] at computed
      cases computed
      rw [granted, Arena.buffer?_mapBases_of_id]
      simp
    | false =>
      rw [piece_of_computes system] at computed ⊢
      exact keeps_act (fun output => unwritten ⟨system, output⟩) _ _ computed
  rw [Arena.run_clear, Option.some.injEq] at freed
  rw [← freed, Arena.buffer?_drop (fun dropped => unfreed (mem_drops_piece.mp dropped)), kept]

/-- A base that exists before a step exists after it. -/
theorem exists_of_step (step : s.piece.act.run a = some a') (exist : (a.get? c).isSome = true) :
    (a'.get? c).isSome = true := by
  have kept := congrArg Option.isSome (Piece.allocation s.local_piece step c)
  rw [Option.isSome_map, Option.isSome_map] at kept
  rw [kept, exist]

/-- What is allocated after a step: what it does not free, if it was allocated before or the step
names it. -/
theorem allocated_of_step (step : s.piece.act.run a = some a') (unfreed : ¬ s.Frees c)
    (known : (a.buffer? c).isSome = true ∨ s.Outputs c ∧ (a.get? c).isSome = true) :
    (a'.buffer? c).isSome = true := by
  have kept : c ∉ s.piece.drops := fun dropped => unfreed (mem_drops_piece.mp dropped)
  rw [Arena.isSome_buffer?, Piece.allocation s.local_piece step c]
  rcases known with before | ⟨⟨computes, output⟩, exist⟩
  · rw [Arena.isSome_buffer?] at before
    cases found : a.get? c with
    | none => simp [found] at before
    | some base =>
      simp only [found, Option.map_some, Option.getD_some] at before
      simp [kept, before]
  · obtain ⟨base, found⟩ := Option.isSome_iff_exists.mp exist
    have named : c ∈ s.piece.needs :=
      mem_needs_piece.mpr ⟨computes, Instruction.mem_bases_of_outputBase output⟩
    simp [found, kept, named]

theorem run_piece_of_free (free : s.instr.opcode = .free) (a : Arena) :
    s.piece.act.run a = some (a.drop s.instr.bases) := by
  rw [piece, if_pos free, Piece.act, grant_nil, one_mul, one_mul, Arena.run_clear]

/-- No statement behind a free accesses the freed bases. -/
def UnaccessedAfterFree (ss : List Statement) : Prop :=
  ss.Pairwise fun f s => f.instr.opcode = .free → s.Avoids f.instr.bases

instance (ss : List Statement) : Decidable (UnaccessedAfterFree ss) :=
  inferInstanceAs (Decidable (ss.Pairwise fun f s =>
    f.instr.opcode = .free → s.Avoids f.instr.bases))

/-- What holds of a freed base and a later statement holds after resolving. -/
theorem UnaccessedAfterFree.renumbered (h : UnaccessedAfterFree ss)
    (same : List.Forall₂ (fun s t => s.instr.Renumbered t.instr) ss ts) :
    UnaccessedAfterFree ts := by
  induction same with
  | nil => exact .nil
  | @cons s t ss ts first rest ih =>
    have ⟨here, later⟩ := List.pairwise_cons.mp h
    refine List.pairwise_cons.mpr ⟨fun u hu free => ?_, ih later⟩
    obtain ⟨v, hv, same⟩ := exists_of_forall₂ rest hu
    rw [first.bases, Avoids.renumbered same]
    exact here v hv (first.opcode.symm.trans free)

theorem UnaccessedAfterFree.unusedAfterFree (h : UnaccessedAfterFree ss) (b : BaseId) :
    Fusion.UnusedAfterFree b ss := by
  refine h.imp fun {f s} avoids free named computes => ?_
  have ⟨unindexed, unnamed⟩ := avoids free b named
  rw [← Bool.not_eq_true, Instruction.mentions_iff]
  exact not_or.mpr ⟨unnamed computes, unindexed⟩

/-- Index arrays of the statement hold data that no statement of the list writes. -/
def Steady (s : Statement) (a : Arena) (ss : List Statement) : Prop :=
  ∀ c ∈ s.instr.indexBases, (a.buffer? c).isSome = true ∧ ∀ w ∈ ss, ¬ w.Outputs c

end Statement

/-! ## Runs, step by step -/

/-- Statements run one by one, and each is resolved right before it runs: the arena before, the
statements, what they are resolved to, and the arena afterwards. -/
inductive Stepwise : Arena → List Statement → List Statement → Arena → Prop
  | nil (a : Arena) : Stepwise a [] [] a
  | cons {a a' a'' : Arena} {s t : Statement} {ss ts : List Statement}
      (resolved : s.resolve a = .ok t) (step : t.piece.act.run a = some a')
      (later : Stepwise a' ss ts a'') : Stepwise a (s :: ss) (t :: ts) a''

namespace Stepwise

variable {s t : Statement} {ss ts us vs : List Statement} {a a' a'' : Arena} {c : BaseId}

theorem renumbered (h : Stepwise a ss ts a') :
    List.Forall₂ (fun s t => s.instr.Renumbered t.instr) ss ts := by
  induction h with
  | nil => exact .nil
  | cons resolved _ _ ih => exact .cons (Statement.renumbered_of_resolve resolved) ih

theorem run_prod (h : Stepwise a ss ts a') :
    (ts.map fun t : Statement => t.piece.act).prod.run a = some a' := by
  induction h with
  | nil => rfl
  | cons _ step _ ih => rw [List.map_cons, List.prod_cons, run_mul_of_some step, ih]

theorem keeps_exists (h : Stepwise a ss ts a') (exist : (a.get? c).isSome = true) :
    (a'.get? c).isSome = true := by
  induction h with
  | nil => exact exist
  | cons _ step _ ih => exact ih (Statement.exists_of_step step exist)

theorem append_iff : Stepwise a (ss ++ us) ts a'' ↔
    ∃ vs ws a', ts = vs ++ ws ∧ Stepwise a ss vs a' ∧ Stepwise a' us ws a'' := by
  constructor
  · intro h
    induction ss generalizing a ts with
    | nil => exact ⟨[], ts, a, rfl, .nil a, h⟩
    | cons s ss ih =>
      cases h with
      | cons resolved step later =>
        obtain ⟨vs, ws, a', rfl, first, rest⟩ := ih later
        exact ⟨_ :: vs, ws, a', rfl, .cons resolved step first, rest⟩
  · rintro ⟨vs, ws, a', rfl, first, rest⟩
    induction first with
    | nil => exact rest
    | cons resolved step _ ih => exact .cons resolved step (ih rest)

/-! ### Frees that are put off -/

/-- A statement that does not access freed bases resolves and runs as if they were not freed. -/
theorem step_drop {bs : List BaseId} (avoids : s.Avoids bs) :
    s.resolve (a.drop bs) = s.resolve a ∧ ∀ t, s.resolve a = .ok t →
      t.piece.act.run (a.drop bs) = (t.piece.act.run a).map (·.drop bs) := by
  constructor
  · refine Statement.resolve_congr fun c indexed => Arena.buffer?_drop fun freed => ?_
    exact (avoids c freed).1 indexed
  · intro t resolved
    have apart : ∀ b ∈ bs, b ∉ t.piece.needs := by
      intro b freed needed
      obtain ⟨computes, named⟩ := Statement.mem_needs_piece.mp needed
      have renumbered := Statement.renumbered_of_resolve resolved
      exact ((Statement.Avoids.renumbered renumbered).mpr avoids b freed).2 computes named
    have swap := congrArg (·.run a) (t.piece.commute_clear t.local_piece apart).eq
    rw [run_mul, run_mul_of_some (Arena.run_clear a bs)] at swap
    rw [← swap, Option.map_eq_bind]
    rfl

/-- Bases can be freed before statements that do not access them as well as behind them. -/
theorem drop_iff {bs : List BaseId} (avoid : ∀ s ∈ ss, s.Avoids bs) :
    Stepwise (a.drop bs) ss ts a'' ↔ ∃ a', Stepwise a ss ts a' ∧ a'' = a'.drop bs := by
  constructor
  · intro h
    generalize before : a.drop bs = b at h
    induction h generalizing a with
    | nil => exact ⟨a, .nil a, before.symm⟩
    | cons resolved step later ih =>
      subst before
      have ⟨here, others⟩ := List.forall_mem_cons.mp avoid
      have ⟨same, moves⟩ := step_drop (a := a) here
      rw [same] at resolved
      rw [moves _ resolved] at step
      obtain ⟨after, step, dropped⟩ := Option.map_eq_some_iff.mp step
      obtain ⟨a', rest, rfl⟩ := ih others dropped
      exact ⟨a', .cons resolved step rest, rfl⟩
  · rintro ⟨a', h, rfl⟩
    induction h with
    | nil a => exact .nil _
    | @cons a _ _ _ _ _ _ resolved step later ih =>
      have ⟨here, others⟩ := List.forall_mem_cons.mp avoid
      have ⟨same, moves⟩ := step_drop (a := a) here
      refine .cons (same.trans resolved) ?_ (ih others)
      rw [moves _ resolved, step]
      rfl

theorem drop_nil (a : Arena) : a.drop [] = a := a.mapBases_id fun _ _ _ => rfl

/-- Frees can be put off until the end, if no statement behind them accesses their bases. -/
theorem putOff (moved : Statement → Bool)
    (free : ∀ f ∈ ss, moved f = true → f.instr.opcode = .free)
    (avoid : ss.Pairwise fun f s => moved f = true → s.Avoids f.instr.bases)
    (h : Stepwise a ss ts a'') : ∃ us a', Stepwise a (ss.filter (!moved ·)) us a' ∧ us ⊆ ts ∧
      a'' = a'.drop ((ss.filter moved).flatMap (·.instr.bases)) := by
  induction h with
  | nil a => exact ⟨[], a, .nil a, List.Subset.refl [], (drop_nil a).symm⟩
  | @cons a a₁ a'' s t ss ts resolved step later ih =>
    have ⟨here, others⟩ := List.forall_mem_cons.mp free
    have ⟨first, rest⟩ := List.pairwise_cons.mp avoid
    obtain ⟨us, a', ran, sub, rfl⟩ := ih others rest
    cases isMoved : moved s with
    | false =>
      refine ⟨t :: us, a', ?_, List.cons_subset_cons t sub, ?_⟩
      · rw [List.filter_cons_of_pos (by simp [isMoved])]
        exact .cons resolved step ran
      · rw [List.filter_cons_of_neg (by simp [isMoved])]
    | true =>
      have renumbered := Statement.renumbered_of_resolve resolved
      rw [Statement.run_piece_of_free (renumbered.opcode.trans (here isMoved)), renumbered.bases,
        Option.some.injEq] at step
      subst step
      have avoids : ∀ u ∈ ss.filter (!moved ·), u.Avoids s.instr.bases := fun u hu =>
        first u (List.mem_of_mem_filter hu) isMoved
      obtain ⟨a', ran, rfl⟩ := (drop_iff avoids).mp ran
      refine ⟨us, a', ?_, List.subset_cons_of_subset t sub, ?_⟩
      · rwa [List.filter_cons_of_neg (by simp [isMoved])]
      · rw [List.filter_cons_of_pos isMoved, List.flatMap_cons, Arena.drop_drop]

/-! ### Views that stay the same -/

/-- A step leaves the views of a statement whose index arrays it neither writes nor frees. -/
theorem resolve_of_step {u : Statement} (resolved : s.resolve a = .ok t)
    (step : t.piece.act.run a = some a') (arrays : ∀ c ∈ u.instr.indexBases,
      (a.buffer? c).isSome = true ∧ ¬ s.Outputs c ∧ ¬ s.Frees c) :
    u.resolve a' = u.resolve a ∧ ∀ c ∈ u.instr.indexBases, (a'.buffer? c).isSome = true := by
  have renumbered := Statement.renumbered_of_resolve resolved
  have same : ∀ c ∈ u.instr.indexBases, a'.buffer? c = a.buffer? c := by
    intro c hc
    obtain ⟨allocated, unwritten, unfreed⟩ := arrays c hc
    refine Statement.buffer?_of_step step ?_ ?_ allocated
    · rwa [Statement.Outputs.renumbered renumbered]
    · rwa [Statement.Frees.renumbered renumbered]
  refine ⟨Statement.resolve_congr same, fun c hc => ?_⟩
  rw [same c hc]
  exact (arrays c hc).1

theorem not_frees_of_avoids {u : Statement}
    (h : s.instr.opcode = .free → u.Avoids s.instr.bases) (indexed : c ∈ u.instr.indexBases) :
    ¬ s.Frees c :=
  fun ⟨free, named⟩ => (h free c named).1 indexed

/-- If no statement writes index arrays of later ones, all can be resolved at the beginning. -/
theorem resolve_first (h : Stepwise a ss ts a')
    (allocated : ∀ s ∈ ss, ∀ c ∈ s.instr.indexBases, (a.buffer? c).isSome = true)
    (unwritten : ss.Pairwise fun s u => ∀ c ∈ u.instr.indexBases, ¬ s.Outputs c)
    (freed : Statement.UnaccessedAfterFree ss) :
    List.Forall₂ (fun s t => s.resolve a = .ok t) ss ts := by
  induction h with
  | nil => exact .nil
  | @cons a a₁ a' s t ss ts resolved step later ih =>
    have ⟨here, others⟩ := List.forall_mem_cons.mp allocated
    have ⟨unwritten, unwrittenRest⟩ := List.pairwise_cons.mp unwritten
    have ⟨freed, freedRest⟩ := List.pairwise_cons.mp freed
    have same : ∀ u ∈ ss, u.resolve a₁ = u.resolve a ∧
        ∀ c ∈ u.instr.indexBases, (a₁.buffer? c).isSome = true := fun u hu =>
      resolve_of_step resolved step fun c hc =>
        ⟨others u hu c hc, unwritten u hu c hc, not_frees_of_avoids (freed u hu) hc⟩
    refine .cons resolved ?_
    have rest := ih (fun u hu => (same u hu).2) unwrittenRest freedRest
    rw [List.forall₂_iff_get] at rest ⊢
    refine ⟨rest.1, fun k hk hk' => ?_⟩
    rw [← (same _ (List.get_mem ss ⟨k, hk⟩)).1]
    exact rest.2 k hk hk'

/-- Steady statements stay so in each step, and their views stay the same. -/
theorem steady_of_step {u : Statement} (resolved : s.resolve a = .ok t)
    (step : t.piece.act.run a = some a') (steady : u.Steady a (s :: ss))
    (freed : s.instr.opcode = .free → u.Avoids s.instr.bases) :
    u.resolve a' = u.resolve a ∧ u.Steady a' ss := by
  have ⟨same, allocated⟩ := resolve_of_step (u := u) resolved step fun c hc =>
    ⟨(steady c hc).1, (steady c hc).2 s List.mem_cons_self, not_frees_of_avoids freed hc⟩
  refine ⟨same, fun c hc => ⟨allocated c hc, fun w hw => ?_⟩⟩
  exact (steady c hc).2 w (List.mem_cons_of_mem s hw)

/-- A steady statement is resolved to what it is at the beginning. -/
theorem exists_of_steady {f : Statement} (h : Stepwise a ss ts a') (member : f ∈ ss)
    (steady : f.Steady a ss) (freed : Statement.UnaccessedAfterFree ss) :
    ∃ t ∈ ts, f.resolve a = .ok t := by
  induction h with
  | nil => contradiction
  | @cons a a₁ a' s t ss ts resolved step later ih =>
    have ⟨first, rest⟩ := List.pairwise_cons.mp freed
    rcases List.mem_cons.mp member with rfl | member
    · exact ⟨t, List.mem_cons_self, resolved⟩
    · have ⟨same, steady⟩ := steady_of_step resolved step steady (first f member)
      obtain ⟨t', ht', resolved'⟩ := ih member steady rest
      exact ⟨t', List.mem_cons_of_mem t ht', same ▸ resolved'⟩

/-- Frees can be put in front of statements that do not access their bases, if their own views are
steady. -/
theorem putBack {moved : Statement → Bool}
    (free : ∀ f ∈ ss, moved f = true → f.instr.opcode = .free)
    (freed : Statement.UnaccessedAfterFree ss)
    (steady : ∀ f ∈ ss, moved f = true → f.Steady a ss ∧ ∃ t ∈ vs, f.resolve a = .ok t)
    (h : Stepwise a (ss.filter (!moved ·)) us a') :
    ∃ ts, Stepwise a ss ts (a'.drop ((ss.filter moved).flatMap (·.instr.bases))) ∧
      ts ⊆ us ++ vs := by
  induction ss generalizing a a' us with
  | nil =>
    cases h
    refine ⟨[], ?_, List.nil_subset _⟩
    rw [List.filter_nil, List.flatMap_nil, drop_nil]
    exact .nil _
  | cons s ss ih =>
    have ⟨here, others⟩ := List.forall_mem_cons.mp free
    have ⟨first, rest⟩ := List.pairwise_cons.mp freed
    have later : ∀ {t a₁}, s.resolve a = .ok t → t.piece.act.run a = some a₁ →
        ∀ f ∈ ss, moved f = true → f.Steady a₁ ss ∧ ∃ t ∈ vs, f.resolve a₁ = .ok t := by
      intro t a₁ resolved step f hf isMoved
      obtain ⟨arrays, t', ht', found⟩ := steady f (List.mem_cons_of_mem s hf) isMoved
      have ⟨same, arrays⟩ := steady_of_step resolved step arrays (first f hf)
      exact ⟨arrays, t', ht', same ▸ found⟩
    cases isMoved : moved s with
    | false =>
      rw [List.filter_cons_of_pos (by simp [isMoved])] at h
      rw [List.filter_cons_of_neg (by simp [isMoved])]
      cases h with
      | @cons _ a₁ _ _ t _ us resolved step h =>
        obtain ⟨ts, ran, sub⟩ := ih others rest (later resolved step) h
        refine ⟨t :: ts, .cons resolved step ran, ?_⟩
        exact List.cons_subset_cons t sub
    | true =>
      rw [List.filter_cons_of_neg (by simp [isMoved])] at h
      rw [List.filter_cons_of_pos isMoved, List.flatMap_cons, ← Arena.drop_drop]
      obtain ⟨-, t, ht, resolved⟩ := steady s List.mem_cons_self isMoved
      have renumbered := Statement.renumbered_of_resolve resolved
      have step : t.piece.act.run a = some (a.drop s.instr.bases) := by
        rw [Statement.run_piece_of_free (renumbered.opcode.trans (here isMoved)), renumbered.bases]
      have avoids : ∀ u ∈ ss.filter (!moved ·), u.Avoids s.instr.bases := fun u hu =>
        first u (List.mem_of_mem_filter hu) (here isMoved)
      obtain ⟨ts, ran, sub⟩ := ih others rest (later resolved step)
        ((drop_iff avoids).mpr ⟨a', h, rfl⟩)
      refine ⟨t :: ts, .cons resolved step ran, List.cons_subset.mpr ⟨?_, sub⟩⟩
      exact List.mem_append_right us ht

end Stepwise

end ArrayFusion
