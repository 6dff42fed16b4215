import ArrayFusion.Proofs.Engine.Frees
import ArrayFusion.Proofs.Kernel.Sites

/-!
# Temporaries need no memory outside of their kernel

A program creates a base before it uses it, and frees it afterwards. Fusion keeps statements in
order that depend on one another. So a nest that creates and frees a base holds all uses of it, as
long as these depend on the creation; and a scalar temporary is first written and then read in
every iteration of its loop, as long as the statement that creates it does not read it.
-/

namespace ArrayFusion

namespace Nest

instance (b : BaseId) (s : Statement) : Decidable (Creates b s) :=
  inferInstanceAs (Decidable (s.instr.creates = true ∧ s.instr.outputBase? = some b))

theorem creates_iff_of_similar {b : BaseId} {s t : Statement}
    (h : Instruction.Similar s.instr t.instr) : Creates b t ↔ Creates b s := by
  rw [Creates, Creates, h.creates, h.outputBase?]

end Nest

namespace Instruction

variable {i j : Instruction} {b : BaseId} {v : View}

theorem not_ignores_iff : ¬ i.Ignores b ↔ ∃ v ∈ i.operands, v.base = some b := by
  simp [Ignores]

theorem mentions_of_not_ignores (h : ¬ i.Ignores b) : i.mentions b = true := by
  obtain ⟨v, hv, base⟩ := not_ignores_iff.mp h
  have member : b ∈ i.bases := by
    rw [bases, BaseSet.mem_ofList]
    exact List.mem_filterMap.mpr ⟨v, hv, base⟩
  simp [mentions, member]

theorem dependent_of_outputMeets (hi : i.opcode.isSystem = false) (hj : j.opcode.isSystem = false)
    (meets : i.outputMeets j = true) : i.dependent j = true := by
  have computes : ∀ {k : Instruction}, k.opcode.isSystem = false → (k.opcode == .none) = false := by
    intro k computes
    rw [beq_eq_false_iff_ne]
    rintro none
    rw [none] at computes
    contradiction
  have operands : (i.operands.isEmpty || j.operands.isEmpty) = false := by
    rw [outputMeets, List.any_eq_true] at meets
    obtain ⟨k, -, meets⟩ := meets
    rw [overlap] at meets
    cases hi : i.operands with
    | nil => simp [hi] at meets
    | cons out rest =>
      cases hj : j.operands with
      | nil => simp [hj] at meets
      | cons first others => rfl
  simp [dependent, computes hi, computes hj, hi, hj, operands, meets]

/-- Statements that access a base by one view depend on the one that writes it. -/
theorem dependent_of_accessesBy (hi : i.opcode.isSystem = false) (hj : j.opcode.isSystem = false)
    (wfI : i.WellFormed) (wfJ : j.WellFormed) (accessesI : i.AccessesBy b v)
    (accessesJ : j.AccessesBy b v) (nonempty : 0 < v.elements) (output : i.outputBase? = some b)
    (used : ¬ j.Ignores b) : i.dependent j = true := by
  obtain ⟨out, hout, base⟩ := outputBase?_eq_some_iff.mp output
  obtain ⟨w, hw, base'⟩ := not_ignores_iff.mp used
  obtain ⟨k, hk⟩ := List.getElem?_of_mem hw
  obtain ⟨direct, -, start, axes⟩ := accessesI 0 out hout base
  obtain ⟨direct', -, start', axes'⟩ := accessesJ k w hk base'
  have some : out.elements ≠ 0 := by
    rw [View.elements, View.shape, axes]
    exact nonempty.ne'
  have sizes : ∀ n ∈ out.shape, 1 ≤ n := by
    simpa [View.shape] using View.sizes_pos (wfI out (List.mem_of_getElem? hout)).sizes some
  have first := Shape.inRange_first sizes
  have array := View.isConstant_of_base base
  have array' := View.isConstant_of_base base'
  have met : out.disjoint w = false := by
    refine not_disjoint_of_meet (wfI out (List.mem_of_getElem? hout)) (wfJ w hw) array
      (base.trans base'.symm) first (s := Shape.first out.shape) ?_ ?_
    · rw [View.shape, axes', ← axes]
      exact first
    · rw [start, start', axes', ← axes]
  refine dependent_of_outputMeets hi hj ?_
  rw [outputMeets, List.any_eq_true]
  refine ⟨k, List.mem_range.mpr (List.getElem?_eq_some_iff.mp hk).1, ?_⟩
  simp [overlap, hout, hk, array, array', direct, direct', met]

end Instruction

namespace Fusion

variable {ss : List Statement} {ls : List Nest} {b : BaseId} {l : Nest}

/-- Nothing is computed with the base in front of the statement that creates it. -/
def CreatedFirst (b : BaseId) (ss : List Statement) : Prop :=
  ss.Pairwise fun s t => Nest.Creates b t → s.instr.opcode.isSystem = false →
    s.instr.mentions b = false

instance (b : BaseId) (ss : List Statement) : Decidable (CreatedFirst b ss) :=
  inferInstanceAs (Decidable (ss.Pairwise fun s t => Nest.Creates b t →
    s.instr.opcode.isSystem = false → s.instr.mentions b = false))

/-- One statement stands in front of another one, and their order matters. -/
def Precedes (ss : List Statement) (x y : Statement × Nat) : Prop :=
  x ∈ computing ss ∧ y ∈ computing ss ∧ x.2 < y.2 ∧ x.1.instr.dependent y.1.instr = true

instance (ss : List Statement) (x y : Statement × Nat) : Decidable (Precedes ss x y) :=
  inferInstanceAs (Decidable (x ∈ computing ss ∧ y ∈ computing ss ∧ x.2 < y.2 ∧
    x.1.instr.dependent y.1.instr = true))

/-- Whatever mentions the base behind the statement that creates it depends on this statement, be it
by way of statements between them. -/
def Anchored (b : BaseId) (ss : List Statement) : Prop :=
  ∀ x ∈ computing ss, Nest.Creates b x.1 → ∀ y ∈ computing ss, x.2 < y.2 →
    y.1.instr.mentions b = true → Relation.TransGen (Precedes ss) x y

/-- Fusion has an order of the statements in which dependent ones stand as in the program, and the
nests carry out the statements in this order. -/
theorem Faithful.ordered (h : Faithful ss ls) : ∃ place : Statement × Nat → Nat,
    (∀ x y, Relation.TransGen (Precedes ss) x y → place x < place y) ∧
    (ls.flatMap Nest.statements).Pairwise fun s t => ∃ x ∈ computing ss, ∃ y ∈ computing ss,
      Instruction.Similar x.1.instr s.instr ∧ Instruction.Similar y.1.instr t.instr ∧
        place x < place y := by
  obtain ⟨order, complete, legal, carriedOut⟩ := h.schedule
  have distinct : order.Nodup := by
    refine complete.nodup_iff.mpr ((computing_sorted ss).imp fun {x y} less same => ?_)
    exact less.ne (congrArg Prod.snd same)
  have step : ∀ x y, Precedes ss x y → order.idxOf x < order.idxOf y := by
    rintro x y ⟨hx, hy, before, dependent⟩
    have insideX := List.idxOf_lt_length_of_mem (complete.symm.subset hx)
    have insideY := List.idxOf_lt_length_of_mem (complete.symm.subset hy)
    by_contra behind
    rcases Nat.lt_or_eq_of_le (not_lt.mp behind) with less | same
    · have may := List.pairwise_iff_getElem.mp legal _ _ insideY insideX less
      rw [List.getElem_idxOf, List.getElem_idxOf] at may
      rw [may before] at dependent
      contradiction
    · have equal := (List.idxOf_inj (complete.symm.subset hy)).mp same
      exact before.ne (congrArg Prod.snd equal.symm)
  refine ⟨fun x => order.idxOf x, fun x y chain => ?_, ?_⟩
  · induction chain with
    | single first => exact step _ _ first
    | tail _ last ih => exact ih.trans (step _ _ last)
  · refine List.pairwise_iff_getElem.mpr fun i j hi hj less => ?_
    have hi' : i < order.length := carriedOut.length_eq ▸ hi
    have hj' : j < order.length := carriedOut.length_eq ▸ hj
    obtain ⟨computesX, reshapesX⟩ := carriedOut.get hi' hi
    obtain ⟨computesY, reshapesY⟩ := carriedOut.get hj' hj
    refine ⟨order[i], complete.subset (List.getElem_mem hi'), order[j],
      complete.subset (List.getElem_mem hj'), reshapesX.instr.similar computesX.views,
      reshapesY.instr.similar computesY.views, ?_⟩
    show order.idxOf order[i] < order.idxOf order[j]
    rwa [distinct.idxOf_getElem i hi', distinct.idxOf_getElem j hj']

/-- Other statements that mention a base stand behind the one that creates it. -/
theorem CreatedFirst.lt (h : CreatedFirst b ss) {x y : Statement × Nat} (hx : x ∈ computing ss)
    (hy : y ∈ computing ss) (creates : Nest.Creates b x.1)
    (mentions : y.1.instr.mentions b = true) (apart : x ≠ y) : x.2 < y.2 := by
  obtain ⟨memberX, -⟩ := List.mem_filter.mp hx
  obtain ⟨memberY, computes⟩ := List.mem_filter.mp hy
  obtain ⟨insideX, foundX⟩ := List.getElem?_eq_some_iff.mp (List.mem_zipIdx_iff_getElem?.mp memberX)
  obtain ⟨insideY, foundY⟩ := List.getElem?_eq_some_iff.mp (List.mem_zipIdx_iff_getElem?.mp memberY)
  rcases Nat.lt_trichotomy x.2 y.2 with before | same | behind
  · exact before
  · refine absurd (Prod.ext ?_ same) apart
    rw [← foundX, ← foundY]
    simp only [same]
  · have unmentioned := List.pairwise_iff_getElem.mp h y.2 x.2 insideY insideX behind
    rw [foundX, foundY, mentions] at unmentioned
    exact absurd (unmentioned creates (by simpa using computes)) (by decide)

/-- A nest that creates a base is the first one that accesses it, as long as the later uses depend
on the creation. -/
theorem Faithful.not_accesses_before (h : Faithful ss ls) (created : CreatedFirst b ss)
    (anchored : Anchored b ss) :
    ls.Pairwise fun k l => (∃ s ∈ l.statements, Nest.Creates b s) → ¬ k.Accesses b := by
  obtain ⟨place, precedes, ordered⟩ := h.ordered
  rw [List.pairwise_flatMap] at ordered
  refine ordered.2.imp fun {k l} cross ⟨t, ht, creates⟩ ⟨s, hs, mentions⟩ => ?_
  obtain ⟨x, hx, y, hy, similarX, similarY, less⟩ := cross s hs t ht
  have createsY := (Nest.creates_iff_of_similar similarY).mp creates
  have mentionsX : x.1.instr.mentions b = true := by rwa [← similarX.indistinct.mentions]
  have before : y.2 < x.2 := created.lt hy hx createsY mentionsX (ne_of_apply_ne place less.ne')
  exact Nat.lt_asymm (precedes y x (anchored y hy createsY x hx before mentionsX)) less

/-- A nest writes the bases that it creates before it accesses them by the same view. -/
theorem Faithful.createsFirst (h : Faithful ss ls) (created : CreatedFirst b ss)
    (writes : ∀ s ∈ ss, Nest.Creates b s → s.instr.WritesFirst b) (hl : l ∈ ls) :
    l.CreatesFirst b where
  writes t ht creates := by
    obtain ⟨s, hs, -, similar⟩ := h.statement hl ht
    have source := writes s hs ((Nest.creates_iff_of_similar similar).mp creates)
    refine ⟨creates.2, fun v hv base => ?_⟩
    have bases : some b ∈ s.instr.operands.tail.map (·.base) := by
      rw [List.map_tail, ← similar.indistinct.map_base, ← List.map_tail]
      exact List.mem_map.mpr ⟨v, hv, base⟩
    obtain ⟨w, hw, base'⟩ := List.mem_map.mp bases
    exact source.inputs w hw base'
  first v nonempty accesses := by
    obtain ⟨place, precedes, ordered⟩ := h.ordered
    rw [List.pairwise_flatMap] at ordered
    refine (ordered.1 l hl).imp_of_mem fun {s t} hs ht ⟨x, hx, y, hy, similarX, similarY, less⟩
      creates => ?_
    by_contra used
    have createsY := (Nest.creates_iff_of_similar similarY).mp creates
    have mentionsX : x.1.instr.mentions b = true := by
      rw [← similarX.indistinct.mentions]
      exact Instruction.mentions_of_not_ignores used
    have before : y.2 < x.2 := created.lt hy hx createsY mentionsX (ne_of_apply_ne place less.ne')
    have dependent : y.1.instr.dependent x.1.instr = true := by
      rw [← similarY.indistinct.dependent similarX.indistinct]
      obtain ⟨computesT, -⟩ := Nest.layout_statements (h.laidOut l hl) t ht
      obtain ⟨computesS, -⟩ := Nest.layout_statements (h.laidOut l hl) s hs
      exact Instruction.dependent_of_accessesBy computesT.notSystem computesS.notSystem
        computesT.views computesS.views (accesses t ht) (accesses s hs) nonempty creates.2 used
    exact Nat.lt_asymm (precedes y x (.single ⟨hy, hx, before, dependent⟩)) less

/-- No other nest accesses a temporary of a nest. -/
theorem Faithful.not_accesses (h : Faithful ss ls) (created : CreatedFirst b ss)
    (anchored : Anchored b ss) (unused : UnusedAfterFree b ss) {i j : Nat} {k : Nest}
    (hl : ls[i]? = some l) (hk : ls[j]? = some k) (apart : i ≠ j) (temporary : b ∈ l.allTemps) :
    ¬ k.Accesses b := by
  rw [Nest.allTemps, BaseSet.mem_inter] at temporary
  obtain ⟨frees, news⟩ := temporary
  obtain ⟨hi, rfl⟩ := List.getElem?_eq_some_iff.mp hl
  obtain ⟨hj, rfl⟩ := List.getElem?_eq_some_iff.mp hk
  rw [Nest.mem_allNews_iff (h.laidOut _ (List.getElem_mem hi))] at news
  rcases Nat.lt_or_gt_of_ne apart with behind | before
  · exact List.pairwise_iff_getElem.mp (h.freedLast b unused) i j hi hj behind frees
  · have later := h.not_accesses_before created anchored
    exact List.pairwise_iff_getElem.mp later j i hj hi before news

/-- A kernel runs alike with a scalar in the place of a scalar temporary. -/
theorem Faithful.endsAlike (h : Faithful ss ls) (distinct : (idsOf ls).Nodup)
    (created : CreatedFirst b ss) (writes : ∀ s ∈ ss, Nest.Creates b s → s.instr.WritesFirst b)
    (hl : l ∈ ls) {next : Nat} {passing : Passing} {x : LocalScalar} (same : x.base = b)
    (declared : b ∈ (Symbols.ofKernel (kernel [l] next).1 passing).scalarTempsOf x.loop) (a : Arena)
    (proceeds : ((kernel [l] next).1.run a).1 = .ok () ∨ ∃ base, a.get? b = some base ∧
      0 ≤ (Symbols.ofKernel (kernel [l] next).1 passing).lowest b ∧
        (Symbols.ofKernel (kernel [l] next).1 passing).extent b ≤ base.capacity) :
    Exec.EndsAlike b ((kernel [l] next).1.run a)
      ((kernel [l] next).1.runScalar x (a.withScalar b)) := by
  subst same
  have layout := h.laidOut l hl
  have own : l.ids.Nodup := distinct.sublist (List.sublist_flatten_of_mem (List.mem_map_of_mem hl))
  obtain ⟨v, accesses, localizes⟩ :=
    localizes_of_mem_scalarTempsOf layout own (h.createsFirst created writes hl) declared
  have temporary := (Symbols.of_mem_scalarTempsOf declared).1
  have nodes : ∀ n ∈ (kernel [l] next).1.body,
      n.Layout [] ∧ n.isLoop = true ∧ n.Localizes x v := by
    intro n hn
    obtain rfl : n = l.toNode := List.mem_singleton.mp hn
    exact ⟨layout, rfl, localizes⟩
  refine (Nest.simulates_runScalar temporary nodes).endsAlike (fun c c' => (·.others))
    (.withScalar fun ⟨base, found, lowest, extent⟩ => ⟨base, found, fun y hy => ?_⟩) proceeds
  obtain ⟨s, hs, creates⟩ := exists_creates_of_mem_allTemps layout temporary
  obtain ⟨computes, -⟩ := Nest.layout_statements layout s hs
  obtain ⟨below, above⟩ := Symbols.bounds_of_accessesBy passing
    (by rwa [statements_kernel] : s ∈ (kernel [l] next).1.statements) computes (accesses s hs)
    creates.2 y hy
  exact ⟨lowest.trans below, above.trans_le extent⟩

end Fusion

end ArrayFusion
