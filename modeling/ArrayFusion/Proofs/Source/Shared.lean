import ArrayFusion.Proofs.Fusion.Isolation
import ArrayFusion.Proofs.Source.Inside
import ArrayFusion.Proofs.Source.Threads

/-!
# Loops that several threads share

The threads that run a loop write to the same arrays where folds run along the loop. A loop is only
shared if no scan runs along it and if every fold along it is taken care of: a fold that is kept in
a scalar has a clause that combines this scalar over the threads, and all that the body does to the
result is to accumulate in the scalar; any other fold has guards, and every statement of the body
that updates its output is protected, at any depth. That no other statement gets at the output is
what fusion ensures, so the statements to look at are those of the folds themselves. They are found
by their origins, and the scopes of their origins are inside of the scope of the loop body.

This is about the source that is written. How compilers carry out clauses and protection is left to
them.
-/

namespace ArrayFusion

/-- Instruction that a statement belongs to. -/
def Origin.instr? : Origin → Option Instruction
  | .computed _ i | .stored _ i _ => some i
  | .located .. => none

/-- The statement updates the output of a fold: it belongs to the fold, or its own output shares an
address with that of the fold or is addressed by values on the same base. -/
def Origin.Updates (i : Instruction) (out : View) (o : Origin) : Prop :=
  ∃ j, o.instr? = some j ∧ (j = i ∨ ∃ w b, j.operands.head? = some w ∧ w.base = some b ∧
    out.base = some b ∧ (j.isIndirect 0 = true ∨ ∃ x ∈ out.addresses, x ∈ w.addresses))

open Code (Serial)

namespace Dialect

variable {d : Dialect} {s : Scope} {l : Nest}

/-- Origins of the statements that several threads run: those of the loop body behind the opening
iteration. -/
def sharedOrigins (d : Dialect) (s : Scope) (l : Nest) : List Origin :=
  loopBodyOrigins (foldScope s l (d.guards s l)) l fun s => bodyOrigins d s l.body

/-- The fold is kept in a scalar, a clause combines this scalar over the threads, and the loop body
accumulates in it. -/
structure Combines (d : Dialect) (s : Scope) (l : Nest) (i : Instruction) (op : Fold)
    (out : View) : Prop where
  kept : i ∈ s.keptFolds l
  clause : ∃ c, d.target.combination? op = some c ∧
    .combined c (s.symbols.scalarName out) ∈ (d.directive s l).clauses
  written : ∃ s', .computed s' i ∈ d.sharedOrigins s l
  accumulates : ∀ s', .computed s' i ∈ d.sharedOrigins s l → ∃ types input, d.computation s' i =
    .ok (d.operation (.binary op.operation) types
      [s.symbols.scalarName out, s.symbols.scalarName out, input])

/-- The output of the fold has guards, and every statement of the loop body that updates it is
protected. -/
structure Protects (d : Dialect) (s : Scope) (l : Nest) (i : Instruction) (out : View) : Prop where
  guarded : ∃ p, (out, p) ∈ d.guards s l
  updates : ∀ o ∈ d.sharedOrigins s l, o.Updates i out →
    ∃ p text, d.originCode o = .ok [.guarded p text]

/-- Several threads can share the iterations of a loop: it is outermost, no scan runs along it, and
every fold along it is combined or protected. -/
structure Shares (d : Dialect) (s : Scope) (l : Nest) : Prop where
  rank : l.head.rank = 0
  scans : ∀ t ∈ l.statements, t.instr.sweepAxis? = some 0 → t.instr.opcode.isAccumulate = false
  folds : ∀ t ∈ l.statements, ∀ op out, t.instr.opcode = .reduce op →
    t.instr.sweepAxis? = some 0 → t.instr.operands.head? = some out →
      d.Combines s l t.instr op out ∨ d.Protects s l t.instr out

/-- A fold joins the result so far with its input, unless the iteration is the first one. -/
theorem sweepText_fold {i : Instruction} {op : Binary} {axis : Nat} {text : Option String}
    {out : View} (h : d.sweepText s i op axis = .ok text) (later : s.isOpening axis = false)
    (fold : i.opcode.isAccumulate = false) (output : i.operands.head? = some out) :
    ∃ types input, d.sweepText s i op axis = .ok (d.operation (.binary op) types
      [d.operandText s i 0 out, d.operandText s i 0 out, input]) := by
  have result : d.resultText s i axis = .ok (d.operandText s i 0 out) := by
    obtain ⟨rest, operands⟩ := List.head?_eq_some_iff.mp output
    rw [resultText, operands]
    simp only [fold, Bool.false_eq_true, if_false]
  have first : (d.operandTexts s i).head? = some (d.operandText s i 0 out) := by
    obtain ⟨rest, operands⟩ := List.head?_eq_some_iff.mp output
    rw [operandTexts, operands, List.mapIdx_cons, List.head?_cons]
  rw [sweepText] at h ⊢
  split at h
  next out' input rest outType inputType types texts types =>
    rw [texts, List.head?_cons, Option.some.injEq] at first
    rw [later, result, first]
    exact ⟨_, input, rfl⟩
  next =>
    rw [later, result] at h
    contradiction

/-- A kept fold is written as a join of its scalar. -/
theorem computation_kept {i : Instruction} {op : Fold} {out : View} {text : Option String}
    {axis : Nat} (h : d.computation s i = .ok text) (fold : i.opcode = .reduce op)
    (along : i.sweepAxis? = some axis) (later : s.isOpening axis = false)
    (output : i.operands.head? = some out) (kept : s.isKept i = true)
    (replaced : s.isReplaced out = true) : ∃ types input, d.computation s i =
      .ok (d.operation (.binary op.operation) types
        [s.symbols.scalarName out, s.symbols.scalarName out, input]) := by
  have computes : d.computation s i = d.sweepText s i op.operation axis := by
    rw [computation, fold, along]
  have scalar : d.operandText s i 0 out = s.symbols.scalarName out := by
    rw [Scope.isKept, Instruction.outputBase?, output, Option.bind_some] at kept
    cases base : out.base with
    | none =>
      rw [base, Option.any_none, Bool.and_false] at kept
      contradiction
    | some b =>
      rw [base, Option.any_some, Bool.and_eq_true, Bool.not_eq_true'] at kept
      simp only [operandText, base, kept.2, replaced, Bool.false_eq_true, if_false, if_true]
  rw [computes] at h ⊢
  rw [← scalar]
  exact sweepText_fold h later (by rw [fold]; rfl) output

/-- What stands directly in a body is written there. -/
theorem computed_mem_bodyOrigins {t : Statement} {rank : Int} {body : List Node}
    (ht : .leaf t rank ∈ body) (s : Scope) : .computed s t.instr ∈ bodyOrigins d s body := by
  induction body with
  | nil => contradiction
  | cons n body ih =>
    rw [bodyOrigins, List.mem_append]
    obtain rfl | ht := List.mem_cons.mp ht
    · exact .inl (List.mem_singleton_self _)
    · exact .inr (ih ht)

/-- What is written for an origin is part of the code. -/
theorem Traces.originCode {origins : List Origin} {body : List Code} (h : d.Traces origins body)
    {o : Origin} (ho : o ∈ origins) : ∃ code, d.originCode o = .ok code := by
  obtain ⟨written, made, -⟩ := h
  obtain ⟨code, -, found⟩ := exists_of_forall₂ made.flip ho
  exact ⟨code, found⟩

/-- A fold that is not kept in a scalar has guards. -/
theorem mem_guards {t : Statement} {op : Fold} {out : View}
    (parallel : (d.directive s l).parallel = true) (ht : t ∈ l.statements)
    (along : Nest.sweepsAlong l.head.rank t = true) (fold : t.instr.opcode = .reduce op)
    (output : t.instr.operands.head? = some out) (shared : t.instr ∉ s.keptFolds l) :
    ∃ p, (out, p) ∈ d.guards s l := by
  rw [Nest.statements, Node.bodyStatements_eq_flatMap, List.mem_flatMap] at ht
  obtain ⟨n, hn, ht⟩ := ht
  have reduction : t.instr.opcode.isReduction = true := by rw [fold]; rfl
  have apart : (n.isLoop || !s.isKept t.instr) = true := by
    cases n with
    | loop head body => rfl
    | leaf t' rank =>
      obtain rfl := List.mem_singleton.mp ht
      rw [Bool.or_eq_true, Bool.not_eq_true']
      refine .inr (Bool.eq_false_iff.mpr fun kept => shared ?_)
      rw [Scope.keptFolds, List.mem_filter, List.mem_map]
      exact ⟨⟨t, List.mem_filter.mpr ⟨Nest.mem_localStatements.mpr ⟨rank, hn⟩, along⟩, rfl⟩, kept⟩
  have member : t.instr ∈ s.sharedFolds l := by
    rw [Scope.sharedFolds, List.mem_flatMap]
    refine ⟨n, hn, List.mem_filter.mpr ⟨?_, ?_⟩⟩
    · exact List.mem_map_of_mem (List.mem_filter.mpr ⟨ht, along⟩)
    · rw [reduction, apart]
      rfl
  refine ⟨d.foldProtection t.instr, ?_⟩
  rw [guards, if_pos parallel, List.mem_filterMap]
  exact ⟨t.instr, member, by rw [output]; rfl⟩

/-- A kept fold of a loop that several threads run has a clause. -/
theorem mem_clauses {i : Instruction} {op : Fold} {out : View}
    (parallel : (d.directive s l).parallel = true) (kept : i ∈ s.keptFolds l)
    (fold : i.opcode = .reduce op) (output : i.operands.head? = some out) :
    ∃ c, d.target.combination? op = some c ∧
      .combined c (s.symbols.scalarName out) ∈ (d.directive s l).clauses := by
  obtain ⟨rest, operands⟩ := List.head?_eq_some_iff.mp output
  obtain ⟨clause, found⟩ := Option.isSome_iff_exists.mp ((parallel_directive parallel).2.2 i kept)
  have combined := found
  rw [combination?, fold, operands] at combined
  dsimp only at combined
  split at combined
  · contradiction
  obtain ⟨c, operation, rfl⟩ := Option.map_eq_some_iff.mp combined
  refine ⟨c, operation, ?_⟩
  rw [directive, List.mem_append, List.mem_filterMap]
  exact .inr ⟨i, kept, found⟩

/-- A statement that updates the output of a fold along a loop belongs to the fold. -/
theorem updates_own {outer : List Int} (layout : l.toNode.Layout outer) (rank : l.head.rank = 0)
    {t : Statement} (ht : t ∈ l.statements) (along : t.instr.sweepAxis? = some 0) {out : View}
    (output : t.instr.operands.head? = some out) {s' : Scope} {o : Origin}
    (within : o.Within s' l.statements) (updates : o.Updates t.instr out) :
    ∃ s'', s'.Inside s'' ∧ o = .computed s'' t.instr := by
  have other : ∀ t' ∈ l.statements, t'.instr ≠ t.instr → ∀ w b,
      t'.instr.operands.head? = some w → w.base = some b → out.base = some b →
      ¬ (t'.instr.isIndirect 0 = true ∨ ∃ x ∈ out.addresses, x ∈ w.addresses) := by
    intro t' ht' different w b output' base' base shared
    obtain ⟨i, hi⟩ := List.getElem?_of_mem ht
    obtain ⟨j, hj⟩ := List.getElem?_of_mem ht'
    have apart : i ≠ j := by
      rintro rfl
      exact different (congrArg _ (Option.some.inj (hj.symm.trans hi)))
    have keeps := Nest.keepsOutputFrom_of_layout layout hi hj apart along (by rw [rank]; rfl)
    rw [List.head?_eq_getElem?] at output output'
    obtain ⟨direct, disjoint⟩ := keeps out output 0 w output' (by rw [View.isConstant, base']; rfl)
      (base'.trans base.symm)
    obtain indirect | ⟨x, hx, hx'⟩ := shared
    · exact Bool.false_ne_true (direct.symm.trans indirect)
    · exact disjoint x hx hx'
  obtain ⟨j, found, same⟩ := updates
  cases o with
  | computed s'' i =>
    obtain rfl := Option.some.inj found
    obtain ⟨inside, t', ht', rfl⟩ := within
    by_cases own : t'.instr = t.instr
    · exact ⟨s'', inside, by rw [own]⟩
    · obtain ⟨w, b, output', base', base, shared⟩ := same.resolve_left own
      exact (other t' ht' own w b output' base' base shared).elim
  | stored s'' i w' =>
    obtain rfl := Option.some.inj found
    obtain ⟨-, t', ht', rfl, rank', deep, along'⟩ := within
    by_cases own : t'.instr = t.instr
    · -- A fold runs along one loop only.
      rw [Nest.sweepsAlong, own, along, beq_iff_eq] at along'
      exact (deep along'.symm).elim
    · obtain ⟨w, b, output', base', base, shared⟩ := same.resolve_left own
      exact (other t' ht' own w b output' base' base shared).elim
  | located name index => contradiction

/-- Scopes of the origins are inside of the scope of the loop body. -/
theorem within_sharedOrigins {outer : List Int} (layout : l.toNode.Layout outer) :
    ∀ o ∈ d.sharedOrigins s l, o.Within (foldScope s l (d.guards s l)) l.statements :=
  within_loopBodyOrigins (.refl _) (within_bodyOrigins l.body (Nest.inner_rank_ne_zero layout))

section Shared

variable {outer : List Int} {body : List Code} {t : Statement} {op : Fold} {out : View}
  (layout : l.toNode.Layout outer) (parallel : (d.directive s l).parallel = true)
  (traces : d.Traces (d.sharedOrigins s l) body) (fold : t.instr.opcode = .reduce op)
  (along : t.instr.sweepAxis? = some 0) (output : t.instr.operands.head? = some out)

include layout parallel traces fold along output

/-- A fold that is kept in a scalar is combined over the threads. -/
theorem combines_of_kept (later : s.isOpening 0 = false) (kept : t.instr ∈ s.keptFolds l) :
    d.Combines s l t.instr op out := by
  refine ⟨kept, mem_clauses parallel kept fold output, ?_, fun s' member => ?_⟩
  · obtain ⟨t', ht', same, -⟩ := mem_keptFolds kept
    obtain ⟨rank, hn⟩ := Nest.mem_localStatements.mp ht'
    rw [← same]
    exact ⟨_, List.mem_append_right _ (computed_mem_bodyOrigins hn _)⟩
  · obtain ⟨inside, -⟩ := within_sharedOrigins layout _ member
    obtain ⟨code, written⟩ := traces.originCode member
    obtain ⟨idle, -⟩ | ⟨text, computed, -⟩ := statement_eq_ok written
    · rw [fold] at idle
      contradiction
    obtain ⟨-, -, -, -, scalar⟩ := mem_keptFolds kept
    have first : s'.isOpening 0 = false := by
      refine Bool.eq_false_iff.mpr fun first => ?_
      have opened := (isOpening_foldScope s l _ 0).symm.trans (inside.opening first)
      exact Bool.false_ne_true (later.symm.trans opened)
    have same : s'.symbols = s.symbols := inside.symbols.trans (symbols_foldScope s l _)
    rw [← same]
    refine computation_kept computed fold along first output ?_
      (inside.replaced out (isReplaced_foldScope s l _ kept output))
    simpa only [Scope.isKept, Scope.isScalarTemp, same] using scalar

/-- The updates of any other fold are protected. -/
theorem protects_of_shared (ht : t ∈ l.statements) (shared : t.instr ∉ s.keptFolds l) :
    d.Protects s l t.instr out := by
  have rank := (parallel_directive parallel).1
  obtain ⟨p, member⟩ := mem_guards parallel ht (Nest.sweepsAlong_zero rank along) fold output shared
  refine ⟨⟨p, member⟩, fun o ho updates => ?_⟩
  have within := within_sharedOrigins layout o ho
  obtain ⟨s', inside, rfl⟩ := updates_own layout rank ht along output within updates
  obtain ⟨code, written⟩ := traces.originCode ho
  obtain ⟨q, protection⟩ := Option.isSome_iff_exists.mp (protection?_foldScope s l member)
  have known : protection? s' t.instr = some q := by
    rw [protection?, fold, output]
    exact (inside.protection out).trans protection
  obtain ⟨idle, -⟩ | ⟨text, -, rfl⟩ := statement_eq_ok written
  · rw [fold] at idle
    contradiction
  · rw [known] at written
    exact ⟨q, text, written⟩

end Shared

/-- Several threads can share the iterations of a loop that they run. -/
theorem shares_of_layout {outer : List Int} {body : List Code} (layout : l.toNode.Layout outer)
    (parallel : (d.directive s l).parallel = true) (later : s.isOpening 0 = false)
    (traces : d.Traces (d.sharedOrigins s l) body) : d.Shares s l := by
  obtain ⟨rank, scans, -⟩ := parallel_directive parallel
  refine ⟨rank, fun t ht along => ?_, fun t ht op out fold along output => ?_⟩
  · refine scans t ?_
    rw [(Nest.records_of_layout layout).sweeps]
    exact List.mem_filter.mpr ⟨ht, Nest.sweepsAlong_zero rank along⟩
  by_cases kept : t.instr ∈ s.keptFolds l
  · exact .inl (combines_of_kept layout parallel traces fold along output later kept)
  · exact .inr (protects_of_shared layout parallel traces fold along output ht kept)

/-! ## Written kernels -/

/-- Text that is followed by more still contains its parts. -/
theorem exists_append_right {text inner : String}
    (h : ∃ before behind, text = before ++ inner ++ behind) (more : String) :
    ∃ before behind, text ++ more = before ++ inner ++ behind := by
  obtain ⟨before, behind, rfl⟩ := h
  exact ⟨before, behind ++ more, String.append_assoc⟩

theorem exists_append_left (before inner : String) :
    ∃ before' behind, before ++ inner = before' ++ inner ++ behind :=
  ⟨before, "", String.append_empty.symm⟩

theorem openmpKernel_eq_ok {symbols : Symbols} {kernel : Nest} {text : String}
    (h : d.openmpKernel symbols kernel = .ok text) : ∃ code,
      d.kernelCode (.root symbols 0) kernel = .ok code ∧
        ∃ before behind, text = before ++ Code.text d 1 code ++ behind := by
  rw [openmpKernel] at h
  split at h
  · contradiction
  obtain ⟨arrays, -, h⟩ := exists_of_bind_eq_ok h
  obtain ⟨temps, -, h⟩ := exists_of_bind_eq_ok h
  obtain ⟨code, made, h⟩ := exists_of_bind_eq_ok h
  cases h
  refine ⟨code, made, ?_⟩
  iterate 6 refine exists_append_right ?_ _
  exact exists_append_left _ _

theorem fortranKernel_eq_ok {symbols : Symbols} {kernel : Nest} {text : String}
    (h : d.fortranKernel symbols kernel = .ok text) : ∃ code,
      d.kernelCode (.root symbols 0) kernel = .ok code ∧
        ∃ before behind, text = before ++ Code.text d 2 code ++ behind := by
  obtain ⟨arrays, -, h⟩ := exists_of_bind_eq_ok h
  obtain ⟨temps, -, h⟩ := exists_of_bind_eq_ok h
  obtain ⟨constants, -, h⟩ := exists_of_bind_eq_ok h
  obtain ⟨code, made, h⟩ := exists_of_bind_eq_ok h
  cases h
  refine ⟨code, made, ?_⟩
  iterate 3 refine exists_append_right ?_ _
  exact exists_append_left _ _

/-- The source of a kernel contains the code of its loops. -/
theorem write_eq_ok {kernel : Nest} {passing : Passing} {source : KernelSource}
    (h : d.write kernel passing = .ok source) : ∃ depth code,
      d.kernelCode (.root source.symbols source.threads.length) kernel = .ok code ∧
        ∃ before behind, source.text = before ++ Code.text d depth code ++ behind := by
  by_cases device : d.target.isDevice = true
  · obtain ⟨-, heading, code, made, text⟩ := write_device_eq_ok device h
    exact ⟨1, code, made, heading, _, text⟩
  obtain ⟨text, written, h⟩ := exists_of_bind_eq_ok h
  cases h
  cases target : d.target with
  | openmp =>
    rw [kernelText, target] at written
    obtain ⟨code, made, text⟩ := openmpKernel_eq_ok written
    exact ⟨1, code, by rwa [threadStack, target], text⟩
  | fortran =>
    rw [kernelText, target] at written
    obtain ⟨code, made, text⟩ := fortranKernel_eq_ok written
    exact ⟨2, code, by rwa [threadStack, target], text⟩
  | opencl | cuda =>
    rw [target] at device
    exact (device rfl).elim

/-- Every loop that several threads run shares its iterations among them. -/
theorem shares_of_nodeCode {outer : List Int} {code body : List Code} {x : Directive} {rank : Nat}
    {start size : Int} (layout : l.toNode.Layout outer) (later : s.isOpening 0 = false)
    (made : d.nodeCode s l.toNode = .ok code)
    (member : .loop x rank start size body ∈ Code.partsIn code) (parallel : x.parallel = true) :
    rank = 0 ∧ x = d.directive s l ∧ d.Traces (d.sharedOrigins s l) body ∧ d.Shares s l := by
  have serial : ∀ s' code, d.bodyCode s' l.body = .ok code → Serial code :=
    fun _ _ made => serial_bodyCode l.body (Nest.inner_rank_ne_zero layout) made
  obtain ⟨body', same, inside⟩ := parallel_loopCode serial member parallel made
  cases same
  have traces : d.Traces (d.sharedOrigins s l) body :=
    traces_loopBody (fun _ _ made => traces_bodyCode l.body made) inside
  refine ⟨?_, rfl, traces, shares_of_layout layout parallel later traces⟩
  rw [(parallel_directive parallel).1]
  rfl

/-- The code of a body consists of the code of its nodes. -/
theorem bodyCode_eq_ok {body : List Node} {code : List Code} (h : d.bodyCode s body = .ok code) :
    ∃ codes, List.Forall₂ (fun n code => d.nodeCode s n = .ok code) body codes ∧
      code = codes.flatten := by
  induction body generalizing code with
  | nil =>
    cases h
    exact ⟨[], .nil, rfl⟩
  | cons n body ih =>
    obtain ⟨first, made, h⟩ := exists_of_bind_eq_ok h
    obtain ⟨rest, made', h⟩ := exists_of_bind_eq_ok h
    cases h
    obtain ⟨codes, each, rfl⟩ := ih made'
    exact ⟨first :: codes, .cons made each, rfl⟩

end Dialect

end ArrayFusion
