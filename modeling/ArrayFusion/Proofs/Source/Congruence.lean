import ArrayFusion.Proofs.Nest.Related
import ArrayFusion.Proofs.Source.Alike

/-!
# Kernels that are written alike

Two kernels of one form whose loops and instructions are shown alike, with symbols that are shown
alike, have the same source. The code of a loop is followed part by part: the folds that keep their
results in scalars, the directive, the declarations, the first iteration and the others.
-/

namespace ArrayFusion

/-- The heads of two loops are shown alike, and the loops declare the same scalars. -/
structure LoopHead.Alike (s t : Symbols) (head head' : LoopHead) : Prop where
  rank : head'.rank = head.rank
  size : head'.size = head.size
  sweeps : head'.sweeps.isEmpty = head.sweeps.isEmpty
  scans : head'.sweeps.any (·.instr.opcode.isAccumulate) =
    head.sweeps.any (·.instr.opcode.isAccumulate)
  scalars : (t.scalarTempsOf head'.id).map (fun b => (t.dtype b, t.baseNumber b)) =
    (s.scalarTempsOf head.id).map fun b => (s.dtype b, s.baseNumber b)

/-- Two nests of one form are shown alike. -/
def Nest.Alike (d : Dialect) (s t : Symbols) (R : View → View → Prop) (l l' : Nest) : Prop :=
  l.toNode.Related (LoopHead.Alike s t) (Instruction.Alike d s t R) l'.toNode

theorem toOption_bind_congr {ε α β : Type} {x y : Except ε α} {f g : α → Except ε β}
    (first : y.toOption = x.toOption) (rest : ∀ a, (g a).toOption = (f a).toOption) :
    (y >>= g).toOption = (x >>= f).toOption := by
  rw [toOption_bind, toOption_bind, first, funext rest]

variable {d : Dialect} {s t : Symbols} {R : View → View → Prop} {x y : Scope} {l l' : Nest}
  {i j : Instruction}

namespace Nest.Alike

theorem head (h : l.Alike d s t R l') : l.head.Alike s t l'.head := And.left h

theorem body (h : l.Alike d s t R l') : List.Forall₂
    (Node.Related (LoopHead.Alike s t) (Instruction.Alike d s t R)) l.body l'.body :=
  Node.bodyRelated_iff.mp (And.right h)

theorem statements (h : l.Alike d s t R l') : List.Forall₂
    (fun a b : Statement => a.instr.Alike d s t R b.instr) l.statements l'.statements :=
  Node.BodyRelated.statements _ _ (And.right h)

theorem localStatements (h : l.Alike d s t R l') : List.Forall₂
    (fun a b : Statement => a.instr.Alike d s t R b.instr) l.localStatements l'.localStatements := by
  refine List.rel_filterMap (fun n n' related => ?_) h.body
  cases n <;> cases n' <;> first | exact .none | exact .some related | exact related.elim

theorem isInnermost (h : l.Alike d s t R l') : l'.isInnermost = l.isInnermost :=
  all_eq_of_forall₂ h.body fun _ _ related => by rw [Node.Related.isLoop related]

theorem innerRanks (h : l.Alike d s t R l') :
    l'.subNests.map (·.head.rank) = l.subNests.map (·.head.rank) :=
  map_eq_of_forall₂ (Node.BodyRelated.nests _ _ (And.right h)) fun _ _ inner => inner.1.rank

end Nest.Alike

/-! ## Folds along a loop -/

theorem Nest.sweepsAlong_alike (h : i.Alike d s t R j) (rank : Int) (p q : Option Nat) :
    Nest.sweepsAlong rank ⟨j, q⟩ = Nest.sweepsAlong rank ⟨i, p⟩ := by
  rw [Nest.sweepsAlong, Nest.sweepsAlong, h.axis]

namespace Scope

theorem isKept_alike (symbols : s.Alike t R) (scope : x.Alike s t R y) (h : i.Alike d s t R j) :
    y.isKept j = x.isKept i := by
  have output := h.outputIsScalar symbols
  rw [isKept, isKept, h.opcode]
  refine congrArg (i.opcode.isReduction && ·) ?_
  simp only [isScalarTemp, scope.symbols, scope.symbols']
  generalize i.outputBase? = b at output
  generalize j.outputBase? = c at output
  cases b <;> cases c <;> simp_all

/-- Folds along a loop that are chosen alike. -/
theorem folds_alike (rank : Int) {ss ss' : List Statement} {p q : Instruction → Bool}
    (statements : List.Forall₂ (fun a b : Statement => a.instr.Alike d s t R b.instr) ss ss')
    (same : ∀ i j, i.Alike d s t R j → q j = p i) :
    List.Forall₂ (Instruction.Alike d s t R)
      (((ss.filter (Nest.sweepsAlong rank)).map (·.instr)).filter p)
      (((ss'.filter (Nest.sweepsAlong rank)).map (·.instr)).filter q) := by
  have along := forall₂_filter statements (p := Nest.sweepsAlong rank) (q := Nest.sweepsAlong rank)
    fun a b related => Nest.sweepsAlong_alike related rank a.place b.place
  exact forall₂_filter (List.forall₂_map_left_iff.mpr (List.forall₂_map_right_iff.mpr along)) same

theorem keptFolds_alike (symbols : s.Alike t R) (scope : x.Alike s t R y)
    (h : l.Alike d s t R l') :
    List.Forall₂ (Instruction.Alike d s t R) (x.keptFolds l) (y.keptFolds l') := by
  rw [keptFolds, keptFolds, h.head.rank]
  exact folds_alike _ h.localStatements fun i j related => isKept_alike symbols scope related

theorem keptFolds_isKept (symbols : s.Alike t R) (scope : x.Alike s t R y) (h : l.Alike d s t R l') :
    List.Forall₂ (fun i j => x.isKept i = true ∧ i.Alike d s t R j)
      (x.keptFolds l) (y.keptFolds l') :=
  (List.forall₂_and_left _ _).mpr
    ⟨fun _ fold => (List.mem_filter.mp fold).2, keptFolds_alike symbols scope h⟩

theorem sharedFolds_alike (symbols : s.Alike t R) (scope : x.Alike s t R y)
    (h : l.Alike d s t R l') :
    List.Forall₂ (Instruction.Alike d s t R) (x.sharedFolds l) (y.sharedFolds l') := by
  rw [sharedFolds, sharedFolds, h.head.rank]
  refine List.rel_flatMap h.body fun n n' related => ?_
  refine folds_alike _ (Node.Related.statements n n' related) fun i j instrs => ?_
  rw [instrs.opcode, Node.Related.isLoop related, isKept_alike symbols scope instrs]

end Scope

namespace Dialect

theorem operandType?_alike (h : i.Alike d s t R j) :
    (j.operandType? 0).getD .bool = (i.operandType? 0).getD .bool := by
  rw [h.types 0 (by decide)]

theorem foldProtection_alike (h : i.Alike d s t R j) : d.foldProtection j = d.foldProtection i := by
  rw [foldProtection, foldProtection, h.opcode, operandType?_alike h]

/-- The scalar of a fold is combined alike. -/
theorem combination?_alike (symbols : s.Alike t R) (scope : x.Alike s t R y)
    (h : i.Alike d s t R j) (kept : x.isKept i = true) :
    d.combination? y j = d.combination? x i := by
  have operands := h.operands
  rw [Scope.isKept, Instruction.outputBase?, Bool.and_eq_true] at kept
  rw [combination?, combination?, h.opcode]
  generalize i.operands = vs at operands kept
  generalize j.operands = ws at operands
  cases operands with
  | nil => simp at kept
  | @cons v w vs ws related rest =>
    cases symbols.views v w related with
    | constant base => simp [base] at kept
    | array base base' name scalar number dtype =>
      cases i.opcode with
      | reduce op =>
        dsimp only
        rw [dtype, Symbols.scalarName, scope.symbols', number, ← scope.symbols]
        rfl
      | _ => rfl

theorem clauses_alike (symbols : s.Alike t R) (scope : x.Alike s t R y)
    (h : l.Alike d s t R l') :
    (y.keptFolds l').filterMap (d.combination? y) = (x.keptFolds l).filterMap (d.combination? x) :=
  filterMap_eq_of_forall₂ (Scope.keptFolds_isKept symbols scope h) fun _ _ ⟨kept, related⟩ =>
    combination?_alike symbols scope related kept

/-- The host runs both loops alike. -/
theorem directive_alike (symbols : s.Alike t R) (scope : x.Alike s t R y)
    (h : l.Alike d s t R l') : d.directive y l' = d.directive x l := by
  have folds := (Scope.keptFolds_alike symbols scope h).length_eq
  rw [directive, directive, clauses_alike symbols scope h, ← folds, h.innerRanks, h.isInnermost,
    h.head.rank, h.head.scans, h.head.sweeps]

theorem guards_alike (symbols : s.Alike t R) (scope : x.Alike s t R y) (h : l.Alike d s t R l') :
    List.Forall₂ (fun p q => R p.1 q.1 ∧ q.2 = p.2) (d.guards x l) (d.guards y l') := by
  rw [guards, guards, directive_alike symbols scope h]
  split
  · refine List.rel_filterMap (fun i j related => ?_) (Scope.sharedFolds_alike symbols scope h)
    rw [List.head?_eq_getElem?, List.head?_eq_getElem?]
    have output := forall₂_getElem? related.operands 0
    generalize i.operands[0]? = v at output
    generalize j.operands[0]? = w at output
    cases output with
    | none => exact .none
    | some views => exact .some ⟨views, foldProtection_alike related⟩
  · exact .nil

/-! ## Declarations -/

/-- An element belongs to a base that no scalar stands for. -/
theorem exists_base_of_isElement {v : View} {k : Nat} (h : x.isElement i k v = true) :
    ∃ b, v.base = some b ∧ x.symbols.isScalarTemp b = false := by
  rw [Scope.isElement] at h
  cases base : v.base with
  | none => simp [base] at h
  | some b =>
    exact ⟨b, rfl, by simp_all [Scope.isScalarTemp]⟩

theorem indexTexts_alike (symbols : s.Alike t R) (scope : x.Alike s t R y)
    (h : l.Alike d s t R l') : indexTexts y l' = indexTexts x l := by
  refine flatMap_eq_of_forall₂ h.localStatements fun a b related => ?_
  apply map_filter_eq_of_forall₂ (forall₂_zipIdx related.operands 0)
  · rintro ⟨v, k⟩ ⟨w, k'⟩ ⟨views, rfl⟩
    exact isElement_alike symbols scope related views _
  · rintro ⟨v, k⟩ ⟨w, k'⟩ ⟨views, rfl⟩ element
    obtain ⟨c, base, array⟩ := exists_base_of_isElement element
    rw [scope.symbols] at array
    simp only [scope.symbols, scope.symbols',
      IndexExpr.ofOperand_alike symbols related views base array]

/-- Both bodies get the same variables. -/
theorem indexVariables_alike (scope : x.Alike s t R y) (es : List String) :
    (indexVariables x es).1.Alike s t R (indexVariables y es).1 ∧
      (indexVariables y es).2 = (indexVariables x es).2 := by
  induction es generalizing x y with
  | nil => exact ⟨scope, rfl⟩
  | cons e es ih =>
    rw [indexVariables, indexVariables, scope.indexVar? e]
    cases x.indexVar? e with
    | some name => exact ih scope
    | none =>
      obtain ⟨added, name⟩ := scope.addIndexVar e
      obtain ⟨inner, rest⟩ := ih added
      exact ⟨inner, by dsimp only; rw [rest, name]⟩

/-- Both loops declare the same scalars. -/
theorem tempDeclarations_alike {head head' : LoopHead} (h : head.Alike s t head') :
    d.tempDeclarations t head'.id = d.tempDeclarations s head.id := by
  have declared : ∀ (u : Symbols) (id : Nat), d.tempDeclarations u id =
      ((u.scalarTempsOf id).map fun b => (u.dtype b, u.baseNumber b)).mapM fun p =>
        Code.declaration <$> d.declaration p.1 s!"t{p.2}" := by
    intro u id
    rw [tempDeclarations, List.mapM_map]
    rfl
  rw [declared, declared, h.scalars]

/-! ## Loops -/

/-- Code of the parts of two loop bodies, which is the same in scopes with the same names. -/
def PartsAlike (s t : Symbols) (R : View → View → Prop)
    (parts parts' : Scope → Except Fault (List Code)) : Prop :=
  ∀ x y : Scope, x.Alike s t R y → (parts' y).toOption = (parts x).toOption

variable {parts parts' : Scope → Except Fault (List Code)}

theorem loopBody_alike (symbols : s.Alike t R) (scope : x.Alike s t R y) (h : l.Alike d s t R l')
    (same : PartsAlike s t R parts parts') :
    (d.loopBody y l' parts').toOption = (d.loopBody x l parts).toOption := by
  obtain ⟨x', y', indices, left, right, inner⟩ : ∃ x' y' indices,
      (if s.passing.indices then indexVariables x (indexTexts x l) else (x, [])) = (x', indices) ∧
      (if s.passing.indices then indexVariables y (indexTexts x l) else (y, [])) = (y', indices) ∧
        x'.Alike s t R y' := by
    obtain ⟨inner, indices⟩ := indexVariables_alike scope (indexTexts x l)
    cases s.passing.indices with
    | false => exact ⟨x, y, [], rfl, rfl, scope⟩
    | true => exact ⟨_, _, _, rfl, Prod.ext rfl indices, inner⟩
  rw [loopBody, loopBody, scope.symbols, scope.symbols', symbols.passing,
    indexTexts_alike symbols scope h, left, right]
  dsimp only
  rw [inner.symbols, inner.symbols', tempDeclarations_alike h.head]
  apply toOption_bind_congr rfl
  intro temps
  exact toOption_bind_congr (same x' y' inner) fun body => rfl

/-- Two folds that keep their results in scalars of the same names, with their outputs. -/
structure KeptAlike (d : Dialect) (x y : Scope) (s t : Symbols) (R : View → View → Prop)
    (p q : Instruction × View) : Prop where
  instr : p.1.Alike d s t R q.1
  output : R p.2 q.2
  scalar : y.symbols.scalarName q.2 = x.symbols.scalarName p.2

theorem keptOutputs_alike (symbols : s.Alike t R) (scope : x.Alike s t R y)
    (h : l.Alike d s t R l') : List.Forall₂ (KeptAlike d x y s t R)
      ((x.keptFolds l).filterMap fun i => i.operands.head?.map fun out => (i, out))
      ((y.keptFolds l').filterMap fun i => i.operands.head?.map fun out => (i, out)) := by
  refine List.rel_filterMap (fun i j ⟨own, related⟩ => ?_)
    (Scope.keptFolds_isKept symbols scope h)
  have operands := related.operands
  rw [Scope.isKept, Instruction.outputBase?, Bool.and_eq_true] at own
  generalize hvs : i.operands = vs at operands own
  generalize hws : j.operands = ws at operands
  cases operands with
  | nil => exact .none
  | @cons v w vs ws views rest =>
    refine .some ⟨related, views, ?_⟩
    cases symbols.views v w views with
    | constant base => simp [base] at own
    | array base base' name scalar number =>
      rw [Symbols.scalarName, Symbols.scalarName, scope.symbols, scope.symbols', number]

section KeptAlike

variable {ps qs : List (Instruction × View)} (kept : List.Forall₂ (KeptAlike d x y s t R) ps qs)

include kept

/-- The scalars of folds are declared alike. -/
theorem keptDeclarations_alike :
    qs.mapM (fun q => Code.declaration <$>
        d.declaration ((q.1.operandType? 0).getD .bool) (y.symbols.scalarName q.2)) =
      ps.mapM fun p => Code.declaration <$>
        d.declaration ((p.1.operandType? 0).getD .bool) (x.symbols.scalarName p.2) :=
  mapM_eq_of_forall₂ kept fun p q same => by rw [operandType?_alike same.instr, same.scalar]

/-- The results of folds are stored alike. -/
theorem keptResults_alike (symbols : s.Alike t R) (scope : x.Alike s t R y) :
    qs.map (fun q =>
        Code.statement (d.operandText y q.1 0 q.2 ++ " = " ++ y.symbols.scalarName q.2)) =
      ps.map fun p =>
        Code.statement (d.operandText x p.1 0 p.2 ++ " = " ++ x.symbols.scalarName p.2) :=
  map_eq_of_forall₂ kept fun p q same => by
    rw [operandText_alike symbols scope same.instr same.output, same.scalar]

end KeptAlike

theorem foldScope_alike (symbols : s.Alike t R) (scope : x.Alike s t R y) (h : l.Alike d s t R l')
    {gs gs' : List (View × Protection)}
    (guards : List.Forall₂ (fun p q => R p.1 q.1 ∧ q.2 = p.2) gs gs') :
    (foldScope x l gs).Alike s t R (foldScope y l' gs') := by
  have outputs : List.Forall₂ R ((x.keptFolds l).filterMap (·.operands.head?))
      ((y.keptFolds l').filterMap (·.operands.head?)) := by
    refine List.rel_filterMap (fun i j related => ?_) (Scope.keptFolds_alike symbols scope h)
    rw [List.head?_eq_getElem?, List.head?_eq_getElem?]
    exact forall₂_getElem? related.operands 0
  rw [foldScope, foldScope, h.head.rank]
  refine List.rel_foldl (P := Scope.Alike s t R) ?_ ?_ guards
  · rintro a b inner ⟨v, p⟩ ⟨w, q⟩ ⟨views, rfl⟩
    exact inner.guard views _
  · refine List.rel_foldl (R := R) (P := Scope.Alike s t R) ?_ (scope.child l.head.rank) outputs
    intro a b inner v w views
    exact inner.replace views

/-- Loops that are shown alike become the same code. -/
theorem loopCode_alike (symbols : s.Alike t R) (scope : x.Alike s t R y) (h : l.Alike d s t R l')
    (same : PartsAlike s t R parts parts') :
    (d.loopCode y l' parts').toOption = (d.loopCode x l parts).toOption := by
  have opening : (foldScope x l []).Alike s t R (foldScope y l' []) :=
    foldScope_alike symbols scope h .nil
  have remaining := foldScope_alike symbols scope h (guards_alike symbols scope h)
  have kept := keptOutputs_alike symbols scope h
  rw [loopCode, loopCode, h.head.size, isEmpty_eq_of_forall₂ h.statements, h.head.rank,
    scope.threadedRanks, h.head.sweeps, directive_alike symbols scope h]
  dsimp only
  rw [keptDeclarations_alike kept, keptResults_alike kept symbols scope, isEmpty_eq_of_forall₂ kept]
  by_cases nothing : l.head.size ≤ 0 ∨ l.statements.isEmpty = true ∨ l.head.rank < 0
  · rw [if_pos nothing, if_pos nothing]
  rw [if_neg nothing, if_neg nothing]
  by_cases threaded : l.head.rank.toNat < x.threadedRanks
  · rw [if_pos threaded, if_pos threaded]
    apply toOption_bind_congr rfl
    intro index
    exact toOption_bind_congr (loopBody_alike symbols (scope.child _) h same) fun body => rfl
  rw [if_neg threaded, if_neg threaded]
  have first := loopBody_alike symbols (opening.openAxis l.head.rank.toNat) h same
  have others := loopBody_alike symbols remaining h same
  apply toOption_bind_congr rfl
  intro declarations
  cases l.head.sweeps.isEmpty with
  | false =>
    apply toOption_bind_congr first
    intro body
    show (if (1 : Int) < l.head.size then _ else _ : Except Fault (List Code)).toOption =
      (if (1 : Int) < l.head.size then _ else _ : Except Fault (List Code)).toOption
    split
    · exact toOption_bind_congr others fun body => rfl
    · rfl
  | true =>
    show (if (0 : Int) < l.head.size then _ else _ : Except Fault (List Code)).toOption =
      (if (0 : Int) < l.head.size then _ else _ : Except Fault (List Code)).toOption
    split
    · exact toOption_bind_congr others fun body => rfl
    · rfl

/-! ## Kernels -/

mutual

/-- Nodes that are shown alike become the same code. -/
theorem nodeCode_alike (symbols : s.Alike t R) : (n n' : Node) →
    n.Related (LoopHead.Alike s t) (Instruction.Alike d s t R) n' →
    ∀ x y : Scope, x.Alike s t R y → (d.nodeCode y n').toOption = (d.nodeCode x n).toOption
  | .leaf _ _, .leaf _ _, h, _, _, scope => statement_alike symbols scope h
  | .loop _ body, .loop _ body', h, _, _, scope =>
      loopCode_alike symbols scope h (bodyCode_alike symbols body body' h.2)
  | .loop .., .leaf .., h, _, _, _ | .leaf .., .loop .., h, _, _, _ => h.elim

theorem bodyCode_alike (symbols : s.Alike t R) : (body body' : List Node) →
    Node.BodyRelated (LoopHead.Alike s t) (Instruction.Alike d s t R) body body' →
    PartsAlike s t R (d.bodyCode · body) (d.bodyCode · body')
  | [], [], _, _, _, _ => rfl
  | n :: body, n' :: body', h, x, y, scope => by
      apply toOption_bind_congr (nodeCode_alike symbols n n' h.1 x y scope)
      intro first
      exact toOption_bind_congr (bodyCode_alike symbols body body' h.2 x y scope) fun rest => rfl
  | [], _ :: _, h, _, _, _ | _ :: _, [], h, _, _, _ => h.elim

end

theorem kernelCode_alike (symbols : s.Alike t R) (scope : x.Alike s t R y) {k k' : Nest}
    (h : k.Alike d s t R k') : (d.kernelCode y k').toOption = (d.kernelCode x k).toOption := by
  rw [kernelCode, kernelCode, scope.symbols, scope.symbols', tempDeclarations_alike h.head]
  apply toOption_bind_congr rfl
  intro temps
  exact toOption_bind_congr (bodyCode_alike symbols _ _ (And.right h) x y scope) fun body => rfl

end Dialect

end ArrayFusion
