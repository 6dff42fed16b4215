import ArrayFusion.Proofs.Lists
import ArrayFusion.Source.Kernel

/-!
# Origins of statements

Every statement of a kernel comes from an instruction, from a fold that kept its result in a scalar,
or from an index that is kept in a variable. The list of origins repeats the recursion over the
nest, with the scope of each statement, and the statements of the code are exactly what is written
for the origins, in the same order. What is said of the origins of a loop body is so said of every
statement in it, at any depth.
-/

namespace ArrayFusion

namespace Code

mutual

/-- A part of code with all parts inside. -/
def parts : Code → List Code
  | statement text => [.statement text]
  | declaration line => [.declaration line]
  | guarded p text => [.guarded p text]
  | indexSetting rank value => [.indexSetting rank value]
  | block comment body => .block comment body :: partsIn body
  | scope body => .scope body :: partsIn body
  | loop x rank start size body => .loop x rank start size body :: partsIn body
  | threaded rank index size body => .threaded rank index size body :: partsIn body

/-- All parts of a body. -/
def partsIn : List Code → List Code
  | [] => []
  | c :: body => c.parts ++ partsIn body

end

/-- A statement with its protection, if there is any. -/
def protectedBy : Option Protection → String → Code
  | some p, text => guarded p text
  | none, text => statement text

/-- A statement, protected or not. -/
def isStatement : Code → Bool
  | statement _ | guarded .. => true
  | _ => false

/-- The statements of a body, at any depth and in order. -/
def statements (body : List Code) : List Code := (partsIn body).filter isStatement

theorem partsIn_append (first second : List Code) :
    partsIn (first ++ second) = partsIn first ++ partsIn second := by
  induction first with
  | nil => rfl
  | cons c first ih => rw [List.cons_append, partsIn, partsIn, ih, List.append_assoc]

@[simp] theorem partsIn_scope (body : List Code) :
    partsIn [.scope body] = .scope body :: partsIn body := by
  simp [partsIn, parts]

@[simp] theorem partsIn_block (comment : String) (body : List Code) :
    partsIn [.block comment body] = .block comment body :: partsIn body := by
  simp [partsIn, parts]

@[simp] theorem partsIn_loop (x : Directive) (rank : Nat) (start size : Int) (body : List Code) :
    partsIn [.loop x rank start size body] = .loop x rank start size body :: partsIn body := by
  simp [partsIn, parts]

@[simp] theorem partsIn_threaded (rank : Nat) (index : String) (size : Int) (body : List Code) :
    partsIn [.threaded rank index size body] = .threaded rank index size body :: partsIn body := by
  simp [partsIn, parts]

@[simp] theorem partsIn_indexSetting (rank : Nat) (value : String) (body : List Code) :
    partsIn (.indexSetting rank value :: body) = .indexSetting rank value :: partsIn body := rfl

theorem statements_append (first second : List Code) :
    statements (first ++ second) = statements first ++ statements second := by
  rw [statements, partsIn_append, List.filter_append, statements, statements]

@[simp] theorem statements_scope (body : List Code) :
    statements [.scope body] = statements body := by
  simp [statements, isStatement]

@[simp] theorem statements_block (comment : String) (body : List Code) :
    statements [.block comment body] = statements body := by
  simp [statements, isStatement]

@[simp] theorem statements_loop (x : Directive) (rank : Nat) (start size : Int)
    (body : List Code) : statements [.loop x rank start size body] = statements body := by
  simp [statements, isStatement]

@[simp] theorem statements_threaded (rank : Nat) (index : String) (size : Int)
    (body : List Code) : statements [.threaded rank index size body] = statements body := by
  simp [statements, isStatement]

@[simp] theorem statements_indexSetting (rank : Nat) (value : String) (body : List Code) :
    statements (.indexSetting rank value :: body) = statements body := by
  simp [statements, isStatement]

/-- Declarations, and nothing else. -/
def Declares (body : List Code) : Prop := ∀ c ∈ body, ∃ line, c = .declaration line

theorem declares_nil : Declares [] := fun _ member => (List.not_mem_nil member).elim

theorem Declares.partsIn {body : List Code} (h : Declares body) : partsIn body = body := by
  induction body with
  | nil => rfl
  | cons c body ih =>
    obtain ⟨line, rfl⟩ := h c List.mem_cons_self
    rw [Code.partsIn, ih fun c hc => h c (List.mem_cons_of_mem _ hc), parts]
    rfl

theorem Declares.statements {body : List Code} (h : Declares body) : statements body = [] := by
  rw [Code.statements, h.partsIn, List.filter_eq_nil_iff]
  intro c hc
  obtain ⟨line, rfl⟩ := h c hc
  exact Bool.false_ne_true

theorem Declares.append {first second : List Code} (h : Declares first) (h' : Declares second) :
    Declares (first ++ second) := fun c hc => (List.mem_append.mp hc).elim (h c) (h' c)

end Code

open Code

/-- Where a statement of a kernel comes from: an instruction that is written in a scope, a fold that
keeps its result in a scalar and stores it, or an index that is kept in a variable. -/
inductive Origin where
  | computed (s : Scope) (i : Instruction)
  | stored (s : Scope) (i : Instruction) (out : View)
  | located (name index : String)

namespace Dialect

variable {d : Dialect} {s : Scope}

/-- What is written. -/
def originCode (d : Dialect) : Origin → Except Fault (List Code)
  | .computed s i => d.statement s i
  | .stored s i out =>
    .ok [.statement (d.operandText s i 0 out ++ " = " ++ s.symbols.scalarName out)]
  | .located name index => .ok [.statement (name ++ " = " ++ index)]

/-- Scope of a loop body with its index variables. -/
def named (s : Scope) (l : Nest) : Scope × List (String × String) :=
  if s.symbols.passing.indices then indexVariables s (indexTexts s l) else (s, [])

/-- Statements that give index variables their values. -/
def settings (indices : List (String × String)) : List Code :=
  indices.map fun (name, e) => .statement (name ++ " = " ++ e)

/-- First index of a loop behind its opening iteration. -/
def firstIndex (l : Nest) : Int := if l.head.sweeps.isEmpty then 0 else 1

/-- Folds that keep their results in scalars, with their outputs. -/
def keptOutputs (s : Scope) (l : Nest) : List (Instruction × View) :=
  (s.keptFolds l).filterMap fun i => i.operands.head?.map fun out => (i, out)

/-- Origins of the statements of a loop body. -/
def loopBodyOrigins (s : Scope) (l : Nest) (parts : Scope → List Origin) : List Origin :=
  (named s l).2.map (fun index => .located index.1 index.2) ++ parts (named s l).1

/-- Origins of the statements of the opening iteration of a loop, if it has one. -/
def openingOrigins (s : Scope) (l : Nest) (parts : Scope → List Origin) : List Origin :=
  if l.head.sweeps.isEmpty then []
  else loopBodyOrigins ((foldScope s l []).openAxis l.head.rank.toNat) l parts

/-- Origins of the statements of the other iterations, if there are any. -/
def remainingOrigins (d : Dialect) (s : Scope) (l : Nest) (parts : Scope → List Origin) :
    List Origin :=
  if firstIndex l < l.head.size then loopBodyOrigins (foldScope s l (d.guards s l)) l parts else []

/-- Origins of the statements of a loop. -/
def loopOrigins (d : Dialect) (s : Scope) (l : Nest) (parts : Scope → List Origin) : List Origin :=
  if l.head.size ≤ 0 ∨ l.statements.isEmpty ∨ l.head.rank < 0 then []
  else if l.head.rank.toNat < s.threadedRanks then
    loopBodyOrigins (s.child l.head.rank) l parts
  else
    openingOrigins s l parts ++ d.remainingOrigins s l parts ++
      (keptOutputs s l).map fun kept => .stored s kept.1 kept.2

mutual

/-- Origins of the statements of a node. -/
def nodeOrigins (d : Dialect) (s : Scope) : Node → List Origin
  | .leaf stmt _ => [.computed s stmt.instr]
  | .loop head body => d.loopOrigins s ⟨head, body⟩ fun s => bodyOrigins d s body

/-- Origins of the statements of the nodes of a body. -/
def bodyOrigins (d : Dialect) (s : Scope) : List Node → List Origin
  | [] => []
  | n :: body => nodeOrigins d s n ++ bodyOrigins d s body

end

/-- The statements of a body are what is written for the origins, in this order. -/
def Traces (d : Dialect) (origins : List Origin) (body : List Code) : Prop :=
  ∃ written, List.Forall₂ (fun o code => d.originCode o = .ok code) origins written ∧
    Code.statements body = written.flatten

theorem Traces.append {first second : List Origin} {body body' : List Code}
    (h : d.Traces first body) (h' : d.Traces second body') :
    d.Traces (first ++ second) (body ++ body') := by
  obtain ⟨written, made, same⟩ := h
  obtain ⟨written', made', same'⟩ := h'
  exact ⟨written ++ written', List.rel_append made made',
    by rw [statements_append, same, same', List.flatten_append]⟩

theorem Traces.congr {origins : List Origin} {body body' : List Code} (h : d.Traces origins body)
    (same : Code.statements body' = Code.statements body) : d.Traces origins body' := by
  obtain ⟨written, made, all⟩ := h
  exact ⟨written, made, same.trans all⟩

theorem Traces.of_declares {body : List Code} (h : Declares body) : d.Traces [] body :=
  ⟨[], .nil, h.statements⟩

/-- One statement for each of some things. -/
theorem Traces.map {α : Type} {origin : α → Origin} {text : α → String}
    (made : ∀ x, d.originCode (origin x) = .ok [.statement (text x)]) (xs : List α) :
    d.Traces (xs.map origin) (xs.map fun x => .statement (text x)) := by
  induction xs with
  | nil => exact ⟨[], .nil, rfl⟩
  | cons x xs ih =>
    have first : d.Traces [origin x] [.statement (text x)] :=
      ⟨[[.statement (text x)]], .cons (made x) .nil, rfl⟩
    exact first.append ih

/-! ## What an instruction and a loop become -/

/-- An instruction becomes one statement at most. -/
theorem statement_eq_ok {i : Instruction} {code : List Code} (h : d.statement s i = .ok code) :
    (i.opcode.isSystem || i.opcode.isExtension) = true ∧ code = [] ∨
    ∃ text, d.computation s i = .ok (some text) ∧
      code = [.protectedBy (protection? s i) text] := by
  rw [statement] at h
  split at h
  next idle =>
    cases h
    exact .inl ⟨idle, rfl⟩
  next =>
    obtain ⟨text, computed, h⟩ := exists_of_bind_eq_ok h
    cases text with
    | none => contradiction
    | some text =>
      refine .inr ⟨text, computed, ?_⟩
      dsimp only at h
      cases protection : protection? s i with
      | none | some p =>
        rw [protection] at h
        cases h
        rfl

theorem statements_statement {i : Instruction} {code : List Code}
    (h : d.statement s i = .ok code) : Code.statements code = code := by
  obtain ⟨-, rfl⟩ | ⟨text, -, rfl⟩ := statement_eq_ok h
  · rfl
  · cases protection? s i <;> rfl

theorem declares_of_mapM {α : Type} {xs : List α} {f : α → Except Fault String}
    {code : List Code} (h : (xs.mapM fun x => Code.declaration <$> f x) = .ok code) :
    Declares code := by
  intro c hc
  obtain ⟨x, -, made⟩ := exists_of_forall₂ (forall₂_of_mapM h) hc
  cases line : f x with
  | error e =>
    rw [line] at made
    contradiction
  | ok text =>
    rw [line] at made
    cases made
    exact ⟨text, rfl⟩

/-- A loop body declares its variables, sets its indices and goes on with its parts. -/
theorem loopBody_split {l : Nest} {parts : Scope → Except Fault (List Code)} {code : List Code}
    (h : d.loopBody s l parts = .ok code) : ∃ heading body, Declares heading ∧
      parts (named s l).1 = .ok body ∧
      (code = heading ++ settings (named s l).2 ++ body ∨
        code = [.scope (heading ++ settings (named s l).2 ++ body)]) := by
  have same : d.loopBody s l parts = (do
      let temps ← d.tempDeclarations (named s l).1.symbols l.head.id
      let body ← parts (named s l).1
      let heading := temps ++
        ((named s l).2.map fun (name, _) => Code.declaration (d.indexDeclaration name)) ++
        settings (named s l).2
      pure (if heading.isEmpty then body else [.scope (heading ++ body)])) := rfl
  rw [same] at h
  obtain ⟨temps, declared, h⟩ := exists_of_bind_eq_ok h
  obtain ⟨body, made, h⟩ := exists_of_bind_eq_ok h
  have declarations : Declares ((named s l).2.map fun (name, _) =>
      Code.declaration (d.indexDeclaration name)) := by
    intro c hc
    obtain ⟨index, -, rfl⟩ := List.mem_map.mp hc
    exact ⟨_, rfl⟩
  refine ⟨_, body, (declares_of_mapM declared).append declarations, made, ?_⟩
  dsimp only at h
  split at h
  next none =>
    cases h
    rw [List.isEmpty_iff.mp none]
    exact .inl rfl
  next =>
    cases h
    exact .inr rfl

/-- What runs the first iteration of a loop on its own, if there are folds or scans along it. -/
def opening (d : Dialect) (s : Scope) (l : Nest) (parts : Scope → Except Fault (List Code)) :
    Except Fault (List Code) :=
  if l.head.sweeps.isEmpty then pure []
  else do
    let body ← d.loopBody ((foldScope s l []).openAxis l.head.rank.toNat) l parts
    pure [.block "Peeled loop, 1. sweep iteration" (.indexSetting l.head.rank.toNat "0" :: body)]

/-- What runs the other iterations, if there are any. -/
def remaining (d : Dialect) (s : Scope) (l : Nest) (parts : Scope → Except Fault (List Code)) :
    Except Fault (List Code) :=
  if firstIndex l < l.head.size then do
    let body ← d.loopBody (foldScope s l (d.guards s l)) l parts
    pure [.loop (d.directive s l) l.head.rank.toNat (firstIndex l) l.head.size body]
  else pure []

/-- What stores the results of the folds that keep them in scalars. -/
def results (d : Dialect) (s : Scope) (kept : List (Instruction × View)) : List Code :=
  kept.map fun (i, out) =>
    .statement (d.operandText s i 0 out ++ " = " ++ s.symbols.scalarName out)

/-- A loop that has something to do and is not run by hardware threads opens, goes on and stores its
results. -/
theorem loopCode_eq (d : Dialect) (s : Scope) (l : Nest)
    (parts : Scope → Except Fault (List Code)) : d.loopCode s l parts =
      if l.head.size ≤ 0 ∨ l.statements.isEmpty ∨ l.head.rank < 0 then .ok []
      else if l.head.rank.toNat < s.threadedRanks then do
        let index ← d.threadIndex l.head.rank.toNat
        let body ← d.loopBody (s.child l.head.rank) l parts
        pure [.threaded l.head.rank.toNat index l.head.size body]
      else (do
        let declarations ← (keptOutputs s l).mapM fun (i, out) => Code.declaration <$>
          d.declaration ((i.operandType? 0).getD .bool) (s.symbols.scalarName out)
        let opening ← d.opening s l parts
        let remaining ← d.remaining s l parts
        pure (if (keptOutputs s l).isEmpty then opening ++ remaining
          else [.block "Scalar replaced reductions"
            (declarations ++ opening ++ remaining ++ d.results s (keptOutputs s l))])) := by
  rw [loopCode]
  split
  · rfl
  dsimp only
  split
  · rfl
  refine congrArg (Bind.bind _) (funext fun declarations => ?_)
  have finish : ∀ opening remaining : List Code, (if (keptOutputs s l).isEmpty = true then
      pure (opening ++ remaining) else pure [.block "Scalar replaced reductions"
        (declarations ++ opening ++ remaining ++ d.results s (keptOutputs s l))]) =
      (pure (if (keptOutputs s l).isEmpty then opening ++ remaining
        else [.block "Scalar replaced reductions"
          (declarations ++ opening ++ remaining ++ d.results s (keptOutputs s l))]) :
        Except Fault (List Code)) := by
    intro opening remaining
    split <;> rfl
  -- With and without an opening iteration, there may be no other one.
  by_cases empty : l.head.sweeps.isEmpty = true
  all_goals
    simp only [opening, remaining, firstIndex, empty, Bool.not_true, Bool.not_false, if_true,
      Bool.false_eq_true, if_false, pure_bind, bind_assoc]
  · split
    · rw [bind_assoc]
      exact congrArg (Bind.bind _) (funext fun body => finish [] _)
    · exact finish [] []
  · refine congrArg (Bind.bind _) (funext fun first => ?_)
    split
    · rw [bind_assoc]
      exact congrArg (Bind.bind _) (funext fun body => finish _ _)
    · exact finish _ []

/-! ## What the code of a loop can be -/

theorem opening_eq_ok {l : Nest} {parts : Scope → Except Fault (List Code)} {code : List Code}
    (h : d.opening s l parts = .ok code) : (l.head.sweeps.isEmpty = true ∧ code = []) ∨
      ¬ l.head.sweeps.isEmpty = true ∧ ∃ body,
        d.loopBody ((foldScope s l []).openAxis l.head.rank.toNat) l parts = .ok body ∧
        code = [.block "Peeled loop, 1. sweep iteration"
          (.indexSetting l.head.rank.toNat "0" :: body)] := by
  rw [opening] at h
  split at h
  next empty =>
    cases h
    exact .inl ⟨empty, rfl⟩
  next sweeps =>
    obtain ⟨body, made, h⟩ := exists_of_bind_eq_ok h
    cases h
    exact .inr ⟨sweeps, body, made, rfl⟩

theorem remaining_eq_ok {l : Nest} {parts : Scope → Except Fault (List Code)} {code : List Code}
    (h : d.remaining s l parts = .ok code) : (¬ firstIndex l < l.head.size ∧ code = []) ∨
      firstIndex l < l.head.size ∧ ∃ body,
        d.loopBody (foldScope s l (d.guards s l)) l parts = .ok body ∧
        code = [.loop (d.directive s l) l.head.rank.toNat (firstIndex l) l.head.size body] := by
  rw [remaining] at h
  split at h
  next more =>
    obtain ⟨body, made, h⟩ := exists_of_bind_eq_ok h
    cases h
    exact .inr ⟨more, body, made, rfl⟩
  next none =>
    cases h
    exact .inl ⟨none, rfl⟩

/-- A loop has nothing to do, or it is run by hardware threads, or it opens, goes on and stores its
results. -/
theorem loopCode_eq_ok {l : Nest} {parts : Scope → Except Fault (List Code)} {code : List Code}
    (h : d.loopCode s l parts = .ok code) :
    ((l.head.size ≤ 0 ∨ l.statements.isEmpty = true ∨ l.head.rank < 0) ∧ code = []) ∨
    ¬ (l.head.size ≤ 0 ∨ l.statements.isEmpty = true ∨ l.head.rank < 0) ∧
      ((l.head.rank.toNat < s.threadedRanks ∧ ∃ index body,
        d.loopBody (s.child l.head.rank) l parts = .ok body ∧
        code = [.threaded l.head.rank.toNat index l.head.size body]) ∨
      ¬ l.head.rank.toNat < s.threadedRanks ∧ ∃ declarations first rest,
        Code.Declares declarations ∧ d.opening s l parts = .ok first ∧
        d.remaining s l parts = .ok rest ∧
        code = if (keptOutputs s l).isEmpty then first ++ rest
          else [.block "Scalar replaced reductions"
            (declarations ++ first ++ rest ++ d.results s (keptOutputs s l))]) := by
  rw [loopCode_eq] at h
  split at h
  next idle =>
    cases h
    exact .inl ⟨idle, rfl⟩
  next busy =>
  refine .inr ⟨busy, ?_⟩
  split at h
  next leading =>
    obtain ⟨index, -, h⟩ := exists_of_bind_eq_ok h
    obtain ⟨body, made, h⟩ := exists_of_bind_eq_ok h
    cases h
    exact .inl ⟨leading, index, body, made, rfl⟩
  next deep =>
    obtain ⟨declarations, declared, h⟩ := exists_of_bind_eq_ok h
    obtain ⟨first, opened, h⟩ := exists_of_bind_eq_ok h
    obtain ⟨rest, remained, h⟩ := exists_of_bind_eq_ok h
    exact .inr ⟨deep, declarations, first, rest, declares_of_mapM declared, opened, remained,
      (Except.ok.inj h).symm⟩

/-! ## Origins of statements -/

theorem traces_loopBody {l : Nest} {parts : Scope → Except Fault (List Code)}
    {origins : Scope → List Origin} {code : List Code}
    (each : ∀ s' body, parts s' = .ok body → d.Traces (origins s') body)
    (h : d.loopBody s l parts = .ok code) : d.Traces (loopBodyOrigins s l origins) code := by
  obtain ⟨heading, body, declares, made, same⟩ := loopBody_split h
  have located : d.Traces ((named s l).2.map fun index => .located index.1 index.2)
      (settings (named s l).2) := Traces.map (fun _ => rfl) _
  have all := ((Traces.of_declares declares).append located).append (each _ body made)
  obtain rfl | rfl := same
  · exact all
  · exact all.congr (statements_scope _)

theorem traces_opening {l : Nest} {parts : Scope → Except Fault (List Code)}
    {origins : Scope → List Origin} {code : List Code}
    (each : ∀ s' body, parts s' = .ok body → d.Traces (origins s') body)
    (h : d.opening s l parts = .ok code) : d.Traces (openingOrigins s l origins) code := by
  rw [openingOrigins]
  obtain ⟨empty, rfl⟩ | ⟨sweeps, body, made, rfl⟩ := opening_eq_ok h
  · rw [if_pos empty]
    exact .of_declares declares_nil
  · rw [if_neg sweeps]
    exact (traces_loopBody each made).congr (by simp)

theorem traces_remaining {l : Nest} {parts : Scope → Except Fault (List Code)}
    {origins : Scope → List Origin} {code : List Code}
    (each : ∀ s' body, parts s' = .ok body → d.Traces (origins s') body)
    (h : d.remaining s l parts = .ok code) : d.Traces (d.remainingOrigins s l origins) code := by
  rw [remainingOrigins]
  obtain ⟨none, rfl⟩ | ⟨more, body, made, rfl⟩ := remaining_eq_ok h
  · rw [if_neg none]
    exact .of_declares declares_nil
  · rw [if_pos more]
    exact (traces_loopBody each made).congr (statements_loop ..)

theorem traces_loopCode {l : Nest} {parts : Scope → Except Fault (List Code)}
    {origins : Scope → List Origin} {code : List Code}
    (each : ∀ s' body, parts s' = .ok body → d.Traces (origins s') body)
    (h : d.loopCode s l parts = .ok code) : d.Traces (d.loopOrigins s l origins) code := by
  rw [loopOrigins]
  obtain ⟨idle, rfl⟩ | ⟨busy, ⟨leading, index, body, made, rfl⟩ |
    ⟨deep, declarations, first, rest, declared, opened, remained, same⟩⟩ := loopCode_eq_ok h
  · rw [if_pos idle]
    exact .of_declares declares_nil
  · rw [if_neg busy, if_pos leading]
    exact (traces_loopBody each made).congr (statements_threaded ..)
  rw [if_neg busy, if_neg deep]
  have stored : d.Traces ((keptOutputs s l).map fun kept => .stored s kept.1 kept.2)
      (d.results s (keptOutputs s l)) := Traces.map (fun _ => rfl) _
  have declares : Code.statements declarations = [] := declared.statements
  have all := ((traces_opening each opened).append (traces_remaining each remained)).append stored
  refine all.congr ?_
  rw [same]
  split
  next none =>
    rw [List.isEmpty_iff.mp none]
    exact congrArg Code.statements (List.append_nil _).symm
  next =>
    rw [statements_block, List.append_assoc, List.append_assoc, statements_append, declares,
      List.nil_append, List.append_assoc]

mutual

/-- The statements of a node are what is written for their origins. -/
theorem traces_nodeCode : (n : Node) → {s : Scope} → {code : List Code} →
    d.nodeCode s n = .ok code → d.Traces (nodeOrigins d s n) code
  | .leaf stmt _, s, code, h => by
    exact ⟨[code], .cons h .nil, by rw [List.flatten_singleton, statements_statement h]⟩
  | .loop head body, s, code, h =>
    traces_loopCode (fun _ _ made => traces_bodyCode body made) h

theorem traces_bodyCode : (body : List Node) → {s : Scope} → {code : List Code} →
    d.bodyCode s body = .ok code → d.Traces (bodyOrigins d s body) code
  | [], _, _, h => by
    cases h
    exact .of_declares declares_nil
  | n :: body, s, code, h => by
    obtain ⟨first, made, h⟩ := exists_of_bind_eq_ok h
    obtain ⟨rest, made', h⟩ := exists_of_bind_eq_ok h
    cases h
    exact (traces_nodeCode n made).append (traces_bodyCode body made')

end

end Dialect

end ArrayFusion
