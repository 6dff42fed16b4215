import ArrayFusion.Source.Statement

/-!
# Code of loops

A loop with folds or scans along it runs its first iteration on its own, where they copy their
input, and goes on from index one. A fold whose statement stands directly in the loop keeps its
result in a scalar while the loop runs. Loops of host kernels can be run by several threads: then
every such scalar is combined over the threads, and the updates of all other folds along the loop
are protected.
-/

namespace ArrayFusion

namespace Target

/-- Operation that combines the scalars of several threads, if the target has it. -/
def combination? : Target → Fold → Option String
  | .openmp, .add | .fortran, .add => some "+"
  | .openmp, .multiply | .fortran, .multiply => some "*"
  | .openmp, .maximum => some "max"
  | .openmp, .minimum => some "min"
  | .openmp, .bitwiseAnd => some "&"
  | .openmp, .bitwiseOr => some "|"
  | .openmp, .bitwiseXor => some "^"
  | .openmp, .logicalAnd => some "&&"
  | .openmp, .logicalOr => some "||"
  | .fortran, .maximum => some "MAX"
  | .fortran, .minimum => some "MIN"
  | .fortran, .bitwiseAnd => some "IAND"
  | .fortran, .bitwiseOr => some "IOR"
  | .fortran, .bitwiseXor => some "IEOR"
  | _, _ => none

end Target

/-- A processor can apply the operation to memory in one step. -/
def Fold.isSingleStep : Fold → Bool
  | .add | .multiply | .bitwiseAnd | .bitwiseOr | .bitwiseXor => true
  | _ => false

/-- Sorted numbers, each once. -/
def sortedOnce (xs : List Int) : List Int :=
  ((xs.mergeSort fun a b => decide (a ≤ b))).eraseReps

namespace Scope

/-- The fold keeps its result in a scalar if it stands directly in its loop. -/
def isKept (s : Scope) (i : Instruction) : Bool :=
  i.opcode.isReduction && i.outputBase?.any (!s.isScalarTemp ·)

/-- Folds along a loop that keep their results in scalars. -/
def keptFolds (s : Scope) (l : Nest) : List Instruction :=
  ((l.localStatements.filter (Nest.sweepsAlong l.head.rank)).map (·.instr)).filter s.isKept

/-- Folds along a loop that update arrays while the loop runs. -/
def sharedFolds (s : Scope) (l : Nest) : List Instruction :=
  l.body.flatMap fun n =>
    let folds := (n.statements.filter (Nest.sweepsAlong l.head.rank)).map (·.instr)
    folds.filter fun i => i.opcode.isReduction && (n.isLoop || !s.isKept i)

end Scope

namespace Dialect

/-- Clause that combines the scalar of a fold over several threads. -/
def combination? (d : Dialect) (s : Scope) (i : Instruction) : Option Clause :=
  match i.opcode, i.operands with
  | .reduce op, out :: _ =>
    if d.target == .openmp && out.dtype.isComplex then none
    else (d.target.combination? op).map fun c => .combined c (s.symbols.scalarName out)
  | _, _ => none

/-- Protection of the updates of a fold. Only some operations can be carried out in one step. -/
def foldProtection (d : Dialect) (i : Instruction) : Protection :=
  match i.opcode with
  | .reduce op =>
    let type := (i.operandType? 0).getD .bool
    if op.isSingleStep && (d.isFortran || (!type.isComplex && type != .bool)) then .atomic
    else .critical
  | _ => .critical

/-- How the host runs a loop: outermost loops without scans by several threads if every scalar can
be combined, innermost loops without folds and scans along them by wide instructions. -/
def directive (d : Dialect) (s : Scope) (l : Nest) : Directive :=
  let kept := s.keptFolds l
  let clauses := kept.filterMap (d.combination? s)
  let inner := sortedOnce (l.subNests.map (·.head.rank))
  { parallel :=
      !d.target.isDevice && d.threads && l.head.rank == 0 &&
        !l.head.sweeps.any (·.instr.opcode.isAccumulate) && clauses.length == kept.length
    simd := !d.target.isDevice && d.simd && l.isInnermost && l.head.sweeps.isEmpty
    clauses :=
      (if d.isFortran && !inner.isEmpty then [.ownIndices inner] else []) ++ clauses }

/-- Views whose updates are protected while several threads run a loop. -/
def guards (d : Dialect) (s : Scope) (l : Nest) : List (View × Protection) :=
  if (d.directive s l).parallel then
    (s.sharedFolds l).filterMap fun i => i.operands.head?.map fun out => (out, d.foldProtection i)
  else []

/-- Index expressions of the statements directly in a loop. -/
def indexTexts (s : Scope) (l : Nest) : List String :=
  l.localStatements.flatMap fun stmt =>
    (stmt.instr.operands.zipIdx.filter fun (v, k) => s.isElement stmt.instr k v).map fun (v, k) =>
      (IndexExpr.ofOperand s.symbols stmt.instr k v).text

/-- Variables for index expressions, each declared once. -/
def indexVariables (s : Scope) : List String → Scope × List (String × String)
  | [] => (s, [])
  | e :: es =>
    match s.indexVar? e with
    | some _ => indexVariables s es
    | none =>
      let (s, name) := s.addIndexVar e
      let (s, rest) := indexVariables s es
      (s, (name, e) :: rest)

/-- Declarations of the scalar temporaries of a loop. -/
def tempDeclarations (d : Dialect) (s : Symbols) (loop : Nat) : Except Fault (List Code) :=
  (s.scalarTempsOf loop).mapM fun b =>
    Code.declaration <$> d.declaration (s.dtype b) (s.tempName b)

/-- Body of a loop: its declarations, then its parts. -/
def loopBody (d : Dialect) (s : Scope) (l : Nest) (parts : Scope → Except Fault (List Code)) :
    Except Fault (List Code) := do
  let (s, indices) :=
    if s.symbols.passing.indices then indexVariables s (indexTexts s l) else (s, [])
  let temps ← d.tempDeclarations s.symbols l.head.id
  let declarations := indices.map fun (name, _) => Code.declaration (d.indexDeclaration name)
  let settings := indices.map fun (name, e) => Code.statement (name ++ " = " ++ e)
  let body ← parts s
  let heading := temps ++ declarations ++ settings
  pure (if heading.isEmpty then body else [.scope (heading ++ body)])

/-- Scope of a loop body whose folds keep their results in scalars. -/
def foldScope (s : Scope) (l : Nest) (guards : List (View × Protection)) : Scope :=
  let outputs := (s.keptFolds l).filterMap (·.operands.head?)
  let inner := outputs.foldl Scope.replace (s.child l.head.rank)
  guards.foldl (fun s (v, p) => s.guard v p) inner

/-- A loop over an axis, for given code of the parts of its body. -/
def loopCode (d : Dialect) (s : Scope) (l : Nest) (parts : Scope → Except Fault (List Code)) :
    Except Fault (List Code) := do
  if l.head.size ≤ 0 ∨ l.statements.isEmpty ∨ l.head.rank < 0 then return []
  let rank := l.head.rank.toNat
  if rank < s.threadedRanks then
    let index ← d.threadIndex rank
    let body ← d.loopBody (s.child l.head.rank) l parts
    return [.threaded rank index l.head.size body]
  let kept := (s.keptFolds l).filterMap fun i => i.operands.head?.map fun out => (i, out)
  let declarations ← kept.mapM fun (i, out) =>
    Code.declaration <$>
      d.declaration ((i.operandType? 0).getD .bool) (s.symbols.scalarName out)
  let peeled := !l.head.sweeps.isEmpty
  let opening ←
    if peeled then do
      let body ← d.loopBody ((foldScope s l []).openAxis rank) l parts
      pure [Code.block "Peeled loop, 1. sweep iteration" (.indexSetting rank "0" :: body)]
    else pure []
  let start : Int := if peeled then 1 else 0
  let remaining ←
    if start < l.head.size then do
      let body ← d.loopBody (foldScope s l (d.guards s l)) l parts
      pure [Code.loop (d.directive s l) rank start l.head.size body]
    else pure []
  let results := kept.map fun (i, out) =>
    Code.statement (d.operandText s i 0 out ++ " = " ++ s.symbols.scalarName out)
  if kept.isEmpty then return opening ++ remaining
  return [.block "Scalar replaced reductions" (declarations ++ opening ++ remaining ++ results)]

mutual

/-- Code of a node. -/
def nodeCode (d : Dialect) (s : Scope) : Node → Except Fault (List Code)
  | .leaf stmt _ => d.statement s stmt.instr
  | .loop head body => d.loopCode s ⟨head, body⟩ fun s => bodyCode d s body

/-- Code of the nodes of a body. -/
def bodyCode (d : Dialect) (s : Scope) : List Node → Except Fault (List Code)
  | [] => .ok []
  | n :: body => do
    let first ← nodeCode d s n
    let rest ← bodyCode d s body
    pure (first ++ rest)

end

/-- Code of a kernel body. -/
def kernelCode (d : Dialect) (s : Scope) (kernel : Nest) : Except Fault (List Code) := do
  let temps ← d.tempDeclarations s.symbols kernel.head.id
  let body ← d.bodyCode s kernel.body
  pure (temps ++ body)

end Dialect

end ArrayFusion
