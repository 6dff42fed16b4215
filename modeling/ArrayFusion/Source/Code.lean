import ArrayFusion.Source.Dialect

/-!
# Code of kernels

A kernel body is a tree of statements, blocks and loops. `Code.lines` is the only place where the
tree becomes text, so whatever is said of the tree holds of the text.
-/

namespace ArrayFusion

/-- Additional property of a loop that several threads run. -/
inductive Clause where
  /-- Every thread has its own indices of these ranks. -/
  | ownIndices (ranks : List Int)
  /-- Every thread has its own copy of a scalar; an operation combines them. -/
  | combined (operation scalar : String)
  deriving DecidableEq, Repr, Inhabited

/-- How a loop is run by the host. -/
structure Directive where
  /-- Several threads run the loop. -/
  parallel : Bool := false
  /-- Several iterations are run by one instruction of the processor. -/
  simd : Bool := false
  clauses : List Clause := []
  deriving DecidableEq, Repr, Inhabited

/-- Part of a kernel body. -/
inductive Code where
  | statement (text : String)
  /-- Declaration, a complete line. -/
  | declaration (line : String)
  /-- Statement that is protected against other threads. -/
  | guarded (protection : Protection) (text : String)
  | block (comment : String) (body : List Code)
  /-- Loop body that starts with declarations. -/
  | scope (body : List Code)
  /-- The index of a loop gets a value outside of the loop. -/
  | indexSetting (rank : Nat) (value : String)
  | loop (directive : Directive) (rank : Nat) (start size : Int) (body : List Code)
  /-- Body that every hardware thread runs for its own index. -/
  | threaded (rank : Nat) (index : String) (size : Int) (body : List Code)
  deriving Repr, Inhabited

def Clause.text (d : Dialect) : Clause → String
  | ownIndices ranks => " PRIVATE(" ++ ", ".intercalate (ranks.map fun r => s!"i{r}") ++ ")"
  | combined operation scalar =>
    (if d.isFortran then " REDUCTION(" else " reduction(") ++ operation ++ ":" ++ scalar ++ ")"

/-- Lines in front of a loop. Clauses belong to loops that several threads run. -/
def Directive.lines (d : Dialect) (x : Directive) : List String :=
  let clauses := String.join (x.clauses.map (·.text d))
  match x.parallel, x.simd with
  | true, true =>
    [(if d.isFortran then "!$OMP PARALLEL DO SIMD" else "#pragma omp parallel for simd") ++ clauses]
  | true, false =>
    [(if d.isFortran then "!$OMP PARALLEL DO" else "#pragma omp parallel for") ++ clauses]
  | false, true => [if d.isFortran then "!$OMP SIMD" else "#pragma omp simd"]
  | false, false => []

namespace Code

mutual

/-- Lines of a part of code at some depth. -/
def lines (d : Dialect) (depth : Nat) : Code → List String
  | statement text => [indented depth (text ++ d.terminator)]
  | declaration line => [indented depth line]
  | guarded p text => (d.guardedLines p text).map (indented depth)
  | block comment body =>
    indented depth (d.blockHead comment) :: bodyLines d (depth + 1) body ++ [indented depth d.blockEnd]
  | scope body =>
    d.scopeHead?.toList.map (indented depth) ++ bodyLines d depth body ++
      d.scopeEnd?.toList.map (indented depth)
  | indexSetting rank value => [indented depth (d.indexSetting rank value)]
  | loop directive rank start size body =>
    (directive.lines d).map (indented depth) ++ indented depth (d.loopHead rank start size) ::
      bodyLines d (depth + 1) body ++ [indented depth d.loopEnd]
  | threaded rank index size body =>
    indented depth (d.threadedHead rank) ::
      (d.threadedLines rank index size).map (indented (depth + 1)) ++
      bodyLines d (depth + 1) body ++ [indented depth d.blockEnd]

/-- Lines of a body at some depth. -/
def bodyLines (d : Dialect) (depth : Nat) : List Code → List String
  | [] => []
  | c :: body => c.lines d depth ++ bodyLines d depth body

end

/-- Text of a body. -/
def text (d : Dialect) (depth : Nat) (body : List Code) : String := String.join (bodyLines d depth body)

end Code

end ArrayFusion
