import ArrayFusion.Instruction.Edit
import ArrayFusion.Program.Basic

/-!
# Loop nests

A nest is a loop over one axis whose body holds statements and further loops. The loop of rank `r`
runs along axis `r` of the statements below it, and a whole kernel is a loop of rank -1 that runs
once. The head of a loop records which statements sweep along it, which bases are created in it and
freed after it, and whether all its statements can be given another shape.
-/

namespace ArrayFusion

/-- What is recorded of a loop. -/
structure LoopHead where
  /-- Number that tells loops apart. -/
  id : Nat
  /-- Nesting depth and axis. The whole kernel has rank -1. -/
  rank : Int
  /-- Number of iterations. -/
  size : Int
  /-- Folds and scans along this loop. -/
  sweeps : List Statement := []
  /-- Bases created in this loop. -/
  news : BaseSet := []
  /-- Bases freed after this loop. -/
  frees : BaseSet := []
  /-- All statements can be given another shape. -/
  reshapable : Bool := false
  deriving DecidableEq, Repr, Inhabited

/-- Part of a loop body. -/
inductive Node where
  | loop (head : LoopHead) (body : List Node)
  /-- A statement in the loop of the given rank. -/
  | leaf (stmt : Statement) (rank : Int)
  deriving Repr, Inhabited

/-- A loop. -/
structure Nest where
  head : LoopHead
  body : List Node
  deriving Repr, Inhabited

/-- Numbers are handed out one after the other. -/
abbrev Numbering := StateM Nat

/-- The next number. -/
def Numbering.next : Numbering Nat := fun n => (n, n + 1)

namespace Node

def rank : Node → Int
  | loop head _ => head.rank
  | leaf _ rank => rank

def nest? : Node → Option Nest
  | loop head body => some ⟨head, body⟩
  | leaf .. => none

def isLoop (n : Node) : Bool := n.nest?.isSome

mutual

/-- Statements in the order of execution. -/
def statements : Node → List Statement
  | loop _ body => bodyStatements body
  | leaf s _ => [s]

/-- Statements of a body in the order of execution. -/
def bodyStatements : List Node → List Statement
  | [] => []
  | n :: body => n.statements ++ bodyStatements body

end

mutual

/-- Loops from the outside inward, each before the loops that follow it. -/
def nests : Node → List Nest
  | loop head body => ⟨head, body⟩ :: bodyNests body
  | leaf .. => []

/-- Loops of a body from the outside inward. -/
def bodyNests : List Node → List Nest
  | [] => []
  | n :: body => n.nests ++ bodyNests body

end

@[simp] theorem bodyStatements_append (xs ys : List Node) :
    bodyStatements (xs ++ ys) = bodyStatements xs ++ bodyStatements ys := by
  induction xs with
  | nil => simp [bodyStatements]
  | cons n xs ih => simp [bodyStatements, ih]

@[simp] theorem bodyNests_append (xs ys : List Node) :
    bodyNests (xs ++ ys) = bodyNests xs ++ bodyNests ys := by
  induction xs with
  | nil => simp [bodyNests]
  | cons n xs ih => simp [bodyNests, ih]

def isSystemOnly (n : Node) : Bool := n.statements.all (·.instr.opcode.isSystem)

end Node

namespace Nest

def toNode (l : Nest) : Node := .loop l.head l.body

/-- Statements in the order of execution. -/
def statements (l : Nest) : List Statement := Node.bodyStatements l.body

def instrs (l : Nest) : List Instruction := l.statements.map (·.instr)

@[simp] theorem statements_toNode (l : Nest) : l.toNode.statements = l.statements := by
  simp [toNode, statements, Node.statements]

/-- Statements directly in the body. -/
def localStatements (l : Nest) : List Statement :=
  l.body.filterMap fun
    | .leaf s _ => some s
    | .loop .. => none

/-- Loops directly in the body. -/
def localNests (l : Nest) : List Nest := l.body.filterMap (·.nest?)

/-- All loops inside, from the outside inward. -/
def subNests (l : Nest) : List Nest := Node.bodyNests l.body

@[simp] theorem nests_toNode (l : Nest) : l.toNode.nests = l :: l.subNests := by
  simp [toNode, subNests, Node.nests]

/-- The body holds no loop. -/
def isInnermost (l : Nest) : Bool := l.body.all (!·.isLoop)

/-- All statements are system operations. -/
def isSystemOnly (l : Nest) : Bool := l.instrs.all (·.opcode.isSystem)

/-- Bases created somewhere in the loop. -/
def allNews (l : Nest) : BaseSet := .unions ((l :: l.subNests).map (·.head.news))

/-- Bases freed somewhere in or right after the loop. -/
def allFrees (l : Nest) : BaseSet := .unions ((l :: l.subNests).map (·.head.frees))

/-- All bases that the loop mentions: operands, index arrays and freed bases. -/
def allBases (l : Nest) : BaseSet :=
  .unions (l.allFrees :: l.instrs.map fun i => i.bases.union i.indexBases)

/-- Bases created and freed in the loop. -/
def allTemps (l : Nest) : BaseSet := l.allFrees.inter l.allNews

/-- Temporaries that no inner loop mentions. -/
def localTemps (l : Nest) : BaseSet := l.allTemps.diff (.unions (l.localNests.map allBases))

/-- Bases that live on outside of the loop. -/
def allNonTemps (l : Nest) : BaseSet := l.allBases.diff l.allTemps

/-- Number of iterations that can run at the same time. -/
def localThreads (l : Nest) : Int :=
  if l.head.sweeps.isEmpty ∧ 0 ≤ l.head.rank then l.head.size else 1

/-- The statement is a fold or scan along the loop of this rank. Axes are compared as 32 bit
words, so that the last axis number stands for rank -1. -/
def sweepsAlong (rank : Int) (s : Statement) : Bool :=
  match s.instr.sweepAxis? with
  | some axis => (axis : Int).bmod (1 <<< 32) == rank
  | none => false

/-- Head with everything recorded that follows from the statements. -/
def describe (head : LoopHead) (body : List Node) : LoopHead :=
  let ss := Node.bodyStatements body
  { head with
    sweeps := ss.filter (sweepsAlong head.rank)
    news := .ofList ((ss.filter (·.instr.creates)).filterMap (·.instr.outputBase?))
    reshapable := ss.all fun s => s.instr.opcode.isSystem || s.instr.isReshapable }

/-- The loop with everything recorded anew that follows from its statements. -/
def refresh (l : Nest) : Nest := ⟨describe l.head l.body, l.body⟩

@[simp] theorem statements_refresh (l : Nest) : l.refresh.statements = l.statements := rfl

@[simp] theorem subNests_refresh (l : Nest) : l.refresh.subNests = l.subNests := rfl

@[simp] theorem refresh_refresh (l : Nest) : l.refresh.refresh = l.refresh := rfl

/-- The whole kernel with the given body. -/
def kernel (body : List Node) : Numbering Nest := do
  let id ← Numbering.next
  pure (refresh ⟨{ id, rank := -1, size := 1 }, body⟩)

end Nest

namespace Node

mutual

/-- Replaces the statement of a place. -/
def replace (place : Nat) (new : Instruction) : Node → Node
  | loop head body =>
    let body := replaceBody place new body
    loop (Nest.describe head body) body
  | leaf s rank => leaf (if s.place = some place then .fresh new else s) rank

/-- Replaces the statement of a place in a body. -/
def replaceBody (place : Nat) (new : Instruction) : List Node → List Node
  | [] => []
  | n :: body => n.replace place new :: replaceBody place new body

end

mutual

/-- Last statement that satisfies a condition, with the head of the loop around it. -/
def lastMatch (p : Statement → Bool) (around : LoopHead) : Node → Option (LoopHead × Statement)
  | loop head body => lastMatchBody p head body
  | leaf s _ => if p s then some (around, s) else none

/-- Last statement of a body that satisfies a condition. -/
def lastMatchBody (p : Statement → Bool) (around : LoopHead) :
    List Node → Option (LoopHead × Statement)
  | [] => none
  | n :: body => (lastMatchBody p around body).or (n.lastMatch p around)

end

mutual

/-- The node fits into a loop of the given rank and size: loops nest rank by rank, and statements
stand in loops of their own size. Nothing frees a base by a statement. -/
def fits (rank size : Int) : Node → Bool
  | loop head body => head.rank == rank + 1 && decide (0 ≤ head.size) && fitsBody head.rank head.size body
  | leaf s r =>
    r == rank && s.instr.opcode != .free &&
      (decide (rank < 0) || s.instr.opcode.isSystem || s.instr.sizeAt rank.toNat == size)

/-- All nodes of a body fit into a loop of the given rank and size. -/
def fitsBody (rank size : Int) : List Node → Bool
  | [] => true
  | n :: body => n.fits rank size && fitsBody rank size body

end

end Node

namespace Nest

/-- Replaces the statement of a place. -/
def replace (l : Nest) (place : Nat) (new : Instruction) : Nest :=
  refresh ⟨l.head, Node.replaceBody place new l.body⟩

/-- Last statement that mentions a base, or the last of all, with the head of its loop. -/
def lastAccess (l : Nest) (b : Option BaseId) : Option (LoopHead × Statement) :=
  Node.lastMatchBody (fun s => b.all s.instr.mentions) l.head l.body

/-- The loop is well nested. -/
def isValid (l : Nest) : Bool := Node.fitsBody l.head.rank l.head.size l.body

@[simp] theorem isValid_refresh (l : Nest) : l.refresh.isValid = l.isValid := rfl

end Nest

end ArrayFusion
