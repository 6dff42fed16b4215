import ArrayFusion.Nest.Build

/-!
# Peeling the first iteration

A loop along which statements fold or scan can be run in two parts: the first iteration, where
folds and scans are copies, and the loop over the remaining iterations. Each part of the body
becomes one block of the first iteration.
-/

namespace ArrayFusion

namespace Node

mutual

/-- The node without the first index of an axis. -/
def advance (axis : Nat) : Node → Node
  | loop head body =>
    let body := advanceBody axis body
    loop (Nest.describe head body) body
  | leaf s rank => leaf (.fresh (s.instr.advanceAxis axis)) rank

/-- The nodes of a body without the first index of an axis. -/
def advanceBody (axis : Nat) : List Node → List Node
  | [] => []
  | n :: body => n.advance axis :: advanceBody axis body

end

/-- First iteration of a node in a loop along an axis. An inner loop without statements leaves
nothing. -/
def firstIteration (axis : Nat) : Node → Numbering (List Node)
  | leaf s rank => pure [leaf (.fresh (s.instr.sliceAxis axis 0)) (rank - 1)]
  | loop _ body => do
    let sliced := (bodyStatements body).map fun s => Statement.fresh (s.instr.sliceAxis axis 0)
    if sliced.isEmpty then pure []
    else do
      let block ← Nest.ofStatements axis [] sliced
      pure [block.toNode]

/-- First iterations of the nodes of a body. -/
def firstIterations (axis : Nat) : List Node → Numbering (List Node)
  | [] => pure []
  | n :: body => do
    let first ← n.firstIteration axis
    let rest ← firstIterations axis body
    pure (first ++ rest)

theorem firstIterations_nil (axis k : Nat) : (firstIterations axis [] k).1 = [] := rfl

theorem firstIterations_cons (axis : Nat) (n : Node) (body : List Node) (k : Nat) :
    (firstIterations axis (n :: body) k).1 = (n.firstIteration axis k).1 ++
      (firstIterations axis body (n.firstIteration axis k).2).1 := rfl

end Node

/-- Blocks of the first iteration, and the loop over the remaining iterations if there are any.
The frees of a loop that runs once are kept by an empty loop behind its only iteration. -/
def Nest.peel (l : Nest) : Numbering (List Node × Option Nest) := do
  let axis := l.head.rank.toNat
  let first ← Node.firstIterations axis l.body
  if l.head.size ≤ 1 then
    if l.allFrees.isEmpty then pure (first, none)
    else do
      let id ← Numbering.next
      let holder : LoopHead := { id, rank := l.head.rank, size := 0, frees := l.allFrees }
      pure (first ++ [.loop holder []], none)
  else do
    let id ← Numbering.next
    let head := { l.head with id, size := l.head.size - 1 }
    pure (first, some (Nest.refresh ⟨head, Node.advanceBody axis l.body⟩))

end ArrayFusion
