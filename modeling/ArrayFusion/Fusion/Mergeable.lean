import ArrayFusion.Instruction.Dependency
import ArrayFusion.Nest.Build

/-!
# When two loops can share their iterations

`mergeable a b` says that one loop can run, in each iteration, what `a` does and then what `b`
does. The loops need the same rank. If their sizes differ, the axis of the longer one is split so
that both have the smaller size. Neither may touch what the other folds or scans along its axis,
statements that depend on their position stay away from folds and scans, and all statements have
to be compatible at every position. `dependOn` says that the order of two loops may matter.
-/

namespace ArrayFusion

/-- The instruction with an axis of its positions split in two, the outer one of the given size. -/
def Instruction.splitAxis (i : Instruction) (axis : Nat) (size : Int) : Except Fault Instruction :=
  match i.shape[axis]? with
  | none => .error (.axisNotSplittable axis i.shape size)
  | some n =>
    if size ≤ 0 ∨ n % size ≠ 0 then .error (.axisNotSplittable axis i.shape size)
    else i.reshape (i.shape.take axis ++ size :: n / size :: i.shape.drop (axis + 1))

namespace Nest

/-- Statements of a loop with its axis split, so that the loop has the given size. -/
def splitStatements (l : Nest) (size : Int) : Except Fault (List Statement) :=
  l.statements.mapM fun s => (s.instr.splitAxis l.head.rank.toNat size).map .fresh

/-- Some operand in `b` may touch what folds and scans along `a` write. The test ends at a fold or
scan without operands, unless it has found such an operand before. -/
def touchesSweeps (a b : Nest) : Except Fault Bool :=
  a.head.sweeps.anyM fun s =>
    match s.instr.operands[0]? with
    | none => .error .missingPart
    | some out =>
      .ok (b.instrs.any fun i => i.operands.any fun v => !v.isConstant && !out.disjoint v)

/-- The result of some statement depends on its position. -/
def hasPositionDependent (l : Nest) : Bool := l.instrs.any (·.isPositionDependent)

/-- Statements of two loops of the same rank after splitting the axis of the longer loop. -/
def aligned? (a b : Nest) : Option (List Statement × List Statement) :=
  let split (long short : Nest) : Option (List Statement) :=
    if long.head.reshapable ∧ 0 < short.head.size ∧ long.head.size % short.head.size = 0 then
      (long.splitStatements short.head.size).toOption
    else none
  if a.head.size = b.head.size then some (a.statements, b.statements)
  else if a.head.rank < 0 then none
  else if b.head.size < a.head.size then (split a b).map (·, b.statements)
  else (split b a).map (a.statements, ·)

/-- Every statement of the first list is compatible with every statement of the second. -/
def allCompatible (ss ts : List Statement) : Bool :=
  ss.all fun s => ts.all fun t => s.instr.compatible t.instr

/-- Statements that depend on their position stay away from folds and scans, and all statements
of the loops are compatible at every position that they share. -/
def runsInStep (a b : Nest) : Bool :=
  if (!a.head.sweeps.isEmpty && b.hasPositionDependent) ||
      (!b.head.sweeps.isEmpty && a.hasPositionDependent) then false
  else
    match aligned? a b with
    | none => false
    | some (ss, ts) => allCompatible ss ts

/-- In each iteration, `b` can run behind `a`. With `separate`, a loop of rank 0 with folds or
scans along it shares its iterations with its like only. -/
def mergeable (a b : Nest) (separate : Bool) : Except Fault Bool :=
  if a.isSystemOnly || b.isSystemOnly then .ok true
  else if a.head.rank != b.head.rank then .ok false
  else if separate && a.head.rank == 0 && a.head.sweeps.isEmpty != b.head.sweeps.isEmpty then
    .ok false
  else do
    if ← a.touchesSweeps b then return false
    if ← b.touchesSweeps a then return false
    return a.runsInStep b

/-- The order of the loops may matter. -/
def dependOn (a b : Nest) : Bool :=
  (a.instrs.any fun i => b.instrs.any fun j => i.dependent j) ||
    a.allFrees.meets b.allBases || b.allFrees.meets a.allBases

end Nest

end ArrayFusion
