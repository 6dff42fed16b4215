import ArrayFusion.Eval.Arithmetic
import ArrayFusion.Eval.Philox
import ArrayFusion.Nest.Basic
import ArrayFusion.Storage.Arena

/-!
# Evaluation of loop nests

A nest runs on an arena of bases. Loops with folds or scans along them run their first iteration
apart: there a fold or scan copies its input, and from the second iteration on it joins its input
with the result so far. A statement computes one value from the arena (`Instruction.effect?`) and
writes it to one element. A failing statement writes nothing, and what ran before it stays.
-/

namespace ArrayFusion

/-- Where a loop stands. -/
structure Turn where
  index : Int
  /-- The first iteration of a loop along which statements fold or scan. -/
  opening : Bool := false
  deriving DecidableEq, Repr, Inhabited

/-- Where the enclosing loops stand, outermost first. -/
abbrev Turns := List Turn

namespace Turns

/-- Index of the loop along an axis. An axis without enclosing loop stands at its first index. -/
def index (ts : Turns) (axis : Nat) : Int := (ts[axis]?.map (·.index)).getD 0

/-- The loop along an axis is in its opening iteration. -/
def isOpening (ts : Turns) (axis : Nat) : Bool := (ts[axis]?.map (·.opening)).getD false

end Turns

/-- A value on its way to an element of a base. -/
structure Write where
  base : BaseId
  position : Nat
  value : Scalar

namespace Write

def run (w : Write) (a : Arena) : Except Fault Arena := a.update w.base w.position w.value.store

end Write

/-- Types whose arrays can be evaluated. -/
def DType.isEvaluable : DType → Bool
  | .float16 | .complex64 | .complex128 | .random => false
  | _ => true

namespace Instruction

/-- Offset of the `k`-th operand in its base. -/
def offset (i : Instruction) (ts : Turns) (k : Nat) : Int :=
  match i.operands[k]? with
  | none => 0
  | some v =>
    (List.range i.ndim).foldl (fun sum axis =>
      match (i.operandAxis? k axis).bind (v.axes[·]?) with
      | some a => sum + ts.index axis * a.stride
      | none => sum) v.start

/-- One step back along an axis. -/
def stepBack (ts : Turns) (axis : Nat) : Turns :=
  ts.modify axis fun t => { t with index := t.index - 1 }

/-- Number of the position in row-major order. -/
def flatIndex (i : Instruction) (ts : Turns) : Int :=
  (contiguousStrides i.shape).zipIdx.foldr (fun (stride, axis) sum =>
    ts.index axis * stride + sum) 0

/-- Value of the `k`-th operand at an offset of its base. -/
def load (i : Instruction) (a : Arena) (k : Nat) (offset : Int) : Except Fault Scalar := do
  match i.operands[k]? with
  | none => throw .missingPart
  | some v =>
    match v.base with
    | none =>
      match i.constant with
      | some c => if i.opcode.isSweep then throw (.constantMissing k i) else pure (.ofConstant c)
      | none => throw (.constantMissing k i)
    | some b =>
      let buffer ← a.buffer b
      match if offset < 0 then none else buffer.cells[offset.toNat]? with
      | some x => pure (.ofElem buffer.dtype x)
      | none => throw (.readOutOfBounds offset b i)

/-- Value of the `k`-th operand where the loops stand. -/
def loadAt (i : Instruction) (a : Arena) (ts : Turns) (k : Nat) : Except Fault Scalar :=
  i.load a k (i.offset ts k)

/-- Write of a value at an offset of the output. -/
def writeTo (i : Instruction) (offset : Int) (value : Scalar) : Except Fault Write :=
  match i.outputBase? with
  | none => .error (.constantOutput i)
  | some b =>
    if offset < 0 then .error (.negativeElement offset b i) else .ok ⟨b, offset.toNat, value⟩

/-- A result, or the fault that the instruction can not be evaluated. -/
def require (i : Instruction) : Option Scalar → Except Fault Scalar
  | some x => .ok x
  | none => .error (.notEvaluable i)

/-- Types of the output and of the first input. -/
def outType (i : Instruction) : DType := (i.operandType? 0).getD .bool
def inType (i : Instruction) : DType := (i.operandType? 1).getD .bool

/-- Value that a fold or scan writes: its input in the opening iteration of its axis, from then
on the result so far joined with the input. A scan finds the result so far one step back. -/
def sweepValue (i : Instruction) (op : Binary) (a : Arena) (ts : Turns) : Except Fault Scalar := do
  let some axis := i.sweepAxis? | throw (.notEvaluable i)
  let input ← i.loadAt a ts 1
  if ts.isOpening axis then i.require (Scalar.unary .identity i.outType i.inType input)
  else
    let before ← i.loadAt a (if i.opcode.isAccumulate then stepBack ts axis else ts) 0
    i.require (← Scalar.binary op i.outType before input)

/-- Value that an elementwise operation computes from one or two inputs. -/
def elementValue (i : Instruction) (a : Arena) (ts : Turns) : Except Fault Scalar := do
  if i.operands.length = 2 then
    let x ← i.loadAt a ts 1
    match i.opcode with
    | .unary op => i.require (Scalar.unary op i.outType i.inType x)
    | _ => throw (.notEvaluable i)
  else
    let x ← i.loadAt a ts 1
    let y ← i.loadAt a ts 2
    match i.opcode with
    | .binary op => i.require (← Scalar.binary op i.inType x y)
    | _ => throw (.notEvaluable i)

/-- Start of an operand. -/
def startOf (i : Instruction) (k : Nat) : Int := (i.operands[k]?.map (·.start)).getD 0

/-- The instruction can be evaluated as far as its form tells. -/
def isEvaluable (i : Instruction) : Bool :=
  !i.opcode.isExtension && !i.operands.isEmpty &&
    i.operands.all fun v => v.isConstant || v.dtype.isEvaluable

/-- What the instruction writes where the loops stand. Nothing is written by system operations,
and by a conditional scatter whose condition does not hold. -/
def effect? (i : Instruction) (a : Arena) (ts : Turns) : Except Fault (Option Write) := do
  if i.opcode.isSystem then return none
  if !i.isEvaluable then throw (.notEvaluable i)
  let out := i.offset ts 0
  match i.opcode with
  | .reduce op => return some (← i.writeTo out (← i.sweepValue op.operation a ts))
  | .accumulate op => return some (← i.writeTo out (← i.sweepValue op.operation a ts))
  | .gather =>
    let index ← i.loadAt a ts 2
    let value ← i.load a 1 (i.startOf 1 + index.toSigned)
    return some (← i.writeTo out value)
  | .scatter =>
    let index ← i.loadAt a ts 2
    let value ← i.loadAt a ts 1
    return some (← i.writeTo (i.startOf 0 + index.toSigned) value)
  | .condScatter =>
    let condition ← i.loadAt a ts 3
    if !condition.isTrue then return none
    let index ← i.loadAt a ts 2
    let value ← i.loadAt a ts 1
    return some (← i.writeTo (i.startOf 0 + index.toSigned) value)
  | .range => return some (← i.writeTo out (.signed (i.flatIndex ts)))
  | .random =>
    match i.constant with
    | some (.random start key) =>
      let word := Philox.word start key (UInt64.ofInt (i.flatIndex ts))
      return some (← i.writeTo out (.unsigned word.toNat))
    | _ => throw (.notEvaluable i)
  | _ => return some (← i.writeTo out (← i.elementValue a ts))

/-- The arena after the instruction has run once. -/
def step (i : Instruction) (ts : Turns) (a : Arena) : Except Fault Arena := do
  match ← i.effect? a ts with
  | none => pure a
  | some w => w.run a

end Instruction

/-- Computations that change an arena and can fail. A failure keeps the arena as it was then. -/
abbrev Exec := ExceptT Fault (StateM Arena)

namespace Exec

/-- Changes the arena, unless the change fails. -/
def change (f : Arena → Except Fault Arena) : Exec Unit := do
  match f (← get) with
  | .ok a => set a
  | .error e => throw e

/-- Runs an action for a number of consecutive indices. -/
def forIndices (action : Int → Exec Unit) : (count : Nat) → (first : Int) → Exec Unit
  | 0, _ => pure ()
  | count + 1, first => do
    action first
    forIndices action count (first + 1)

end Exec

namespace Node

mutual

/-- Runs a node inside loops that stand at the given turns. -/
def run (ts : Turns) : Node → Exec Unit
  | leaf s _ => Exec.change (s.instr.step ts)
  | loop head body =>
    if head.size ≤ 0 ∨ head.rank < 0 then pure ()
    else if head.sweeps.isEmpty then
      Exec.forIndices (fun k => runBody (ts ++ [⟨k, false⟩]) body) head.size.toNat 0
    else do
      runBody (ts ++ [⟨0, true⟩]) body
      Exec.forIndices (fun k => runBody (ts ++ [⟨k, false⟩]) body) (head.size.toNat - 1) 1

/-- Runs the nodes of a body in order. -/
def runBody (ts : Turns) : List Node → Exec Unit
  | [] => pure ()
  | n :: body => do
    n.run ts
    runBody ts body

end

end Node

namespace Nest

/-- Runs a kernel. Its temporaries are allocated first. -/
def run (kernel : Nest) : Exec Unit := do
  kernel.allTemps.forM fun b => Exec.change (·.allocate b)
  Node.runBody [] kernel.body

end Nest

end ArrayFusion
