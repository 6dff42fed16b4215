import ArrayFusion.Element.Constant
import ArrayFusion.Instruction.Opcode
import ArrayFusion.View.Basic

/-!
# Instructions

An instruction is an operation with its operands, the output first, and at most one constant. In
elementwise instructions the constant takes the place of the operands without base. In folds and
scans the constant is the axis, counted as a 64 bit word.
-/

namespace ArrayFusion

structure Instruction where
  opcode : Opcode
  /-- The output comes first. -/
  operands : List View
  constant : Option Constant := none
  /-- The instruction creates the base of its output. -/
  creates : Bool := false
  deriving DecidableEq, Repr, Inhabited

namespace Instruction

/-- Fold or scan of the input over an axis into the output. -/
def sweep (op : Opcode) (out input : View) (axis : Nat) : Instruction :=
  { opcode := op, operands := [out, input, .constant .int64], constant := some (.int64 axis) }

/-- Axis of a fold or scan. A negative constant stands for the axis with the same 64 bits. -/
def sweepAxis? (i : Instruction) : Option Nat :=
  if i.opcode.isSweep then i.constant.map fun c => (IntType.uint64.wrap c.toInt).toNat else none

/-- Shape of the positions at which the instruction is carried out. -/
def shape (i : Instruction) : List Int :=
  if i.opcode.isSystem then []
  else match i.opcode, i.operands with
    | .reduce _, _ :: input :: _ => input.shape
    | .accumulate _, _ :: input :: _ => input.shape
    | .scatter, _ :: input :: _ => input.shape
    | .condScatter, _ :: input :: _ => input.shape
    | _, out :: _ => out.shape
    | _, [] => []

def ndim (i : Instruction) : Nat := i.shape.length

/-- Size of one axis of the positions. A missing axis has one position. -/
def sizeAt (i : Instruction) (axis : Nat) : Int := i.shape[axis]?.getD 1

/-- Bases of the operands. -/
def bases (i : Instruction) : BaseSet := .ofList (i.operands.filterMap (·.base))

/-- Bases from which numbers of the operands are read. -/
def indexBases (i : Instruction) : BaseSet := .ofList (i.operands.flatMap (·.indexBases))

/-- All bases that the instruction mentions. -/
def mentions (i : Instruction) (b : BaseId) : Bool :=
  i.bases.contains b || i.indexBases.contains b

def outputBase? (i : Instruction) : Option BaseId := i.operands.head?.bind (·.base)

/-- Type of the `k`-th operand. An operand without base has the type of the constant. -/
def operandType? (i : Instruction) (k : Nat) : Option DType :=
  i.operands[k]?.map fun v =>
    match v.base, i.constant with
    | none, some c => if i.opcode.isSweep then v.dtype else c.dtype
    | _, _ => v.dtype

/-- Types of all operands. -/
def operandTypes (i : Instruction) : List DType :=
  (List.range i.operands.length).filterMap i.operandType?

/-- Some operand is a constant. -/
def hasConstant (i : Instruction) : Bool := i.operands.any (·.isConstant)

/-- The result depends on the position and not only on the values there. -/
def isPositionDependent (i : Instruction) : Bool :=
  match i.opcode with
  | .range | .random => true
  | _ => false

/-- The `k`-th operand is addressed by the values of another array. It may touch its whole base. -/
def isIndirect (i : Instruction) (k : Nat) : Bool :=
  match i.opcode with
  | .gather => k == 1
  | .scatter | .condScatter => k == 0
  | _ => false

/-- Notation of an instruction in programs and messages. -/
def text (i : Instruction) : String :=
  i.opcode.text ++ String.join (i.operands.map (" " ++ ·.text)) ++
    (i.constant.map fun c => " (" ++ c.text ++ ")").getD ""

end Instruction

end ArrayFusion
