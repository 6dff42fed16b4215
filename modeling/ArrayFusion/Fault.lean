import ArrayFusion.Instruction.Basic
import ArrayFusion.Source.Target

/-!
# Faults

Every way in which building, compiling or running an array program can fail, with the data that
its message needs. `Fault.kind` sorts the causes, `Fault.message` words them.
-/

namespace ArrayFusion

/-- Which collaborator of the host failed, and how. -/
inductive HostFailure where
  | compilerNotFound
  | kernelCompilation
  | moduleLoad
  | unallocatedBuffer
  deriving DecidableEq, Repr

namespace HostFailure

def text : HostFailure → String
  | compilerNotFound => "CompilerNotFound"
  | kernelCompilation => "KernelCompilation"
  | moduleLoad => "ModuleLoad"
  | unallocatedBuffer => "UnallocatedBuffer"

end HostFailure

/-- Which backend was given a kernel without source. -/
inductive SourceReader where
  | recorder
  | host
  deriving DecidableEq, Repr

def SourceReader.text : SourceReader → String
  | recorder => "dummy backend records generated source"
  | host => "host kernels are executed from generated source"

/-- A cause of failure. -/
inductive Fault where
  /-- A view with different numbers of sizes and strides. -/
  | lengthsDiffer (shape stride : List Int)
  | tooManyAxes (count : Nat)
  | negativeShape (shape : List Int)
  | slidingConstant
  | slideAxis (dim ndim : Nat)
  /-- No strides give the elements of the view this shape. -/
  | noStridesFor (view : View) (shape : List Int)
  | axisNotInsertable (dim ndim : Nat)
  | outOfBounds (position size : Nat)
  | notAllocated (base : BaseId)
  | unknownBase (base : BaseId)
  | shortIndexArray (base : BaseId) (view : View) (position : Nat)
  | notReshapable (instr : Instruction)
  | transposedReduction (instr : Instruction)
  | axesNotSwappable (a b : Nat) (view : View)
  | axisNotSplittable (axis : Nat) (shape : List Int) (size : Int)
  /-- An integer was divided by zero. -/
  | divisionByZero (op : Binary)
  | constantMissing (operand : Nat) (instr : Instruction)
  | readOutOfBounds (offset : Int) (base : BaseId) (instr : Instruction)
  | constantOutput (instr : Instruction)
  | negativeElement (offset : Int) (base : BaseId) (instr : Instruction)
  | notEvaluable (instr : Instruction)
  | notAnExtension (op : Opcode)
  | extensionMissing (instr : Instruction)
  | notAMatrix (operand : Nat) (instr : Instruction)
  | negativeMatrixElement (view : View)
  | matrixShapes (a b out : List Int)
  | matrixRead (instr : Instruction)
  | unknownTarget (name : String)
  /-- A text that is no configuration. -/
  | malformedConfig
  /-- A name that is no setting stands without a value. -/
  | valueMissing
  | typeNotWritable (type : DType) (target : Target)
  | instructionNotWritable (instr : Instruction) (target : Target)
  | loopNotThreadable (rank : Int) (target : Target)
  | threadDimensionMissing (rank : Int)
  | kernelTemporaries (target : Target)
  | threadStackDepth (stack : List Int)
  | sourceMissing (reader : SourceReader)
  | notOnHost (target : Target)
  | argumentType (base : BaseId) (accessed held : DType)
  | argumentBelow (base : BaseId) (lowest : Int)
  | argumentBeyond (base : BaseId) (extent : Int) (size : Nat)
  | argumentUnallocated (base : BaseId)
  | compilerMissing (target : Target)
  /-- What a tool of the host reports of its failure. -/
  | tool (failure : HostFailure) (report : String)
  /-- The file system refused an operation. -/
  | fileSystem
  /-- An axis, operand or element was named that does not exist. -/
  | missingPart
  /-- Loops that do not fit together were to be merged. -/
  | notMergeable
  deriving Repr

namespace Fault

/-- Sorts of faults. -/
inductive Kind where
  | invalidArgument
  | unsupported
  | parse
  | backend
  | fileSystem
  /-- The operation could not be carried on. -/
  | aborted
  deriving DecidableEq, Repr

def kind : Fault → Kind
  | notEvaluable _ | extensionMissing _ | typeNotWritable .. | instructionNotWritable ..
  | loopNotThreadable .. | threadDimensionMissing _ | kernelTemporaries _ | notOnHost _ =>
    .unsupported
  | unknownTarget _ | malformedConfig => .parse
  | argumentUnallocated _ | compilerMissing _ | tool .. => .backend
  | fileSystem => .fileSystem
  | valueMissing | missingPart | notMergeable => .aborted
  | _ => .invalidArgument

open Text in
/-- What a message says after its introduction. -/
def detail : Fault → String
  | lengthsDiffer shape stride =>
    "shape " ++ bracketed shape ++ " and stride " ++ bracketed stride ++ " have different lengths"
  | tooManyAxes n => s!"view with {n} dimensions, maximum is {maxAxes}"
  | negativeShape shape => "negative shape " ++ bracketed shape
  | slidingConstant => "constants can not slide"
  | slideAxis dim ndim => s!"slide over axis {dim} of view with {ndim} dimensions"
  | noStridesFor v shape => "can not simplify " ++ v.text ++ " to shape " ++ bracketed shape
  | axisNotInsertable dim ndim =>
    s!"can not insert axis {dim} into view with {ndim} dimensions"
  | outOfBounds position size => s!"index {position} out of bounds of buffer with {size} elements"
  | notAllocated b => "base " ++ b.text ++ " is not allocated"
  | unknownBase b => "unknown base " ++ b.text
  | shortIndexArray b v position =>
    "index array " ++ b.text ++ " of view " ++ v.text ++ s!" has no element {position}"
  | notReshapable i => "instruction " ++ i.text ++ " is not reshapable"
  | transposedReduction i => "can not transpose reduction " ++ i.text
  | axesNotSwappable a b v => s!"can not transpose axes {a} and {b} of " ++ v.text
  | axisNotSplittable axis shape size =>
    s!"axis {axis} of " ++ bracketed shape ++ s!" can not be split by {size}"
  | divisionByZero op => "integer division by zero in " ++ op.text
  | constantMissing operand i => s!"operand {operand} of " ++ i.text ++ " has no value"
  | readOutOfBounds offset b i =>
    s!"element {offset} of " ++ b.text ++ " out of bounds in " ++ i.text
  | constantOutput i => "output of " ++ i.text ++ " is a constant"
  | negativeElement offset b i =>
    s!"negative element {offset} of " ++ b.text ++ " in " ++ i.text
  | notEvaluable i => "Instruction " ++ i.text ++ " not supported by interpreter"
  | notAnExtension op => op.text ++ " is not an extension method"
  | extensionMissing i => "Instruction " ++ i.text ++ " has no registered extension method"
  | notAMatrix operand i => s!"operand {operand} of " ++ i.text ++ " is not a matrix"
  | negativeMatrixElement v => "negative element of " ++ v.text
  | matrixShapes a b out =>
    "matmul of " ++ bracketed a ++ " and " ++ bracketed b ++ " into " ++ bracketed out
  | matrixRead i => i.text ++ " reads out of bounds"
  | unknownTarget name => "unknown target " ++ quoted name
  | malformedConfig => "malformed configuration"
  | valueMissing => "value missing"
  | typeNotWritable t target => t.text ++ " not supported by " ++ target.text ++ " writer"
  | instructionNotWritable i target =>
    "Instruction " ++ i.text ++ " not supported by " ++ target.text ++ " writer"
  | loopNotThreadable rank target =>
    target.text ++ s!" writer can not map loop of rank {rank} to hardware threads"
  | threadDimensionMissing rank => s!"cuda writer has no thread dimension for rank {rank}"
  | kernelTemporaries target =>
    target.text ++ " writer can not allocate temporary arrays, pass them as parameters"
  | threadStackDepth stack =>
    "NDRanges: thread stack " ++ bracketed stack ++ " must have one to three dimensions"
  | sourceMissing reader => reader.text
  | notOnHost target => "target " ++ target.text ++ " is not executed on host"
  | argumentType b accessed held =>
    "kernel accesses " ++ b.text ++ " as " ++ accessed.text ++ ", but it holds " ++ held.text
  | argumentBelow b lowest => s!"kernel accesses element {lowest} of " ++ b.text
  | argumentBeyond b extent size =>
    s!"kernel accesses {extent} elements of " ++ b.text ++ s!" with {size} elements"
  | argumentUnallocated b => HostFailure.unallocatedBuffer.text ++ ": kernel argument " ++ b.text
  | compilerMissing target =>
    HostFailure.compilerNotFound.text ++ ": no compiler command for target " ++ target.text
  | tool failure report => failure.text ++ ": " ++ report
  | fileSystem => "file system"
  | missingPart => "missing part"
  | notMergeable => "not mergeable"

/-- The message of a fault, if its wording belongs to this library. -/
def message? (f : Fault) : Option String :=
  match f.kind with
  | .invalidArgument => some ("Invalid argument " ++ f.detail)
  | .unsupported => some ("Not supported " ++ f.detail)
  | .parse => if f matches malformedConfig then none else some ("Parse " ++ f.detail)
  | .backend => some ("Backend " ++ f.detail)
  | .fileSystem | .aborted => none

end Fault

/-- The target of a name. -/
def Target.named (name : String) : Except Fault Target :=
  match Target.ofText? name with
  | some t => .ok t
  | none => .error (.unknownTarget name)

end ArrayFusion
