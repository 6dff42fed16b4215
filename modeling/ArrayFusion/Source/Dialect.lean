import ArrayFusion.Fault
import ArrayFusion.Kernel.Scope

/-!
# Dialects of kernel source

A dialect is a target with the options that its kernels are written with. This module holds the
single lines of source in each dialect: names of types, declarations, assignments, the heads and
ends of blocks and loops, and the ways to protect a statement.
-/

namespace ArrayFusion

namespace Target

/-- Kind of a Fortran type. -/
def fortranKind? : DType → Option String
  | .bool => some "c_int8_t"
  | .integer t => if t.signed then some s!"c_int{t.width.bits}_t" else none
  | .float32 => some "c_float"
  | .float64 => some "c_double"
  | _ => none

/-- Name of an integer type, for targets that name the widths by words. -/
def widthWord (long : String) : Width → String
  | .w8 => "char"
  | .w16 => "short"
  | .w32 => "int"
  | .w64 => long

/-- Name of an integer type. -/
def integerName? (target : Target) (t : IntType) : Option String :=
  match target with
  | .openmp => some ((if t.signed then "int" else "uint") ++ s!"{t.width.bits}_t")
  | .opencl => some ((if t.signed then "" else "u") ++ widthWord "long" t.width)
  | .cuda =>
    let sign := if t.signed then (if t.width = .w8 then "signed " else "") else "unsigned "
    some (sign ++ widthWord "long long" t.width)
  | .fortran => (fortranKind? (.integer t)).map fun k => "integer(" ++ k ++ ")"

/-- Name of an element type, if the target has it. -/
def typeName? (target : Target) (t : DType) : Option String :=
  match target, t with
  | .fortran, .float32 => some "real(c_float)"
  | .fortran, .float64 => some "real(c_double)"
  | .fortran, .bool => some "integer(c_int8_t)"
  | _, .integer t => target.integerName? t
  | .fortran, _ => none
  | .opencl, .bool => some "uchar"
  | _, .bool => some "bool"
  | .openmp, .float16 => none
  | _, .float16 => some "half"
  | _, .float32 => some "float"
  | _, .float64 => some "double"
  | .openmp, .complex64 => some "float complex"
  | .openmp, .complex128 => some "double complex"
  | _, _ => none

/-- Name of an element type. -/
def typeName (target : Target) (t : DType) : Except Fault String :=
  match target.typeName? t with
  | some name => .ok name
  | none => .error (.typeNotWritable t target)

/-- Type of array indices. -/
def indexType : Target → String
  | .openmp => "int64_t"
  | .opencl => "long"
  | .cuda => "long long"
  | .fortran => "integer(c_int64_t)"

end Target

/-- A target and the options of its kernels. -/
structure Dialect where
  target : Target
  /-- Outermost loops of host kernels run on several threads. -/
  threads : Bool := false
  /-- Innermost loops of host kernels are vectorized. -/
  simd : Bool := false
  /-- Scalars of C kernels are declared volatile. -/
  volatile : Bool := false
  /-- Largest number of leading loops that run on hardware threads. -/
  threadedRanks : Nat := 3
  deriving DecidableEq, Repr, Inhabited

/-- Blanks in front of a line at some depth. -/
def indentation (depth : Nat) : String := String.join (List.replicate depth "    ")

/-- A line at some depth. -/
def indented (depth : Nat) (line : String) : String := indentation depth ++ line ++ "\n"

namespace Dialect

def isFortran (d : Dialect) : Bool := d.target == .fortran

/-- What ends a statement. -/
def terminator (d : Dialect) : String := if d.isFortran then "" else ";"

def comment (d : Dialect) (text : String) : String :=
  (if d.isFortran then "! " else "// ") ++ text

/-- Declaration of a variable of a type that is given by name. -/
def declared (d : Dialect) (type name : String) : String :=
  type ++ (if d.isFortran then " :: " else " ") ++ name ++ d.terminator

/-- Declaration of a scalar. -/
def declaration (d : Dialect) (t : DType) (name : String) : Except Fault String := do
  let type ← d.target.typeName t
  let storage := if d.target == .openmp && d.volatile then "volatile " else ""
  pure (storage ++ d.declared type name)

/-- Declaration of an array index. -/
def indexDeclaration (d : Dialect) (name : String) : String := d.declared d.target.indexType name

def assignment (d : Dialect) (left right : String) : String :=
  left ++ " = " ++ right ++ d.terminator

/-- Head of a block in which declarations may follow. -/
def blockHead (d : Dialect) (comment : String) : String :=
  (if d.isFortran then "BLOCK ! " else "\x7b // ") ++ comment

def blockEnd (d : Dialect) : String := if d.isFortran then "END BLOCK" else "\x7d"

/-- Head of the declarations of a loop body, where the body itself is no block. -/
def scopeHead? (d : Dialect) : Option String := if d.isFortran then some "BLOCK" else none

def scopeEnd? (d : Dialect) : Option String := if d.isFortran then some d.blockEnd else none

/-- Gives the index of a loop a value outside of the loop. -/
def indexSetting (d : Dialect) (rank : Nat) (value : String) : String :=
  (if d.isFortran then "" else "const " ++ d.target.indexType ++ " ") ++
    d.assignment s!"i{rank}" value

/-- Head of a loop from `start` up to `size`, which is left out. -/
def loopHead (d : Dialect) (rank : Nat) (start size : Int) : String :=
  if d.isFortran then s!"DO i{rank} = {start}, {size - 1}"
  else
    "for(" ++ d.target.indexType ++ s!" i{rank} = {start}; i{rank} < {size}; ++i{rank}) \x7b"

def loopEnd (d : Dialect) : String := if d.isFortran then "END DO" else d.blockEnd

/-- Position of a hardware thread along one rank. -/
def threadIndex (d : Dialect) (rank : Nat) : Except Fault String :=
  match d.target with
  | .opencl => .ok s!"get_global_id({rank})"
  | .cuda =>
    match ["x", "y", "z"][rank]? with
    | some dim =>
      .ok ("(" ++ d.target.indexType ++ ")blockIdx." ++ dim ++ "*blockDim." ++ dim ++
        "+threadIdx." ++ dim)
    | none => .error (.threadDimensionMissing rank)
  | target => .error (.loopNotThreadable rank target)

/-- First lines of a block that every hardware thread runs for its own index. -/
def threadedLines (d : Dialect) (rank : Nat) (index : String) (size : Int) : List String :=
  [d.indexSetting rank index, s!"if (i{rank} >= {size}) return;"]

def threadedHead (d : Dialect) (rank : Nat) : String := d.blockHead s!"Threaded block (ID i{rank})"

/-- Element of an array. Fortran counts elements from one. -/
def element (d : Dialect) (name index : String) : String :=
  if d.isFortran then name ++ "(1 + " ++ index ++ ")" else name ++ "[" ++ index ++ "]"

/-- Statement under a condition. -/
def conditional (d : Dialect) (condition statement : String) : String :=
  if d.isFortran then "IF (" ++ condition ++ " /= 0) " ++ statement
  else "if (" ++ condition ++ ") " ++ statement

/-- Lines of a statement that is protected against other threads. Devices have no protection. -/
def guardedLines (d : Dialect) (p : Protection) (statement : String) : List String :=
  let line := statement ++ d.terminator
  match d.target, p with
  | .openmp, .atomic => ["#pragma omp atomic", line]
  | .openmp, .critical => ["#pragma omp critical", line]
  | .fortran, .atomic => ["!$OMP ATOMIC", line]
  | .fortran, .critical => ["!$OMP CRITICAL", line, "!$OMP END CRITICAL"]
  | _, _ => [line]

end Dialect

end ArrayFusion
