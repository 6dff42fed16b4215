import ArrayFusion.Source.CExpression
import ArrayFusion.Source.FortranExpression
import ArrayFusion.Source.Index

/-!
# Operands and operations in source

An operand is written as a constant, a scalar or an array element. An operation is written as an
assignment to its output.
-/

namespace ArrayFusion

/-- Statement for an elementwise operation, the output first among types and operands. Missing
inputs are left blank. -/
def Dialect.operation (d : Dialect) (op : Opcode) (types : List DType) (operands : List String) :
    Option String := do
  let out ← operands.head?
  let outType ← types.head?
  let t := types[1]?.getD outType
  let a := operands[1]?.getD ""
  let b := operands[2]?.getD ""
  let _ ← d.target.typeName? t
  let _ ← d.target.typeName? outType
  let expression ← match op with
    | .binary op =>
      if d.isFortran then FortranExpression.binary op t a b
      else CExpression.binary d.target op t outType a b
    | .unary op =>
      if d.isFortran then FortranExpression.unary op t outType a
      else CExpression.unary d.target op t outType a
    | _ => none
  some (out ++ " = " ++ expression)

/-- Constant as an operand: a parameter or a literal. Fortran has no literals of some types; a
kernel that uses them is refused before it is written. -/
def Dialect.constantText (d : Dialect) (s : Symbols) (c : Constant) : String :=
  if s.passing.constants then
    let name := s!"c{s.constantNumber c}"
    if d.target == .openmp then name ++ "." ++ c.dtype.unionMember else name
  else if d.isFortran then (FortranExpression.literal? c).getD ""
  else c.text

/-- Random number for a position, if the target has random numbers and the instruction a state. -/
def Dialect.randomText? (d : Dialect) (s : Symbols) (i : Instruction) (position : String) :
    Option String :=
  match i.constant with
  | some (.random start key) =>
    let name := s!"c{s.constantNumber (.random start key)}"
    let state :=
      if !s.passing.constants then s!"{start}ul, {key}ul"
      else if d.target == .openmp then s!"{name}.r123.start, {name}.r123.key"
      else s!"{name}_start, {name}_key"
    if d.isFortran then none else some ("random123(" ++ state ++ ", " ++ position ++ ")")
  | _ => none

namespace Symbols

def arrayName (s : Symbols) (b : BaseId) : String := s!"a{s.baseNumber b}"

/-- Name of the scalar that takes the place of a temporary. -/
def tempName (s : Symbols) (b : BaseId) : String := s!"t{s.baseNumber b}"

/-- Name of the scalar that stands for a view while a loop runs. -/
def scalarName (s : Symbols) (v : View) : String := s!"s{s.viewNumber v}"

/-- Start of a view as a number or parameter. -/
def startText (s : Symbols) (v : View) : String :=
  if s.hasParameters v then s!"vo{s.viewNumber v}" else toString v.start

end Symbols

/-- Row major number of the position at which an instruction is carried out. -/
def positionText (i : Instruction) : String :=
  let axes := ((contiguousStrides i.shape).zip i.shape).zipIdx
  let terms := (axes.filter fun ((_, size), _) => 1 < size).map fun ((stride, _), axis) =>
    if stride = 1 then s!"i{axis}" else s!"i{axis}*{stride}"
  if terms.isEmpty then "0" else "(" ++ " + ".intercalate terms ++ ")"

/-- The `k`-th operand is an element of an array that is addressed by loop indices. -/
def Scope.isElement (s : Scope) (i : Instruction) (k : Nat) (v : View) : Bool :=
  match v.base with
  | none => false
  | some b => !s.isScalarTemp b && !s.isReplaced v && !i.isIndirect k

/-- The `k`-th operand of an instruction. An operand that is addressed by values is only named. -/
def Dialect.operandText (d : Dialect) (s : Scope) (i : Instruction) (k : Nat) (v : View) : String :=
  match v.base with
  | none =>
    match i.constant with
    | some c => if i.opcode.isSweep then "" else d.constantText s.symbols c
    | none => ""
  | some b =>
    if s.isScalarTemp b then s.symbols.tempName b
    else if s.isReplaced v then s.symbols.scalarName v
    else
      let name := s.symbols.arrayName b
      if i.isIndirect k then name
      else
        let index := (IndexExpr.ofOperand s.symbols i k v).text
        d.element name ((s.indexVar? index).getD index)

/-- All operands of an instruction. -/
def Dialect.operandTexts (d : Dialect) (s : Scope) (i : Instruction) : List String :=
  i.operands.mapIdx fun k v => d.operandText s i k v

end ArrayFusion
