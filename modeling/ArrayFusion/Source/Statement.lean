import ArrayFusion.Source.Code
import ArrayFusion.Source.Operand

/-!
# Statements

One instruction becomes at most one statement. A fold or scan joins the result so far with the next
element; in the first iteration it copies its input. Instructions that compute nothing and those
that are provided from outside leave no statement.
-/

namespace ArrayFusion

namespace Dialect

/-- The result so far of a fold or scan. A scan finds it one step back along its axis. -/
def resultText (d : Dialect) (s : Scope) (i : Instruction) (axis : Nat) : Except Fault String :=
  match i.operands with
  | [] => .error .missingPart
  | out :: _ =>
    if i.opcode.isAccumulate then
      match out.base with
      | some b =>
        let index := IndexExpr.ofOperand s.symbols i 0 out (some (axis, -1))
        .ok (d.element (s.symbols.arrayName b) index.text)
      | none => .error (.instructionNotWritable i d.target)
    else .ok (d.operandText s i 0 out)

/-- Statement of a fold or scan along an axis. -/
def sweepText (d : Dialect) (s : Scope) (i : Instruction) (op : Binary) (axis : Nat) :
    Except Fault (Option String) :=
  match d.operandTexts s i, i.operandTypes with
  | out :: input :: _, outType :: inputType :: _ =>
    if s.isOpening axis then
      .ok (d.operation (.unary .identity) [outType, inputType] [out, input])
    else do
      let result ← d.resultText s i axis
      pure (d.operation (.binary op) [outType, outType, inputType] [out, result, input])
  | _, _ =>
    if s.isOpening axis then .error .missingPart
    else do
      let _ ← d.resultText s i axis
      throw .missingPart

/-- Element of an array at the position that another array holds. -/
def indirectText (d : Dialect) (s : Scope) (array : View) (name index : String) : String :=
  d.element name (s.symbols.startText array ++ " + " ++ index)

/-- Statement of an instruction that computes something. -/
def computation (d : Dialect) (s : Scope) (i : Instruction) : Except Fault (Option String) :=
  let operands := d.operandTexts s i
  match i.opcode with
  | .reduce op =>
    match i.sweepAxis? with
    | some axis => d.sweepText s i op.operation axis
    | none => .ok none
  | .accumulate op =>
    match i.sweepAxis? with
    | some axis => d.sweepText s i op.operation axis
    | none => .ok none
  | .gather =>
    match i.operands, operands with
    | _ :: source :: _, out :: name :: index :: _ =>
      .ok (some (out ++ " = " ++ d.indirectText s source name index))
    | _, _ => .error .missingPart
  | .scatter =>
    match i.operands, operands with
    | target :: _, name :: input :: index :: _ =>
      .ok (some (d.indirectText s target name index ++ " = " ++ input))
    | _, _ => .error .missingPart
  | .condScatter =>
    match i.operands, operands with
    | target :: _, name :: input :: index :: condition :: _ =>
      .ok (some (d.conditional condition (d.indirectText s target name index ++ " = " ++ input)))
    | _, _ => .error .missingPart
  | .range =>
    match operands with
    | out :: _ => .ok (some (out ++ " = " ++ positionText i))
    | [] => .error .missingPart
  | .random =>
    match d.randomText? s.symbols i (positionText i), operands with
    | some number, out :: _ => .ok (some (out ++ " = " ++ number))
    | some _, [] => .error .missingPart
    | none, _ => .ok none
  | op => .ok (d.operation op i.operandTypes operands)

/-- How the update of the output is protected. Only folds are. -/
def protection? (s : Scope) (i : Instruction) : Option Protection :=
  if i.opcode.isReduction then i.operands.head?.bind s.protection? else none

/-- Code of an instruction. -/
def statement (d : Dialect) (s : Scope) (i : Instruction) : Except Fault (List Code) :=
  if i.opcode.isSystem || i.opcode.isExtension then .ok []
  else do
    match ← d.computation s i with
    | none => throw (.instructionNotWritable i d.target)
    | some text =>
      match protection? s i with
      | some p => pure [.guarded p text]
      | none => pure [.statement text]

end Dialect

end ArrayFusion
