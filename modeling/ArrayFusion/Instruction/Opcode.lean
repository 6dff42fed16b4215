/-!
# Operations of instructions

Elementwise operations have one or two inputs. A fold combines the elements along one axis with an
elementwise operation, and a scan keeps the running results. The remaining operations move data by
index, number the elements, manage bases, or are provided from outside.
-/

namespace ArrayFusion

/-- Elementwise operations on two inputs. -/
inductive Binary where
  | add | subtract | multiply | divide | power
  /-- Remainder with the sign of the dividend. -/
  | mod
  /-- Remainder with the sign of the divisor. -/
  | remainder
  | maximum | minimum
  | bitwiseAnd | bitwiseOr | bitwiseXor | leftShift | rightShift
  | equal | notEqual | greater | greaterEqual | less | lessEqual
  | logicalAnd | logicalOr | logicalXor
  | arctan2
  deriving DecidableEq, Repr, Inhabited

namespace Binary

def all : List Binary :=
  [add, subtract, multiply, divide, power, mod, remainder, maximum, minimum, bitwiseAnd, bitwiseOr,
   bitwiseXor, leftShift, rightShift, equal, notEqual, greater, greaterEqual, less, lessEqual,
   logicalAnd, logicalOr, logicalXor, arctan2]

def text : Binary → String
  | add => "ADD"
  | subtract => "SUBTRACT"
  | multiply => "MULTIPLY"
  | divide => "DIVIDE"
  | power => "POWER"
  | mod => "MOD"
  | remainder => "REMAINDER"
  | maximum => "MAXIMUM"
  | minimum => "MINIMUM"
  | bitwiseAnd => "BITWISE_AND"
  | bitwiseOr => "BITWISE_OR"
  | bitwiseXor => "BITWISE_XOR"
  | leftShift => "LEFT_SHIFT"
  | rightShift => "RIGHT_SHIFT"
  | equal => "EQUAL"
  | notEqual => "NOT_EQUAL"
  | greater => "GREATER"
  | greaterEqual => "GREATER_EQUAL"
  | less => "LESS"
  | lessEqual => "LESS_EQUAL"
  | logicalAnd => "LOGICAL_AND"
  | logicalOr => "LOGICAL_OR"
  | logicalXor => "LOGICAL_XOR"
  | arctan2 => "ARCTAN2"

end Binary

/-- Elementwise operations on one input. -/
inductive Unary where
  /-- Copy, converting to the type of the output. -/
  | identity
  | absolute
  | logicalNot
  /-- Complement of all bits, and of a boolean. -/
  | invert
  | sin | cos | tan | sinh | cosh | tanh | arcsin | arccos | arctan
  | exp | exp2 | expm1 | log | log2 | log10 | log1p
  | sqrt | ceil | floor
  /-- Nearest integer, ties to even. -/
  | rint
  | trunc | sign | isnan | isinf | isfinite
  deriving DecidableEq, Repr, Inhabited

namespace Unary

def all : List Unary :=
  [identity, absolute, logicalNot, invert, sin, cos, tan, sinh, cosh, tanh, arcsin, arccos, arctan,
   exp, exp2, expm1, log, log2, log10, log1p, sqrt, ceil, floor, rint, trunc, sign, isnan, isinf,
   isfinite]

def text : Unary → String
  | identity => "IDENTITY"
  | absolute => "ABSOLUTE"
  | logicalNot => "LOGICAL_NOT"
  | invert => "INVERT"
  | sin => "SIN"
  | cos => "COS"
  | tan => "TAN"
  | sinh => "SINH"
  | cosh => "COSH"
  | tanh => "TANH"
  | arcsin => "ARCSIN"
  | arccos => "ARCCOS"
  | arctan => "ARCTAN"
  | exp => "EXP"
  | exp2 => "EXP2"
  | expm1 => "EXPM1"
  | log => "LOG"
  | log2 => "LOG2"
  | log10 => "LOG10"
  | log1p => "LOG1P"
  | sqrt => "SQRT"
  | ceil => "CEIL"
  | floor => "FLOOR"
  | rint => "RINT"
  | trunc => "TRUNC"
  | sign => "SIGN"
  | isnan => "ISNAN"
  | isinf => "ISINF"
  | isfinite => "ISFINITE"

end Unary

/-- Operations that combine all elements along an axis. -/
inductive Fold where
  | add | multiply | minimum | maximum
  | logicalAnd | logicalOr | logicalXor
  | bitwiseAnd | bitwiseOr | bitwiseXor
  deriving DecidableEq, Repr, Inhabited

namespace Fold

def all : List Fold :=
  [add, multiply, minimum, maximum, logicalAnd, logicalOr, logicalXor, bitwiseAnd, bitwiseOr,
   bitwiseXor]

/-- The operation that joins the result so far with the next element. -/
def operation : Fold → Binary
  | add => .add
  | multiply => .multiply
  | minimum => .minimum
  | maximum => .maximum
  | logicalAnd => .logicalAnd
  | logicalOr => .logicalOr
  | logicalXor => .logicalXor
  | bitwiseAnd => .bitwiseAnd
  | bitwiseOr => .bitwiseOr
  | bitwiseXor => .bitwiseXor

end Fold

/-- Operations that keep the running results along an axis. -/
inductive Scan where
  | add | multiply
  deriving DecidableEq, Repr, Inhabited

namespace Scan

def all : List Scan := [add, multiply]

/-- The operation that joins the result so far with the next element. -/
def operation : Scan → Binary
  | add => .add
  | multiply => .multiply

end Scan

/-- What an instruction does. -/
inductive Opcode where
  | binary (op : Binary)
  | unary (op : Unary)
  /-- Combine the elements along an axis. -/
  | reduce (op : Fold)
  /-- Keep the running results along an axis. -/
  | accumulate (op : Scan)
  /-- Read at the positions that an index array holds. -/
  | gather
  /-- Write at the positions that an index array holds. -/
  | scatter
  /-- Write at the positions that an index array holds, where a condition holds. -/
  | condScatter
  /-- Number the elements. -/
  | range
  /-- Counter based random numbers. -/
  | random
  /-- Drop the data of a base. -/
  | free
  /-- Do nothing. -/
  | none
  /-- Hand a base to the host. -/
  | sync
  /-- A method registered from outside. -/
  | extension (id : Nat)
  deriving DecidableEq, Repr, Inhabited

namespace Opcode

/-- All operations but synchronization and extensions, in their order. -/
def listed : List Opcode :=
  Binary.all.map binary ++ Unary.all.map unary ++ Fold.all.map reduce ++
    Scan.all.map accumulate ++ [gather, scatter, condScatter, range, random, free, none]

/-- Position of an operation. Synchronization and extensions come after all others. -/
def rank (op : Opcode) : Nat := listed.idxOf op

/-- Name of an operation without its parameter. -/
def name : Opcode → String
  | binary op => op.text
  | unary op => op.text
  | reduce op => op.operation.text ++ "_REDUCE"
  | accumulate op => op.operation.text ++ "_ACCUMULATE"
  | gather => "GATHER"
  | scatter => "SCATTER"
  | condScatter => "COND_SCATTER"
  | range => "RANGE"
  | random => "RANDOM"
  | free => "FREE"
  | none => "NONE"
  | sync => "SYNC"
  | extension _ => "EXT_METHOD"

/-- Notation of an operation in programs. -/
def text : Opcode → String
  | extension id => "EXT_METHOD(" ++ toString id ++ ")"
  | op => op.name

/-- Reads the notation of an operation. -/
def ofText? (s : String) : Option Opcode :=
  match (listed ++ [sync]).find? (·.text == s) with
  | some op => some op
  | .none =>
    let number := ((s.drop 11).dropEnd 1).toNat?
    number.map extension |>.filter (·.text == s)

/-- Computes nothing. -/
def isSystem : Opcode → Bool
  | free | none | sync => true
  | _ => false

def isReduction : Opcode → Bool
  | reduce _ => true
  | _ => false

def isAccumulate : Opcode → Bool
  | accumulate _ => true
  | _ => false

/-- Runs along one axis. -/
def isSweep : Opcode → Bool
  | reduce _ | accumulate _ => true
  | _ => false

def isExtension : Opcode → Bool
  | extension _ => true
  | _ => false

/-- Addresses an array by the values of another one. -/
def isIndirect : Opcode → Bool
  | gather | scatter | condScatter => true
  | _ => false

/-- One output element per position, computed from the same position of the inputs. -/
def isElementwise : Opcode → Bool
  | binary _ | unary _ | range | random => true
  | _ => false

/-- Number of operands, the output and a constant included. -/
def arity : Opcode → Nat
  | none => 0
  | free | sync | range => 1
  | random | unary _ => 2
  | condScatter => 4
  | _ => 3

/-- The elementwise operation that a fold or scan applies. -/
def sweepOperation? : Opcode → Option Binary
  | reduce op => some op.operation
  | accumulate op => some op.operation
  | _ => .none

end Opcode

end ArrayFusion
