import ArrayFusion.Source.Dialect

/-!
# Expressions of the C family

Right sides of elementwise operations in C, OpenCL and CUDA. The type `t` is that of the first
input and decides between integer and float forms. Operations that a type does not have yield
nothing.
-/

namespace ArrayFusion.CExpression

/-- Name of a function of the mathematics library. Only C tells the types apart by name. -/
def function (target : Target) (t : DType) (name : String) : String :=
  match target, t with
  | .openmp, .float32 => name ++ "f"
  | .openmp, .complex64 => "c" ++ name ++ "f"
  | .openmp, .complex128 => "c" ++ name
  | _, _ => name

/-- Call of a function of the mathematics library. -/
def call (target : Target) (t : DType) (name : String) (arguments : List String) : String :=
  function target t name ++ "(" ++ ", ".intercalate arguments ++ ")"

/-- The expression, if the condition holds. -/
def given (condition : Bool) (text : String) : Option String :=
  if condition then some text else none

def isIntegerOrBool (t : DType) : Bool := t.isInteger || t == .bool

/-- Quotient rounded toward minus infinity. -/
def flooredQuotient (a b : String) : String :=
  s!"(({a} > 0) != ({b} > 0) && ({a} % {b}) != 0) ? ({a} / {b} - 1) : ({a} / {b})"

/-- Remainder with the sign of the divisor. -/
def flooredRemainder (a b : String) : String :=
  s!"(({a} % {b}) != 0 && (({a} % {b}) < 0) != ({b} < 0)) ? ({a} % {b} + {b}) : ({a} % {b})"

/-- Operation on two inputs. -/
def binary (target : Target) (op : Binary) (t out : DType) (a b : String) : Option String :=
  let call name := call target t name [a, b]
  let floor := function target t "floor"
  let complex := t.isComplex || out.isComplex
  match op with
  | .add => some s!"{a} + {b}"
  | .subtract => some s!"{a} - {b}"
  | .multiply => some s!"{a} * {b}"
  | .divide => some (if t.isSignedInteger then flooredQuotient a b else s!"{a} / {b}")
  | .power =>
    if t.isInteger then some s!"jitk_ipow({a}, {b})"
    else given (t.isFloat || complex) (call "pow")
  | .mod => if t.isInteger then some s!"{a} % {b}" else given t.isFloat (call "fmod")
  | .remainder =>
    if t.isSignedInteger then some (flooredRemainder a b)
    else if t.isUnsignedInteger then some s!"{a} % {b}"
    else given t.isFloat s!"{a} - {floor}({a} / {b}) * {b}"
  | .maximum => given (!complex) s!"{a} > {b} ? {a} : {b}"
  | .minimum => given (!complex) s!"{a} < {b} ? {a} : {b}"
  | .bitwiseAnd => given (isIntegerOrBool t) s!"{a} & {b}"
  | .bitwiseOr => given (isIntegerOrBool t) s!"{a} | {b}"
  | .bitwiseXor => given (isIntegerOrBool t) s!"{a} ^ {b}"
  | .leftShift => given t.isInteger s!"{a} << {b}"
  | .rightShift => given t.isInteger s!"{a} >> {b}"
  | .equal => some s!"{a} == {b}"
  | .notEqual => some s!"{a} != {b}"
  | .greater => given (!complex) s!"{a} > {b}"
  | .greaterEqual => given (!complex) s!"{a} >= {b}"
  | .less => given (!complex) s!"{a} < {b}"
  | .lessEqual => given (!complex) s!"{a} <= {b}"
  | .logicalAnd => given (!complex) s!"{a} && {b}"
  | .logicalOr => given (!complex) s!"{a} || {b}"
  | .logicalXor => given (!complex) s!"!{a} != !{b}"
  | .arctan2 => given t.isFloat (call "atan2")

/-- Operation on one input. -/
def unary (target : Target) (op : Unary) (t out : DType) (a : String) : Option String :=
  let call name := call target t name [a]
  let complex := t.isComplex || out.isComplex
  let inexact name := given (t.isFloat || t.isComplex) (call name)
  let real name := given t.isFloat (call name)
  match op with
  | .identity =>
    if out == .bool && t != .bool then some s!"({a} == 0 ? 0 : 1)"
    else given (!t.isComplex || out.isComplex) a
  | .absolute =>
    some <|
      if t.isSignedInteger then s!"{a} < 0 ? -{a} : {a}"
      else if t.isFloat then call "fabs"
      else if t.isComplex then call "abs"
      else a
  | .logicalNot => given (!complex) s!"!{a}"
  | .invert => if t == .bool then some s!"!{a}" else given t.isInteger s!"~{a}"
  | .sin => inexact "sin"
  | .cos => inexact "cos"
  | .tan => inexact "tan"
  | .sinh => inexact "sinh"
  | .cosh => inexact "cosh"
  | .tanh => inexact "tanh"
  | .arcsin => inexact "asin"
  | .arccos => inexact "acos"
  | .arctan => inexact "atan"
  | .exp => inexact "exp"
  | .log => inexact "log"
  | .sqrt => inexact "sqrt"
  | .exp2 => real "exp2"
  | .expm1 => real "expm1"
  | .log2 => real "log2"
  | .log10 => real "log10"
  | .log1p => real "log1p"
  | .ceil => real "ceil"
  | .floor => real "floor"
  | .rint => real "rint"
  | .trunc => real "trunc"
  | .sign => given (!complex) s!"({a} > 0) - ({a} < 0)"
  | .isnan => if t.isFloat then some s!"isnan({a})" else given (!t.isComplex) "0"
  | .isinf => if t.isFloat then some s!"isinf({a})" else given (!t.isComplex) "0"
  | .isfinite => if t.isFloat then some s!"isfinite({a})" else given (!t.isComplex) "1"

end ArrayFusion.CExpression
