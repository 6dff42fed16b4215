import ArrayFusion.Source.Dialect

/-!
# Expressions of Fortran

Right sides of elementwise operations in Fortran, where booleans are integers that hold zero or
one. The type `t` is that of the first input and decides between integer and float forms.
Operations that a type does not have yield nothing.
-/

namespace ArrayFusion.FortranExpression

/-- Condition as a number. -/
def flag (condition : String) : String := "MERGE(1, 0, " ++ condition ++ ")"

/-- The expression, if the condition holds. -/
def provided (condition : Bool) (text : String) : Option String :=
  if condition then some text else none

/-- Operation on two inputs. -/
def binary (op : Binary) (t : DType) (a b : String) : Option String :=
  let exact := t.isInteger || t == .bool
  match op with
  | .add => some s!"{a} + {b}"
  | .subtract => some s!"{a} - {b}"
  | .multiply => some s!"{a} * {b}"
  | .divide => some (if exact then s!"({a} - MODULO({a}, {b})) / {b}" else s!"{a} / {b}")
  | .power => some s!"{a} ** {b}"
  | .mod => some s!"MOD({a}, {b})"
  | .remainder => some s!"MODULO({a}, {b})"
  | .maximum => some s!"MERGE({a}, {b}, {a} > {b})"
  | .minimum => some s!"MERGE({a}, {b}, {a} < {b})"
  | .bitwiseAnd => provided exact s!"IAND({a}, {b})"
  | .bitwiseOr => provided exact s!"IOR({a}, {b})"
  | .bitwiseXor => provided exact s!"IEOR({a}, {b})"
  | .leftShift => provided exact s!"SHIFTL({a}, INT({b}))"
  | .rightShift => provided exact s!"SHIFTA({a}, INT({b}))"
  | .equal => some (flag s!"{a} == {b}")
  | .notEqual => some (flag s!"{a} /= {b}")
  | .greater => some (flag s!"{a} > {b}")
  | .greaterEqual => some (flag s!"{a} >= {b}")
  | .less => some (flag s!"{a} < {b}")
  | .lessEqual => some (flag s!"{a} <= {b}")
  | .logicalAnd => some (flag s!"{a} /= 0 .AND. {b} /= 0")
  | .logicalOr => some (flag s!"{a} /= 0 .OR. {b} /= 0")
  | .logicalXor => some (flag s!"({a} /= 0) .NEQV. ({b} /= 0)")
  | .arctan2 => provided t.isFloat s!"ATAN2({a}, {b})"

/-- Operation on one input. -/
def unary (op : Unary) (t out : DType) (a : String) : Option String :=
  let exact := t.isInteger || t == .bool
  let real text := provided t.isFloat text
  let intrinsic name := provided t.isFloat (name ++ "(" ++ a ++ ")")
  match op with
  | .identity =>
    if out == .bool && t != .bool then some (flag s!"{a} /= 0")
    else if t.isFloat && !out.isFloat then
      (Target.fortranKind? out).map fun kind => s!"INT({a}, {kind})"
    else some a
  | .absolute => some s!"ABS({a})"
  | .logicalNot => some (flag s!"{a} == 0")
  | .invert => if t == .bool then some s!"1 - {a}" else provided exact s!"NOT({a})"
  | .sin => intrinsic "SIN"
  | .cos => intrinsic "COS"
  | .tan => intrinsic "TAN"
  | .sinh => intrinsic "SINH"
  | .cosh => intrinsic "COSH"
  | .tanh => intrinsic "TANH"
  | .arcsin => intrinsic "ASIN"
  | .arccos => intrinsic "ACOS"
  | .arctan => intrinsic "ATAN"
  | .exp => intrinsic "EXP"
  | .log => intrinsic "LOG"
  | .log10 => intrinsic "LOG10"
  | .sqrt => intrinsic "SQRT"
  | .trunc => intrinsic "AINT"
  | .ceil => real s!"MERGE(AINT({a}) + 1, AINT({a}), {a} > AINT({a}))"
  | .floor => real s!"MERGE(AINT({a}) - 1, AINT({a}), {a} < AINT({a}))"
  | .sign => some (flag s!"{a} > 0" ++ " - " ++ flag s!"{a} < 0")
  | .isnan => some (if t.isFloat then flag s!"IEEE_IS_NAN({a})" else "0")
  | .isinf =>
    some (if t.isFloat then flag s!".NOT. IEEE_IS_FINITE({a}) .AND. .NOT. IEEE_IS_NAN({a})" else "0")
  | .isfinite => some (if t.isFloat then flag s!"IEEE_IS_FINITE({a})" else "1")
  | .exp2 | .expm1 | .log2 | .log1p | .rint => none

/-- Constant as a literal of its kind. -/
def literal? (c : Constant) : Option String := do
  let kind ← Target.fortranKind? c.dtype
  if c.dtype.isFloat then
    let x := c.toFloat
    some <|
      if x.isNaN then s!"IEEE_VALUE(1.0_{kind}, IEEE_QUIET_NAN)"
      else if x.isInf then
        let side := if x > 0 then "POSITIVE" else "NEGATIVE"
        s!"IEEE_VALUE(1.0_{kind}, IEEE_{side}_INF)"
      else Decimal.finiteText .plain x ++ "_" ++ kind
  else some s!"{c.toInt}_{kind}"

end ArrayFusion.FortranExpression
