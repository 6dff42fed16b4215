import ArrayFusion.Eval.Scalar
import ArrayFusion.Fault
import ArrayFusion.Numeral.Exponential

/-!
# Arithmetic of elements

Integers are computed modulo `2 ^ 64` and narrowed when they are stored. Integer division rounds
toward negative infinity, its remainder has the sign of the divisor, and dividing by zero is a
fault. Floats are computed in double precision, and single precision results are rounded after
every operation. An operation that a type does not have gives no result.
-/

namespace ArrayFusion

namespace Integer

/-- Quotient toward negative infinity: the quotient toward zero, less one where the signs differ
and the division leaves a rest. -/
def floorQuotient (x y : Int) : Int :=
  if decide (0 < x) ≠ decide (0 < y) ∧ x.tmod y ≠ 0 then x.tdiv y - 1 else x.tdiv y

/-- Remainder with the sign of the divisor. -/
def floorRemainder (x y : Int) : Int :=
  let r := x.tmod y
  if r ≠ 0 ∧ decide (r < 0) ≠ decide (y < 0) then r + y else r

/-- `r * b ^ e` as a signed 64 bit integer, by squaring. -/
def squareMultiply (r b : Int) (e : Nat) : Int :=
  if e = 0 then r
  else
    let r := if e % 2 = 1 then IntType.int64.wrap (r * b) else r
    squareMultiply r (IntType.int64.wrap (b * b)) (e / 2)
termination_by e
decreasing_by omega

/-- Power of signed 64 bit integers. A negative exponent stands for a quotient toward zero. -/
def power (b e : Int) : Int :=
  if e < 0 then
    if b = 1 then 1
    else if b = -1 then if e % 2 = 1 then -1 else 1
    else 0
  else squareMultiply 1 b e.toNat

/-- Bitwise operation on 64 bit integers, in two's complement. -/
def bitwise (f : BitVec 64 → BitVec 64 → BitVec 64) (x y : Int) : Int :=
  (f (BitVec.ofInt 64 x) (BitVec.ofInt 64 y)).toInt

/-- Distance of a shift: the lowest six bits. -/
def shiftDistance (y : Int) : Nat := (y % 64).toNat

/-- Operation on two 64 bit integers of one type. -/
def binary (op : Binary) (t : IntType) (x y : Int) : Except Fault (Option Int) :=
  let some' (z : Int) : Except Fault (Option Int) := .ok (some (t.wrap z))
  match op with
  | .add => some' (x + y)
  | .subtract => some' (x - y)
  | .multiply => some' (x * y)
  | .divide => if y = 0 then .error (.divisionByZero op) else some' (floorQuotient x y)
  | .mod => if y = 0 then .error (.divisionByZero op) else some' (x.tmod y)
  | .remainder => if y = 0 then .error (.divisionByZero op) else some' (floorRemainder x y)
  | .power => some' (power (IntType.int64.wrap x) (IntType.int64.wrap y))
  | .maximum => some' (if x > y then x else y)
  | .minimum => some' (if x < y then x else y)
  | .bitwiseAnd => some' (bitwise (· &&& ·) x y)
  | .bitwiseOr => some' (bitwise (· ||| ·) x y)
  | .bitwiseXor => some' (bitwise (· ^^^ ·) x y)
  | .leftShift => some' (x * (1 <<< shiftDistance y : Nat))
  | .rightShift => some' (x / (1 <<< shiftDistance y : Nat))
  | _ => .ok none

/-- Comparison of two integers. -/
def compare? (op : Binary) (x y : Int) : Option Bool :=
  match op with
  | .equal => some (x == y)
  | .notEqual => some (x != y)
  | .greater => some (decide (x > y))
  | .greaterEqual => some (decide (x ≥ y))
  | .less => some (decide (x < y))
  | .lessEqual => some (decide (x ≤ y))
  | _ => none

end Integer

namespace Real

/-- A result of a float type. Only single precision is rounded. -/
def roundTo (t : DType) (x : Float) : Float := if t = .float32 then x.toFloat32.toFloat else x

/-- Operation on two doubles. -/
def binary? (op : Binary) (x y : Float) : Option Float :=
  match op with
  | .add => some (x + y)
  | .subtract => some (x - y)
  | .multiply => some (x * y)
  | .divide => some (x / y)
  | .power => some (x.pow y)
  | .mod => some (remainder x y)
  | .remainder => some (x - (x / y).floor * y)
  | .maximum => some (if x > y then x else y)
  | .minimum => some (if x < y then x else y)
  | .arctan2 => some (x.atan2 y)
  | _ => none

/-- Comparison of two doubles. A NaN differs from everything. -/
def compare? (op : Binary) (x y : Float) : Option Bool :=
  match op with
  | .equal => some (x == y)
  | .notEqual => some (x != y)
  | .greater => some (decide (x > y))
  | .greaterEqual => some (decide (x ≥ y))
  | .less => some (decide (x < y))
  | .lessEqual => some (decide (x ≤ y))
  | _ => none

/-- Operations that only floats have. -/
def unary? : Unary → Option (Float → Float)
  | .sin => some Float.sin
  | .cos => some Float.cos
  | .tan => some Float.tan
  | .sinh => some Float.sinh
  | .cosh => some Float.cosh
  | .tanh => some Float.tanh
  | .arcsin => some Float.asin
  | .arccos => some Float.acos
  | .arctan => some Float.atan
  | .exp => some Float.exp
  | .exp2 => some Float.exp2
  | .expm1 => some expMinusOne
  | .log => some Float.log
  | .log2 => some Float.log2
  | .log10 => some Float.log10
  | .log1p => some logOnePlus
  | .sqrt => some Float.sqrt
  | .ceil => some Float.ceil
  | .floor => some Float.floor
  | .rint => some nearestEven
  | .trunc => some truncate
  | _ => none

end Real

namespace Scalar

/-- Operation on two values, computed in the given type. -/
def binary (op : Binary) (t : DType) (a b : Scalar) : Except Fault (Option Scalar) :=
  match op with
  | .logicalAnd => .ok (some (.ofBool (a.isTrue && b.isTrue)))
  | .logicalOr => .ok (some (.ofBool (a.isTrue || b.isTrue)))
  | .logicalXor => .ok (some (.ofBool (a.isTrue != b.isTrue)))
  | op =>
    if t.isFloat then
      match Real.compare? op a.toReal b.toReal with
      | some c => .ok (some (.ofBool c))
      | none => .ok ((Real.binary? op a.toReal b.toReal).map fun x => .real (Real.roundTo t x))
    else if t.isUnsignedInteger then
      match Integer.compare? op a.toUnsigned b.toUnsigned with
      | some c => .ok (some (.ofBool c))
      | none => (Integer.binary op .uint64 a.toUnsigned b.toUnsigned).map (·.map .unsigned)
    else
      match Integer.compare? op a.toSigned b.toSigned with
      | some c => .ok (some (.ofBool c))
      | none => (Integer.binary op .int64 a.toSigned b.toSigned).map (·.map .signed)

/-- Operation on a value of the given type, for an output of another type. -/
def unary (op : Unary) (out t : DType) (a : Scalar) : Option Scalar :=
  match op with
  | .identity => some (if out = .bool then .ofBool a.isTrue else a)
  | .absolute =>
    some <| match a with
      | .signed x => .signed (IntType.int64.wrap (if x < 0 then -x else x))
      | .unsigned x => .unsigned x
      | .real x => .real x.abs
  | .logicalNot => some (.ofBool (!a.isTrue))
  | .invert =>
    if t = .bool then some (.ofBool (!a.isTrue))
    else match a with
      | .signed x => some (.signed (-x - 1))
      | .unsigned x => some (.unsigned (IntType.uint64.wrap (-x - 1)))
      | .real _ => none
  | .sign =>
    some <| match a with
      | .signed x => .signed x.sign
      | .unsigned x => .ofBool (decide (0 < x))
      | .real x => .signed ((decide (x > 0)).toInt - (decide (x < 0)).toInt)
  | .isnan =>
    some <| match a with
      | .real x => .ofBool x.isNaN
      | _ => .ofBool false
  | .isinf =>
    some <| match a with
      | .real x => .ofBool x.isInf
      | _ => .ofBool false
  | .isfinite =>
    some <| match a with
      | .real x => .ofBool x.isFinite
      | _ => .ofBool true
  | op =>
    if t.isFloat then
      (Real.unary? op).map fun f => .real (Real.roundTo t (f a.toReal))
    else none

end Scalar

end ArrayFusion
