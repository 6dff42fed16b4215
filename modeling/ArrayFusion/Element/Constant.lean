import ArrayFusion.Element.DType
import ArrayFusion.Numeral.Half
import ArrayFusion.Numeral.Shortest

/-!
# Constants

A constant is a typed value that stands inside an instruction. Floats are held by their bits, so
equality and order of constants are those of the bit patterns. Conversions wrap integers, round
floats and look at the real part of complex numbers.
-/

namespace ArrayFusion

/-- A double as a 64 bit signed integer: toward zero, clamped to the range, zero for NaN. -/
def truncateFloat (x : Float) : Int := x.toInt64.toInt

/-- The double nearest to a 64 bit signed integer. -/
def floatOfInt (x : Int) : Float := (Int64.ofInt x).toFloat

/-- The single precision number nearest to a 64 bit signed integer. -/
def singleOfInt (x : Int) : Float32 := (Int64.ofInt x).toFloat32

/-- A typed value inside an instruction. -/
inductive Constant where
  | bool (value : Bool)
  | integer (type : IntType) (value : Int)
  | float16 (bits : UInt16)
  | float32 (bits : UInt32)
  | float64 (bits : UInt64)
  | complex64 (re im : UInt32)
  | complex128 (re im : UInt64)
  | random (start key : UInt64)
  deriving DecidableEq, Repr, Inhabited

namespace Constant

/-- A signed 64 bit constant, the form in which sweep axes are held. -/
def int64 (x : Int) : Constant := .integer .int64 (IntType.int64.wrap x)

def dtype : Constant → DType
  | .bool _ => .bool
  | .integer t _ => .integer t
  | .float16 _ => .float16
  | .float32 _ => .float32
  | .float64 _ => .float64
  | .complex64 .. => .complex64
  | .complex128 .. => .complex128
  | .random .. => .random

/-- Constant of a type from an integer. -/
def ofInt (t : DType) (x : Int) : Constant :=
  match t with
  | .bool => .bool (x != 0)
  | .integer t => .integer t (t.wrap x)
  | .float16 => .float16 (Half.ofFloat (floatOfInt x))
  | .float32 => .float32 (singleOfInt x).toBits
  | .float64 => .float64 (floatOfInt x).toBits
  | .complex64 => .complex64 (singleOfInt x).toBits 0
  | .complex128 => .complex128 (floatOfInt x).toBits 0
  | .random => .random (UInt64.ofInt x) 0

/-- Constant of a type from a double. -/
def ofFloat (t : DType) (x : Float) : Constant :=
  match t with
  | .float16 => .float16 (Half.ofFloat x)
  | .float32 => .float32 x.toFloat32.toBits
  | .float64 => .float64 x.toBits
  | .complex64 => .complex64 x.toFloat32.toBits 0
  | .complex128 => .complex128 x.toBits 0
  | .bool => .bool (x != 0)
  | _ => ofInt t (truncateFloat x)

def zero (t : DType) : Constant := ofInt t 0

/-- The exact integer of a constant that is no float. -/
def integral? : Constant → Option Int
  | .bool b => some b.toInt
  | .integer _ x => some (IntType.int64.wrap x)
  | .random start _ => some (IntType.int64.wrap start.toNat)
  | _ => none

/-- Value as a double. -/
def toFloat : Constant → Float
  | .float16 b => Half.toFloat b
  | .float32 b => (Float32.ofBits b).toFloat
  | .float64 b => Float.ofBits b
  | .complex64 re _ => (Float32.ofBits re).toFloat
  | .complex128 re _ => Float.ofBits re
  | c => floatOfInt (c.integral?.getD 0)

/-- Value as a signed 64 bit integer. -/
def toInt (c : Constant) : Int :=
  match c.integral? with
  | some x => x
  | none => truncateFloat c.toFloat

/-- A constant is true if it is not zero. -/
def toBool (c : Constant) : Bool :=
  match c.integral? with
  | some x => x != 0
  | none => c.toFloat != 0

/-- Float literal. Values that are not finite use the names of the C mathematics library. -/
def floatLiteral (x : Float) (suffix : String) : String :=
  if x.isNaN then "NAN"
  else if x.isInf then if x > 0 then "INFINITY" else "(-INFINITY)"
  else Decimal.finiteText .plain x ++ suffix

/-- Suffix of an integer literal: unsigned and long. -/
def integerSuffix (t : IntType) : String :=
  (if t.signed then "" else "u") ++ (if t.width = .w64 then "l" else "")

/-- The constant as a C literal. -/
def text : Constant → String
  | .bool b => if b then "1" else "0"
  | .integer t x => toString x ++ integerSuffix t
  | .float16 b => floatLiteral (Half.toFloat b) "f"
  | .float32 b => floatLiteral (Float32.ofBits b).toFloat "f"
  | .float64 b => floatLiteral (Float.ofBits b) ""
  | .complex64 re im =>
    let part (b : UInt32) := floatLiteral (Float32.ofBits b).toFloat "f"
    "(" ++ part re ++ " + " ++ part im ++ "*I)"
  | .complex128 re im =>
    let part (b : UInt64) := floatLiteral (Float.ofBits b) ""
    "(" ++ part re ++ " + " ++ part im ++ "*I)"
  | .random start key =>
    "\x7b" ++ toString start.toNat ++ "ul, " ++ toString key.toNat ++ "ul\x7d"

instance : ToString Constant := ⟨text⟩

/-- The two words that hold the value, floats by their bits. -/
def payload : Constant → Int × Int
  | .bool b => (b.toInt, 0)
  | .integer _ x => (x, 0)
  | .float16 b => (b.toNat, 0)
  | .float32 b => (b.toNat, 0)
  | .float64 b => (b.toNat, 0)
  | .complex64 re im => (re.toNat, im.toNat)
  | .complex128 re im => (re.toNat, im.toNat)
  | .random start key => (start.toNat, key.toNat)

/-- Constants are ordered by type, then by value, floats by their bits. -/
def order (a b : Constant) : Ordering :=
  (compare a.dtype.rank b.dtype.rank).then
    ((compare a.payload.1 b.payload.1).then (compare a.payload.2 b.payload.2))

/-- The sixteen byte slot that passes the constant to a kernel, as two little endian words. A
value narrower than a word fills the low bytes, and two single precision parts share one word. -/
def slot : Constant → UInt64 × UInt64
  | .bool b => (b.toUInt64, 0)
  | .integer t x => ((x % t.modulus).toNat.toUInt64, 0)
  | .float16 b => (b.toUInt64, 0)
  | .float32 b => (b.toUInt64, 0)
  | .float64 b => (b, 0)
  | .complex64 re im => (re.toUInt64 ||| im.toUInt64 <<< 32, 0)
  | .complex128 re im => (re, im)
  | .random start key => (start, key)

end Constant

end ArrayFusion
