import ArrayFusion.Element.Constant

/-!
# Stored elements

`DType.Elem` is the type of the elements of a buffer. Whatever is stored can be read as a 64 bit
integer, as a double or as a truth value, and written from an integer or a double. Writing to a
generator state replaces its start and keeps its key, writing to a complex number clears the
imaginary part.
-/

namespace ArrayFusion

/-- Stored elements of an element type. Halves are stored by their bits. -/
abbrev DType.Elem : DType → Type
  | .bool => Bool
  | .integer _ => Int
  | .float16 => UInt16
  | .float32 => Float32
  | .float64 => Float
  | .complex64 => Float32 × Float32
  | .complex128 => Float × Float
  | .random => UInt64 × UInt64

namespace Elem

def zero : (t : DType) → t.Elem
  | .bool => false
  | .integer _ => (0 : Int)
  | .float16 => (0 : UInt16)
  | .float32 => (0 : Float32)
  | .float64 => (0 : Float)
  | .complex64 => ((0, 0) : Float32 × Float32)
  | .complex128 => ((0, 0) : Float × Float)
  | .random => ((0, 0) : UInt64 × UInt64)

/-- The double of an element that is a float, the real part of a complex number. -/
def real? : (t : DType) → t.Elem → Option Float
  | .float16, x => some (Half.toFloat x)
  | .float32, x => some x.toFloat
  | .float64, x => some x
  | .complex64, (re, _) => some re.toFloat
  | .complex128, (re, _) => some re
  | _, _ => none

/-- Element as a 64 bit integer. Floats are truncated. -/
def toInt : (t : DType) → t.Elem → Int
  | .bool, x => x.toInt
  | .integer _, x => IntType.int64.wrap x
  | .random, (start, _) => IntType.int64.wrap start.toNat
  | t, x => truncateFloat ((real? t x).getD 0)

/-- Element as a double. -/
def toFloat (t : DType) (x : t.Elem) : Float :=
  match real? t x with
  | some y => y
  | none => floatOfInt (toInt t x)

/-- An element is true if it is not zero. -/
def toBool (t : DType) (x : t.Elem) : Bool :=
  match real? t x with
  | some y => y != 0
  | none => toInt t x != 0

/-- Element after writing a double into a float or complex element. -/
def roundFloat : (t : DType) → Float → t.Elem → t.Elem
  | .float16, y, _ => Half.ofFloat y
  | .float32, y, _ => y.toFloat32
  | .float64, y, _ => y
  | .complex64, y, _ => (y.toFloat32, 0)
  | .complex128, y, _ => (y, 0)
  | _, _, x => x

/-- Element after writing an integer. -/
def writeInt : (t : DType) → Int → t.Elem → t.Elem
  | .bool, y, _ => y != 0
  | .integer t, y, _ => t.wrap y
  | .random, y, (_, key) => (UInt64.ofInt y, key)
  | t, y, x => roundFloat t (floatOfInt y) x

/-- Element after writing a double. -/
def writeFloat : (t : DType) → Float → t.Elem → t.Elem
  | .bool, y, _ => y != 0
  | .integer t, y, _ => t.wrap (truncateFloat y)
  | .random, y, (_, key) => (UInt64.ofInt (truncateFloat y), key)
  | t, y, x => roundFloat t y x

end Elem

end ArrayFusion
