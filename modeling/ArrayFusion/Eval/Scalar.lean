import ArrayFusion.Storage.Element

/-!
# Values of elements during evaluation

Elements are computed as signed or unsigned 64 bit integers or as doubles, whatever is closest to
the type they are stored in. Storing a value converts it to the type of the buffer.
-/

namespace ArrayFusion

/-- Value of one element. -/
inductive Scalar where
  /-- A signed 64 bit integer, also for booleans. -/
  | signed (x : Int)
  /-- An unsigned 64 bit integer. -/
  | unsigned (x : Int)
  | real (x : Float)
  deriving Inhabited

/-- An unsigned 64 bit integer as a double. -/
def floatOfWord (x : Int) : Float := (UInt64.ofInt x).toFloat

namespace Scalar

def ofBool (b : Bool) : Scalar := .signed b.toInt

/-- Value of a stored element. -/
def ofElem (t : DType) (x : t.Elem) : Scalar :=
  if t.isFloat then .real (Elem.toFloat t x)
  else if t.isUnsignedInteger then .unsigned (IntType.uint64.wrap (Elem.toInt t x))
  else .signed (Elem.toInt t x)

def ofConstant (c : Constant) : Scalar :=
  if c.dtype.isFloat then .real c.toFloat
  else if c.dtype.isUnsignedInteger then .unsigned (IntType.uint64.wrap c.toInt)
  else .signed c.toInt

/-- Stored element after writing a value. -/
def store (s : Scalar) (t : DType) (x : t.Elem) : t.Elem :=
  match s with
  | .signed y => Elem.writeInt t y x
  | .unsigned y =>
    if t.isFloat then Elem.writeFloat t (floatOfWord y) x
    else Elem.writeInt t (IntType.int64.wrap y) x
  | .real y => Elem.writeFloat t y x

/-- As a signed 64 bit integer. -/
def toSigned : Scalar → Int
  | .signed x => x
  | .unsigned x => IntType.int64.wrap x
  | .real x => truncateFloat x

/-- As an unsigned 64 bit integer. A double is clamped to the range. -/
def toUnsigned : Scalar → Int
  | .signed x => IntType.uint64.wrap x
  | .unsigned x => x
  | .real x => x.toUInt64.toNat

def toReal : Scalar → Float
  | .signed x => floatOfInt x
  | .unsigned x => floatOfWord x
  | .real x => x

def isTrue : Scalar → Bool
  | .signed x => x != 0
  | .unsigned x => x != 0
  | .real x => x != 0

end Scalar

end ArrayFusion
