/-!
# Element types

Arrays hold booleans, integers of four widths, three sizes of floating point numbers, two sizes of
complex numbers, or the state of a counter based random generator. The integer types are described
by sign and width, so that wrapping is one function for all of them.
-/

namespace ArrayFusion

/-- Width of an integer type. -/
inductive Width where
  | w8 | w16 | w32 | w64
  deriving DecidableEq, Repr, Inhabited

namespace Width

def bits : Width → Nat
  | w8 => 8
  | w16 => 16
  | w32 => 32
  | w64 => 64

def all : List Width := [w8, w16, w32, w64]

end Width

/-- A fixed width integer type, two's complement if signed. -/
structure IntType where
  signed : Bool
  width : Width
  deriving DecidableEq, Repr, Inhabited

namespace IntType

/-- Number of values of the type. -/
def modulus (t : IntType) : Nat := 1 <<< t.width.bits

/-- The value of the type that is congruent to `x` modulo the number of its values. -/
def wrap (t : IntType) (x : Int) : Int :=
  if t.signed then x.bmod t.modulus else x % t.modulus

/-- The integers that the type holds. -/
def Holds (t : IntType) (x : Int) : Prop := t.wrap x = x

instance (t : IntType) (x : Int) : Decidable (t.Holds x) := inferInstanceAs (Decidable (_ = _))

def int64 : IntType := ⟨true, .w64⟩
def uint64 : IntType := ⟨false, .w64⟩

/-- Signed types first, narrow before wide. -/
def all : List IntType := Width.all.map (⟨true, ·⟩) ++ Width.all.map (⟨false, ·⟩)

end IntType

/-- Type of the elements of an array. -/
inductive DType where
  | bool
  | integer (type : IntType)
  | float16
  | float32
  | float64
  | complex64
  | complex128
  /-- Start and key of a counter based generator. -/
  | random
  deriving DecidableEq, Repr, Inhabited

namespace DType

abbrev int64 : DType := .integer .int64

/-- All element types in their order. -/
def all : List DType :=
  .bool :: IntType.all.map .integer ++ [.float16, .float32, .float64, .complex64, .complex128, .random]

/-- Size of one element in bytes. -/
def byteSize : DType → Nat
  | .bool => 1
  | .integer t => t.width.bits / 8
  | .float16 => 2
  | .float32 => 4
  | .float64 | .complex64 => 8
  | .complex128 | .random => 16

def isFloat : DType → Bool
  | .float16 | .float32 | .float64 => true
  | _ => false

def isComplex : DType → Bool
  | .complex64 | .complex128 => true
  | _ => false

def isInteger : DType → Bool
  | .integer _ => true
  | _ => false

def isSignedInteger : DType → Bool
  | .integer t => t.signed
  | _ => false

def isUnsignedInteger : DType → Bool
  | .integer t => !t.signed
  | _ => false

/-- Name of the type in programs and messages. -/
def text : DType → String
  | .bool => "BOOL"
  | .integer t => (if t.signed then "INT" else "UINT") ++ toString t.width.bits
  | .float16 => "FLOAT16"
  | .float32 => "FLOAT32"
  | .float64 => "FLOAT64"
  | .complex64 => "COMPLEX64"
  | .complex128 => "COMPLEX128"
  | .random => "R123"

/-- Field of the type in the constant union of generated kernels. -/
def unionMember : DType → String
  | .bool => "bool8"
  | .integer t => (if t.signed then "int" else "uint") ++ toString t.width.bits
  | .float16 => "float16"
  | .float32 => "float32"
  | .float64 => "float64"
  | .complex64 => "complex64"
  | .complex128 => "complex128"
  | .random => "r123"

/-- Position among all element types. -/
def rank (t : DType) : Nat := all.idxOf t

def ofText? (s : String) : Option DType := all.find? (·.text == s)

end DType

end ArrayFusion
