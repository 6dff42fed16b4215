import ArrayFusion.Element.DType
import ArrayFusion.Storage.BaseSet
import ArrayFusion.Text.Quoted

/-!
# Views

A view is a strided window into a base: a start and, for every axis, a size and the distance of
neighbours along it. A view without a base stands for a constant operand. Views can move between
the repeats of a program (`Slide`), and their numbers can be read from other bases
(`IndexArrays`). Two views are the same access if they agree in base, start and axes.
-/

namespace ArrayFusion

/-- One axis of a view. -/
structure Axis where
  size : Int
  /-- Distance of neighbours along the axis, in elements. -/
  stride : Int
  deriving DecidableEq, Repr, Inhabited

/-- How a view moves along one axis between the repeats of a program, and how far it has moved. -/
structure Slide where
  /-- The axis whose size changes. -/
  dim : Nat
  /-- Number of strides per move. -/
  step : Int
  /-- Stride of the axis along which the view moves. -/
  stride : Int
  /-- Extent of that axis. A start that leaves the axis wraps around. -/
  extent : Int
  /-- Change of the size of `dim` per move. -/
  growth : Int
  /-- The view moves at every `delay`-th call. Zero means every call, like one. -/
  delay : Nat := 1
  /-- The move of this number returns to the beginning instead. Zero means never. -/
  period : Nat := 0
  calls : Nat := 0
  moves : Nat := 0
  /-- Sum of the changes of the start since the beginning. -/
  startChange : Int := 0
  /-- Sum of the changes of the size since the beginning. -/
  sizeChange : Int := 0
  deriving DecidableEq, Repr, Inhabited

/-- Bases that hold the start, the sizes and the strides of a view. -/
structure IndexArrays where
  start : Option BaseId := none
  shape : Option BaseId := none
  stride : Option BaseId := none
  deriving DecidableEq, Repr, Inhabited

/-- Strided window into a base, or a constant operand if there is no base. -/
structure View where
  base : Option BaseId
  dtype : DType
  start : Int := 0
  axes : List Axis := []
  slides : List Slide := []
  /-- How often the slides were evaluated. -/
  slideCount : Nat := 0
  index : IndexArrays := {}
  deriving DecidableEq, Repr, Inhabited

/-- Largest number of axes of a view. -/
def maxAxes : Nat := 16

/-- Number of positions of a shape. -/
def elementCount (shape : List Int) : Int := shape.foldr (· * ·) 1

/-- Strides of a row-major array of the given shape. -/
def contiguousStrides : List Int → List Int
  | [] => []
  | _ :: shape => elementCount shape :: contiguousStrides shape

namespace View

/-- Operand that stands for a constant of the given type. -/
def constant (t : DType) : View := { base := none, dtype := t }

/-- The whole of a base with `n` elements. -/
def whole (b : BaseId) (t : DType) (n : Nat) : View :=
  { base := some b, dtype := t, axes := [⟨n, 1⟩] }

def shape (v : View) : List Int := v.axes.map (·.size)

def strides (v : View) : List Int := v.axes.map (·.stride)

def ndim (v : View) : Nat := v.axes.length

/-- Number of positions. -/
def elements (v : View) : Int := elementCount v.shape

def isConstant (v : View) : Bool := v.base.isNone

/-- Some number of the view is read from a base. -/
def usesIndexArrays (v : View) : Bool :=
  v.index.start.isSome || v.index.shape.isSome || v.index.stride.isSome

/-- The bases from which numbers of the view are read. -/
def indexBases (v : View) : List BaseId :=
  [v.index.start, v.index.shape, v.index.stride].filterMap id

def isSliding (v : View) : Bool := !v.slides.isEmpty

/-- The strides are those of a row-major array of the shape. -/
def isContiguous (v : View) : Bool := v.strides == contiguousStrides v.shape

/-- Every position is the same element. -/
def isScalar (v : View) : Bool :=
  v.axes.isEmpty || v.elements == 1 || v.strides.all (· == 0)

def sameShape (v w : View) : Bool := v.shape == w.shape

/-- Agreement in base, start and axes. -/
def sameAccess (v w : View) : Bool :=
  v.base == w.base && v.start == w.start && v.axes == w.axes

theorem sameAccess_iff {v w : View} :
    v.sameAccess w = true ↔ v.base = w.base ∧ v.start = w.start ∧ v.axes = w.axes := by
  simp [sameAccess, and_assoc]

/-- Row-major strides for a shape. -/
def rowMajor (shape : List Int) : List Axis :=
  List.zipWith Axis.mk shape (contiguousStrides shape)

def setContiguous (v : View) : View := { v with axes := rowMajor v.shape }

@[simp] theorem map_size_rowMajor (shape : List Int) : (rowMajor shape).map (·.size) = shape := by
  induction shape with
  | nil => rfl
  | cons n shape ih => exact congrArg (n :: ·) ih

@[simp] theorem map_stride_rowMajor (shape : List Int) :
    (rowMajor shape).map (·.stride) = contiguousStrides shape := by
  induction shape with
  | nil => rfl
  | cons n shape ih => exact congrArg (elementCount shape :: ·) ih

@[simp] theorem shape_setContiguous (v : View) : v.setContiguous.shape = v.shape := by
  simp [setContiguous, shape]

@[simp] theorem isContiguous_setContiguous (v : View) : v.setContiguous.isContiguous = true := by
  simp [isContiguous, strides, setContiguous, shape]

/-- Lexicographic order of number lists. -/
def orderInts : List Int → List Int → Ordering
  | [], [] => .eq
  | [], _ :: _ => .lt
  | _ :: _, [] => .gt
  | x :: xs, y :: ys => (compare x y).then (orderInts xs ys)

/-- Constants come first, then base, start, number of axes, sizes and strides decide. -/
def order (v w : View) : Ordering :=
  (compare (v.base.elim 0 (· + 1)) (w.base.elim 0 (· + 1))).then <|
  (compare v.start w.start).then <|
  (compare v.ndim w.ndim).then <|
  (orderInts v.shape w.shape).then (orderInts v.strides w.strides)

/-- Notation of a view in programs and messages. -/
def text (v : View) : String :=
  match v.base with
  | none => "const<" ++ v.dtype.text ++ ">"
  | some b =>
    b.text ++ "[start: " ++ toString v.start ++ ", shape: " ++ Text.bracketed v.shape ++
      ", stride: " ++ Text.bracketed v.strides ++ "]"

/-- Interval from the lowest to the highest address of a view that is not empty. -/
def extent (v : View) : Int × Int :=
  v.axes.foldl (fun (lo, hi) a =>
    let reach := (a.size - 1) * a.stride
    if reach < 0 then (lo + reach, hi) else (lo, hi + reach)) (v.start, v.start)

/-- Offsets from the start in row-major order of the positions. An axis without positive size
counts as a single position. -/
def offsets : List Axis → List Int
  | [] => [0]
  | a :: axes =>
    (List.range (max a.size 1).toNat).flatMap fun (i : Nat) => (offsets axes).map (i * a.stride + ·)

/-- Addresses in row-major order of the positions. -/
def addresses (v : View) : List Int :=
  if v.elements ≤ 0 then [] else (offsets v.axes).map (v.start + ·)

end View

end ArrayFusion
