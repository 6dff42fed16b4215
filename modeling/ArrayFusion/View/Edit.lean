import ArrayFusion.Fault

/-!
# Building and editing views

A view is built from parts that fit together. Axes can be inserted, removed, swapped or fixed at
one index. An operation that names a missing axis fails and leaves the view as it is.
-/

namespace ArrayFusion.View

/-- View of a base from start, shape and strides. Every later condition is checked only after the
earlier ones hold: equal lengths, at most `maxAxes` axes, no negative size. -/
def ofParts (b : BaseId) (t : DType) (start : Int) (shape strides : List Int) :
    Except Fault View :=
  if shape.length ≠ strides.length then .error (.lengthsDiffer shape strides)
  else if maxAxes < shape.length then .error (.tooManyAxes shape.length)
  else if shape.any (· < 0) then .error (.negativeShape shape)
  else .ok { base := some b, dtype := t, start, axes := List.zipWith Axis.mk shape strides }

def addSlide (v : View) (s : Slide) : Except Fault View :=
  if v.isConstant then .error .slidingConstant
  else if v.ndim ≤ s.dim then .error (.slideAxis s.dim v.ndim)
  else .ok { v with slides := v.slides ++ [s] }

def insertAxis (v : View) (dim : Nat) (size stride : Int) : Except Fault View :=
  if v.ndim < dim ∨ maxAxes ≤ v.ndim then .error (.axisNotInsertable dim v.ndim)
  else .ok { v with axes := v.axes.insertIdx dim ⟨size, stride⟩ }

/-- Drops an axis at its first index. A missing axis is left out silently. -/
def dropAxis (v : View) (dim : Nat) : View := { v with axes := v.axes.eraseIdx dim }

def removeAxis (v : View) (dim : Nat) : Except Fault View :=
  if dim < v.ndim then .ok (v.dropAxis dim) else .error .missingPart

/-- Swaps two axes that exist. -/
def swapAxes (v : View) (a b : Nat) : View :=
  match v.axes[a]?, v.axes[b]? with
  | some x, some y => { v with axes := (v.axes.set a y).set b x }
  | _, _ => v

def transpose (v : View) (a b : Nat) : Except Fault View :=
  if a < v.ndim ∧ b < v.ndim then .ok (v.swapAxes a b) else .error .missingPart

/-- Fixes an existing axis at an index and drops it. -/
def fixAxis (v : View) (dim : Nat) (index : Int) : View :=
  match v.axes[dim]? with
  | some a => { v with start := v.start + index * a.stride }.dropAxis dim
  | none => v

def sliceAxis (v : View) (dim : Nat) (index : Int) : Except Fault View :=
  if dim < v.ndim then .ok (v.fixAxis dim index) else .error .missingPart

/-- Skips the first index of an existing axis. -/
def advanceAxis (v : View) (dim : Nat) : View :=
  match v.axes[dim]? with
  | some a =>
    { v with start := v.start + a.stride, axes := v.axes.set dim { a with size := a.size - 1 } }
  | none => v

end ArrayFusion.View
