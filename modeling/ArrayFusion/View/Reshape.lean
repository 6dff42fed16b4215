import ArrayFusion.Fault

/-!
# Simplified and reshaped views

Different axes can describe the same sequence of addresses. `View.simplify` gives the description
with the fewest axes: axes of size one are dropped, and an axis whose stride continues the next
inner one is joined with it. `View.toShape` asks for a description with given sizes, and fails if
no strides give one.
-/

namespace ArrayFusion.View

/-- Adds an axis inside the axes that are listed innermost first. -/
def joinAxis (outer : List Axis) (a : Axis) : List Axis :=
  if a.size = 1 then outer
  else match outer with
    | [] => [a]
    | last :: rest =>
      if last.stride = a.stride * a.size then ⟨last.size * a.size, a.stride⟩ :: rest
      else a :: last :: rest

/-- The fewest axes with the same offsets, innermost first. No axis has size one. -/
def joinedAxes (axes : List Axis) : List Axis := axes.foldl joinAxis []

/-- The view with the fewest axes, but at least one, and the same addresses. Constants and views
without positions stay as they are. -/
def simplify (v : View) : View :=
  if v.isConstant ∨ v.elements = 0 then v
  else
    let joined := joinedAxes v.axes
    { v with axes := if joined.isEmpty then [⟨1, 1⟩] else joined.reverse }

/-- Strides that spread joined axes over sizes, both listed innermost first. `rest` positions with
stride `stride` are left of the axis at hand. An axis of size one takes the stride at hand. -/
def spread (rest stride : Int) (joined : List Axis) : List Int → Option (List Int)
  | [] => if rest = 1 ∧ joined.isEmpty then some [] else none
  | size :: sizes =>
    if size = 1 then (spread rest stride joined sizes).map (stride :: ·)
    else
      match rest, joined with
      | 1, next :: joined =>
        if next.size.tmod size = 0 then
          (spread (next.size.tdiv size) (next.stride * size) joined sizes).map (next.stride :: ·)
        else none
      | rest, joined =>
        if rest.tmod size = 0 then
          (spread (rest.tdiv size) (stride * size) joined sizes).map (stride :: ·)
        else none

/-- Strides that give the sizes the same offsets as axes that are joined already. -/
def stridesFor (axes : List Axis) (shape : List Int) : Option (List Int) :=
  let strides := match (axes.filter (·.size ≠ 1)).reverse with
    | [] => spread 1 1 [] shape.reverse
    | first :: joined => spread first.size first.stride joined shape.reverse
  strides.map (·.reverse)

/-- The view with another shape and the same addresses. -/
def toShape (v : View) (shape : List Int) : Except Fault View :=
  if elementCount shape ≠ v.elements ∨ maxAxes < shape.length then
    .error (.noStridesFor v shape)
  else if v.elements = 0 then .ok { v with axes := rowMajor shape }
  else
    match stridesFor v.simplify.axes shape with
    | some strides => .ok { v with axes := List.zipWith Axis.mk shape strides }
    | none => .error (.noStridesFor v shape)

end ArrayFusion.View
