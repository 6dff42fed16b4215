import ArrayFusion.View.Basic

/-!
# Slice notation of views

A view is written as one slice `from:to:step` per axis, in elements of its base. The start is
spread over the axes, the axis with the longest stride taking its share first. What no axis takes
is added behind the slices.
-/

namespace ArrayFusion.View

/-- Axes with their positions, long strides first, equal strides in their order. -/
def byStride (axes : List Axis) : List (Nat × Axis) :=
  (axes.zipIdx.map fun (a, d) => (d, a)).mergeSort fun x y =>
    decide (y.2.stride.natAbs ≤ x.2.stride.natAbs)

/-- Shares of the axes in a start, and what is left of it. -/
def shares : Int → List (Nat × Axis) → List (Nat × Int) × Int
  | rest, [] => ([], rest)
  | rest, (d, a) :: axes =>
    if a.stride = 0 then
      let (found, left) := shares rest axes
      ((d, 0) :: found, left)
    else
      let (found, left) := shares (rest.tmod a.stride) axes
      ((d, rest.tdiv a.stride) :: found, left)

/-- Slice notation of a view. -/
def sliceText (v : View) : String :=
  match v.base with
  | none => "const"
  | some b =>
    let (found, left) := shares v.start (byStride v.axes)
    let slices := v.axes.zipIdx.map fun (a, d) =>
      let from_ := (found.lookup d).getD 0 * a.stride
      s!"{from_}:{from_ + a.size * a.stride}:{a.stride}"
    let tail := if left = 0 then "" else s!"+{left}"
    b.text ++ "[" ++ ",".intercalate slices ++ tail ++ "]"

end ArrayFusion.View
