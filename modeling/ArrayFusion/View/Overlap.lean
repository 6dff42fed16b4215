import ArrayFusion.View.Basic

/-!
# Views that share no element

`View.disjoint` is a test that may say no although the views share nothing, but never says yes
although they do. It separates views on different bases, views whose address ranges do not meet,
and interleaved views: if every stride is a multiple of `g`, the addresses of a view are its start
modulo `g`.
-/

namespace ArrayFusion.View

/-- Greatest common divisor of the strides along which the axes really move. -/
def grain (axes : List Axis) : Nat :=
  axes.foldl (fun g a => if 1 < a.size then g.gcd a.stride.natAbs else g) 0

/-- The views provably share no element. -/
def disjoint (v w : View) : Bool :=
  if v.isConstant || w.isConstant || v.base != w.base then true
  else if v.usesIndexArrays || w.usesIndexArrays then false
  else if v.elements == 0 || w.elements == 0 then true
  else
    let (lowV, highV) := v.extent
    let (lowW, highW) := w.extent
    if highV < lowW || highW < lowV then true
    else
      let g := grain (v.axes ++ w.axes)
      decide (1 < g) && (v.start - w.start) % g != 0

end ArrayFusion.View
