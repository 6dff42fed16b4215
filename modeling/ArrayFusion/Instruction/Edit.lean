import ArrayFusion.View.Edit
import ArrayFusion.View.Reshape

/-!
# Changed instructions

An instruction can be given another shape, lose an axis, or have two axes swapped. To run the
first index of an axis apart from the others, `sliceAxis` fixes the axis in all operands that
follow it, and `advanceAxis` skips the first index. A fold or scan over a fixed axis is a copy.
-/

namespace ArrayFusion.Instruction

/-- The instruction marked as creating the base of its output. -/
def asCreator (i : Instruction) : Instruction := { i with creates := true }

/-- Agreement in everything but the element types and motion of the operands. -/
def sameAs (i j : Instruction) : Bool :=
  i.opcode == j.opcode && i.constant == j.constant && i.creates == j.creates &&
    i.operands.length == j.operands.length &&
    (List.zipWith View.sameAccess i.operands j.operands).all id

/-- All operands can be given another shape together. -/
def isReshapable (i : Instruction) : Bool :=
  i.opcode.isElementwise &&
    i.operands.all fun v =>
      v.isConstant || (v.shape == i.shape && !v.usesIndexArrays && !v.isSliding)

/-- Applies a change to the operands that are no constants, up to the first failure. -/
def mapArrays (i : Instruction) (f : View → Except Fault View) : Except Fault Instruction := do
  let operands ← i.operands.mapM fun v => if v.isConstant then pure v else f v
  pure { i with operands }

/-- The instruction with another shape. -/
def reshape (i : Instruction) (shape : List Int) : Except Fault Instruction :=
  if i.isReshapable then i.mapArrays (·.toShape shape) else .error (.notReshapable i)

/-- The constant of a fold or scan that lost an axis before its own. -/
def constantWithout (i : Instruction) (axis : Nat) : Option Constant :=
  match i.sweepAxis? with
  | some s => if axis < s then some (.int64 (s - 1)) else i.constant
  | none => i.constant

/-- The instruction without an axis other than that of its fold or scan. The output of a fold has
no such axis, so that later axes come one place earlier in it. -/
def removeAxis (i : Instruction) (axis : Nat) : Instruction :=
  let place (k : Nat) : Nat :=
    match i.sweepAxis? with
    | some s => if k = 0 ∧ i.opcode.isReduction ∧ s < axis then axis - 1 else axis
    | none => axis
  { i with
    operands := i.operands.mapIdx fun k v => if v.isConstant then v else v.dropAxis (place k)
    constant := i.constantWithout axis }

/-- The instruction with two axes swapped in all operands. -/
def transposed (i : Instruction) (a b : Nat) : Except Fault Instruction := do
  if i.opcode.isReduction then throw (.transposedReduction i)
  let j ← i.mapArrays fun v =>
    if v.ndim ≤ a ∨ v.ndim ≤ b then .error (.axesNotSwappable a b v) else .ok (v.swapAxes a b)
  match i.sweepAxis? with
  | some s => pure { j with constant := some (.int64 (if s = a then b else if s = b then a else s)) }
  | none => pure j

/-- Axis of the `k`-th operand that the loop over an axis of the positions runs along. The output
of a fold stands still along the axis of the fold; it may lack this axis or keep it with size
one. -/
def operandAxis? (i : Instruction) (k axis : Nat) : Option Nat :=
  match i.operands[k]? with
  | none => none
  | some v =>
    let direct := if axis < v.ndim then some axis else none
    if v.isConstant || i.isIndirect k then none
    else if k = 0 ∧ i.opcode.isReduction then
      match i.sweepAxis? with
      | none => none
      | some s =>
        let inputAxes := (i.operands[1]?.map (·.ndim)).getD 0
        if axis = s then none
        else if v.ndim + 1 = inputAxes ∧ s < axis then some (axis - 1)
        else direct
    else direct

/-- Applies a change to every operand that follows an axis of the positions. -/
def alongAxis (i : Instruction) (axis : Nat) (f : View → Nat → View) : List View :=
  i.operands.mapIdx fun k v =>
    match i.operandAxis? k axis with
    | some a => f v a
    | none => v

/-- The instruction at one index of an axis. -/
def sliceAxis (i : Instruction) (axis : Nat) (index : Int) : Instruction :=
  let operands := i.alongAxis axis fun v a => v.fixAxis a index
  if i.sweepAxis? = some axis then
    { i with opcode := .unary .identity, operands := operands.take 2, constant := none }
  else { i with operands, constant := i.constantWithout axis }

/-- The instruction without the first index of an axis. -/
def advanceAxis (i : Instruction) (axis : Nat) : Instruction :=
  { i with operands := i.alongAxis axis View.advanceAxis }

end ArrayFusion.Instruction
