import ArrayFusion.Eval.Nest

/-!
# Matrix product

A method that is provided from outside: the product of two matrices. All elements are computed
before the first one is written, so the output may share its base with an input.
-/

namespace ArrayFusion

/-- An instruction that is carried out by the host. The base of its output is allocated. -/
abbrev Extension := Instruction → Exec Unit

/-- A view with two axes on a base. -/
structure MatrixView where
  view : View
  base : BaseId
  rows : Axis
  columns : Axis

namespace MatrixView

/-- The `k`-th operand as a matrix. -/
def ofOperand (i : Instruction) (k : Nat) : Except Fault MatrixView :=
  match i.operands[k]? with
  | some v =>
    match v.base, v.axes with
    | some b, [rows, columns] => .ok ⟨v, b, rows, columns⟩
    | _, _ => .error (.notAMatrix k i)
  | none => .error (.notAMatrix k i)

def shape (m : MatrixView) : List Int := [m.rows.size, m.columns.size]

/-- Position of an element in its base. -/
def position (m : MatrixView) (row column : Int) : Except Fault Nat :=
  let offset := m.view.start + row * m.rows.stride + column * m.columns.stride
  if offset < 0 then .error (.negativeMatrixElement m.view) else .ok offset.toNat

/-- Value of an element. -/
def read (m : MatrixView) (i : Instruction) (b : Buffer) (row column : Int) :
    Except Fault Float := do
  match b.float? (← m.position row column) with
  | some x => pure x
  | none => throw (.matrixRead i)

/-- The numbers below a bound. -/
def below (n : Int) : List Int := (List.range n.toNat).map Int.ofNat

/-- Sum of the products of a row and a column, first product first. -/
def dot (i : Instruction) (a b : MatrixView) (abuf bbuf : Buffer) (row column : Int) :
    Except Fault Float :=
  (below a.columns.size).foldlM (fun sum k => do
    let x ← a.read i abuf row k
    let y ← b.read i bbuf k column
    pure (sum + x * y)) 0.0

/-- Elements of the product, row by row, with their places. -/
def product (i : Instruction) (a b : MatrixView) (arena : Arena) :
    Except Fault (List ((Int × Int) × Float)) := do
  let abuf ← arena.buffer a.base
  let bbuf ← arena.buffer b.base
  let places := (below a.rows.size).flatMap fun r => (below b.columns.size).map fun c => (r, c)
  places.mapM fun (r, c) => do pure ((r, c), ← dot i a b abuf bbuf r c)

/-- Writes one element. -/
def store (out : MatrixView) (place : Int × Int) (x : Float) (arena : Arena) :
    Except Fault Arena := do
  arena.setFloat out.base (← out.position place.1 place.2) x

end MatrixView

open MatrixView in
/-- The product of two matrices, into a third one. -/
def Extension.matrixProduct : Extension := fun i => do
  let out ← ofOperand i 0
  let a ← ofOperand i 1
  let b ← ofOperand i 2
  if b.rows.size ≠ a.columns.size ∨ out.shape ≠ [a.rows.size, b.columns.size] then
    throw (.matrixShapes a.shape b.shape out.shape)
  if a.rows.size * b.columns.size < 0 then throw .missingPart
  let elements ← product i a b (← get)
  let _ ← (← get).buffer out.base
  elements.forM fun (place, x) => Exec.change (store out place x)

end ArrayFusion
