import ArrayFusion.Instruction.Edit
import ArrayFusion.Kernel.Symbols

/-!
# Array indices

The index of an array element is the start of its view plus, for every axis, the loop index times
the stride. Start and strides are numbers or parameters of the kernel. `IndexExpr.text` writes an
index, `IndexExpr.eval` is its value.
-/

namespace ArrayFusion

/-- A number in an array index. -/
inductive Coefficient where
  | literal (value : Int)
  /-- Parameter that holds the start of a view. -/
  | start (view : Nat)
  /-- Parameter that holds a stride of a view. -/
  | stride (view axis : Nat)
  deriving DecidableEq, Repr, Inhabited

namespace Coefficient

/-- Start of a sum. -/
def text : Coefficient → String
  | literal value => toString value
  | start view => s!"vo{view}"
  | stride view axis => s!"vs{view}_{axis}"

/-- Factor of a product, with parentheses around a sign. -/
def factorText : Coefficient → String
  | literal value => if value < 0 then s!"({value})" else toString value
  | c => c.text

end Coefficient

/-- Loop index times stride. -/
structure IndexTerm where
  axis : Nat
  /-- Added to the loop index. -/
  shift : Option Int := none
  factor : Coefficient
  deriving DecidableEq, Repr, Inhabited

/-- Sum of a start and one term per axis. -/
structure IndexExpr where
  start : Coefficient
  terms : List IndexTerm
  deriving DecidableEq, Repr, Inhabited

/-- A number with its sign. -/
def signedText (x : Int) : String := if x < 0 then toString x else "+" ++ toString x

namespace IndexTerm

/-- The loop index, in parentheses if something is added to it. -/
def indexText (t : IndexTerm) : String :=
  match t.shift with
  | some x => s!"(i{t.axis}" ++ signedText x ++ ")"
  | none => s!"i{t.axis}"

def text (t : IndexTerm) : String := " +" ++ t.indexText ++ "*" ++ t.factor.factorText

end IndexTerm

namespace IndexExpr

def text (e : IndexExpr) : String :=
  e.start.text ++ String.join (e.terms.map (·.text))

/-- Value of an index, for given values of its coefficients and of the loop indices. -/
def eval (coefficient : Coefficient → Int) (index : Nat → Int) (e : IndexExpr) : Int :=
  coefficient e.start +
    e.terms.foldr (fun t sum => (index t.axis + t.shift.getD 0) * coefficient t.factor + sum) 0

/-- Index of the `k`-th operand of an instruction. A shift moves the index along one axis. -/
def ofOperand (s : Symbols) (i : Instruction) (k : Nat) (v : View)
    (shift : Option (Nat × Int) := none) : IndexExpr :=
  let n := s.viewNumber v
  let byParameter := s.hasParameters v
  let term (axis : Nat) : Option IndexTerm := do
    let own ← i.operandAxis? k axis
    let stride := v.strides[own]?.getD 0
    if !byParameter && stride == 0 then none
    else
      some {
        axis
        shift := shift.bind fun (a, x) => if a = axis then some x else none
        factor := if byParameter then .stride n own else .literal stride }
  { start := if byParameter then .start n else .literal v.start
    terms := (List.range i.ndim).filterMap term }

end IndexExpr

end ArrayFusion
