import ArrayFusion.Instruction.Basic

/-!
# Programs

A statement is an instruction together with the place in its program that it was taken from. A
changed instruction is no longer the one that stands there, so its statement has no place.
A program is a list of statements that runs a number of times, as long as a condition holds.
-/

namespace ArrayFusion

/-- An instruction and the place of the program where it stands unchanged. -/
structure Statement where
  instr : Instruction
  place : Option Nat := none
  deriving DecidableEq, Repr, Inhabited

namespace Statement

/-- Statements of a list of instructions, with consecutive places. -/
def number (is : List Instruction) (first : Nat) : List Statement :=
  is.zipIdx.map fun (i, k) => ⟨i, some (first + k)⟩

/-- A statement that stands at no place. -/
def fresh (i : Instruction) : Statement := ⟨i, none⟩

end Statement

structure Program where
  body : List Statement
  /-- The program runs at least once. -/
  repeats : Nat := 1
  /-- The program stops after a run when the first element of this base is false. -/
  condition : Option BaseId := none

namespace Program

/-- Some number of a view is read from a base. -/
def usesIndexArrays (p : Program) : Bool :=
  p.body.any fun s => s.instr.operands.any (·.usesIndexArrays)

def isSliding (p : Program) : Bool := p.body.any fun s => s.instr.operands.any (·.isSliding)

/-- Notation of a program: its repeats, then one instruction per line. -/
def text (p : Program) : String :=
  let condition := (p.condition.map fun b => ", condition: " ++ b.text).getD ""
  s!"Program(repeats: {p.repeats}" ++ condition ++ ")\n" ++
    String.join (p.body.map fun s => "  " ++ s.instr.text ++ "\n")

end Program

end ArrayFusion
