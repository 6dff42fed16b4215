import ArrayFusion.Program.Basic

/-!
# Partitions of a program

Views are resolved once for a stretch of instructions, so no stretch may write a base and then use
it to address other arrays. `partitions` cuts a program into the longest such stretches, from the
front. Freeing a base that addresses arrays is put off until right after the last statement that
mentions it.
-/

namespace ArrayFusion

/-- Bases whose values address other arrays: index arrays of the operands, and the index operand
of an indirect operation. -/
def Instruction.indexReads (i : Instruction) : BaseSet :=
  if i.opcode.isIndirect then
    match i.operands[2]?.bind (·.base) with
    | some b => i.indexBases.insert b
    | none => i.indexBases
  else i.indexBases

namespace Stretch

/-- All bases whose values address arrays somewhere in the program. -/
def indexBases (body : List Statement) : BaseSet := .unions (body.map (·.instr.indexReads))

/-- The statement frees a base whose values address arrays. -/
def isDeferred (index : BaseSet) (s : Statement) : Bool :=
  s.instr.opcode == .free && s.instr.bases.meets index

/-- Cuts a program before every statement that uses a base written in the stretch so far. The
stretch so far is listed last statement first. -/
def cut (index : BaseSet) :
    (current : List Statement) → (written : BaseSet) → List Statement → List (List Statement)
  | current, _, [] => [current.reverse]
  | current, written, s :: rest =>
    let output := (s.instr.outputBase?.toList).filter (index.contains ·)
    if s.instr.indexReads.meets written then
      current.reverse :: cut index [s] (.ofList output) rest
    else cut index (s :: current) (written.union output) rest

/-- Cutting keeps all statements in their order. -/
theorem flatten_cut (index : BaseSet) (current : List Statement) (written : BaseSet)
    (body : List Statement) :
    (cut index current written body).flatten = current.reverse ++ body := by
  induction body generalizing current written with
  | nil => simp [cut]
  | cons s rest ih =>
    simp only [cut]
    split <;> simp [ih]

theorem cut_ne_nil (index : BaseSet) (current : List Statement) (written : BaseSet)
    (body : List Statement) : cut index current written body ≠ [] := by
  induction body generalizing current written with
  | nil => simp [cut]
  | cons s rest ih =>
    simp only [cut]
    split
    · simp
    · apply ih

/-- The statement mentions one of the bases. -/
def touches (bases : BaseSet) (s : Statement) : Bool :=
  (s.instr.bases.union s.instr.indexReads).meets bases

/-- Inserts a statement behind the last one that mentions one of the bases, if there is one. -/
def insertAfterLast (bases : BaseSet) (free : Statement) :
    List Statement → Option (List Statement)
  | [] => none
  | s :: rest =>
    match insertAfterLast bases free rest with
    | some rest => some (s :: rest)
    | none => if touches bases s then some (s :: free :: rest) else none

/-- Inserts into the last stretch where the bases are mentioned. -/
def placeFree? (bases : BaseSet) (free : Statement) :
    List (List Statement) → Option (List (List Statement))
  | [] => none
  | part :: parts =>
    match placeFree? bases free parts with
    | some parts => some (part :: parts)
    | none => (insertAfterLast bases free part).map (· :: parts)

/-- Appends to the last stretch. -/
def appendLast (free : Statement) : List (List Statement) → List (List Statement)
  | [] => []
  | [part] => [part ++ [free]]
  | part :: parts => part :: appendLast free parts

/-- Inserts a put off free. Bases that are mentioned nowhere are freed at the end. -/
def placeFree (parts : List (List Statement)) (free : Statement) : List (List Statement) :=
  (placeFree? free.instr.bases free parts).getD (appendLast free parts)

end Stretch

open Stretch in
/-- The stretches of a program, at least one. -/
def partitions (body : List Statement) : List (List Statement) :=
  let index := indexBases body
  let parts := cut index [] [] (body.filter (!isDeferred index ·))
  (body.filter (isDeferred index)).foldl placeFree parts

end ArrayFusion
