import ArrayFusion.Instruction.Basic
import ArrayFusion.Proofs.Element.Notation
import Mathlib.Data.List.Nodup

/-!
# Notation of operations

The name of an operation can be cut from a text in one way, and so can the number in parentheses that
follows the names of extensions and of folds and scans. Both together tell the operation and its axis.
-/

namespace ArrayFusion

open Text

/-- Characters of the names of operations. -/
def isNameChar (c : Char) : Bool := c.isUpper || c.isDigit || c == '_'

namespace Opcode

/-- The operations without the extensions. -/
def named : List Opcode := listed ++ [sync]

theorem mem_named (op : Opcode) : op ∈ named ∨ ∃ id, op = extension id := by
  cases op with
  | extension id => exact .inr ⟨id, rfl⟩
  | binary op | unary op | reduce op | accumulate op => cases op <;> exact .inl (by decide)
  | _ => exact .inl (by decide)

theorem nodup_names : ((extension 0 :: named).map name).Nodup := by decide +kernel

theorem name_injective {op op' : Opcode} (same : op.name = op'.name) :
    op = op' ∨ ∃ id id', op = extension id ∧ op' = extension id' := by
  obtain ⟨apart, distinct⟩ := List.nodup_cons.mp nodup_names
  have others : ∀ op ∈ named, op.name ≠ (extension 0).name := by
    intro op here same
    exact apart (List.mem_map.mpr ⟨op, here, same⟩)
  obtain here | ⟨id, rfl⟩ := op.mem_named
  · obtain here' | ⟨id', rfl⟩ := op'.mem_named
    · exact .inl (List.inj_on_of_nodup_map distinct here here' same)
    · exact absurd same (others op here)
  · obtain here' | ⟨id', rfl⟩ := op'.mem_named
    · exact absurd same.symm (others op' here')
    · exact .inr ⟨id, id', rfl, rfl⟩

/-- Characters of a name, where the second one is no digit. -/
def isName : List Char → Bool
  | c :: c' :: cs => isNameChar c && (isNameChar c' && !c'.isDigit) && cs.all isNameChar
  | _ => false

theorem isName_name (op : Opcode) : isName op.name.toList = true := by
  have names : ∀ op ∈ extension 0 :: named, isName op.name.toList = true := by decide +kernel
  obtain here | ⟨id, rfl⟩ := op.mem_named
  · exact names op (List.mem_cons_of_mem _ here)
  · exact names (extension 0) List.mem_cons_self

theorem isNameChar_name (op : Opcode) : ∀ c ∈ op.name.toList, isNameChar c = true := by
  have name := op.isName_name
  generalize op.name.toList = cs at name
  match cs with
  | [] | [_] => contradiction
  | c :: c' :: cs =>
    simp only [isName, Bool.and_eq_true, List.all_eq_true] at name
    exact List.forall_mem_cons.mpr ⟨name.1.1, List.forall_mem_cons.mpr ⟨name.1.2.1, name.2⟩⟩

/-- A name is not taken for a letter and a number. -/
theorem name_append_ne (op : Opcode) {x : Int} {c : Char} {rest more : List Char} :
    op.name.toList ++ more ≠ c :: ((toString x).toList ++ rest) := by
  intro same
  have name := op.isName_name
  generalize op.name.toList = cs at name same
  obtain ⟨d, ds, number, first⟩ := exists_toString_int_eq_cons x
  rw [number] at same
  match cs with
  | [] | [_] => contradiction
  | c :: c' :: cs =>
    obtain rfl : c' = d := (List.cons.inj (List.cons.inj same).2).1
    simp only [isName, Bool.and_eq_true, Bool.not_eq_true'] at name
    obtain digit | rfl := first
    · exact absurd digit (by rw [name.1.2.2]; decide)
    · exact absurd name.1.2.1 (by decide)

end Opcode

/-- Number in parentheses behind the name of an operation: the number of an extension, or the axis of
a fold or scan. -/
def Instruction.parameter? (i : Instruction) : Option Nat :=
  match i.opcode with
  | .extension id => some id
  | _ => i.sweepAxis?

/-- Characters of a number in parentheses. -/
def parameterText : Option Nat → List Char
  | none => []
  | some n => '(' :: (Nat.toDigits 10 n ++ [')'])

theorem parameterText_append_inj {n n' : Option Nat} {rest rest' : List Char} (ends : EndsWord rest)
    (ends' : EndsWord rest') (same : parameterText n ++ rest = parameterText n' ++ rest') :
    n = n' ∧ rest = rest' := by
  have closed : ∀ (cs more : List Char), EndsWord cs → cs ≠ '(' :: more := by
    rintro cs more ends rfl
    obtain head | head := ends <;> exact absurd (Option.some.inj head) (by decide)
  cases n with
  | none =>
    cases n' with
    | none => exact ⟨rfl, same⟩
    | some n' => exact absurd same (closed rest _ ends)
  | some n =>
    cases n' with
    | none => exact absurd same.symm (closed rest' _ ends')
    | some n' =>
      simp only [parameterText, List.cons_append, List.append_assoc] at same
      obtain ⟨rfl, more⟩ := digits_append_inj (stops_cons.mpr rfl) (stops_cons.mpr rfl)
        (List.cons.inj same).2
      exact ⟨rfl, (List.cons.inj more).2⟩

/-- The name and the number behind it tell the operation and its axis. -/
theorem Instruction.sameOperation {i j : Instruction} (names : j.opcode.name = i.opcode.name)
    (parameters : j.parameter? = i.parameter?) :
    j.opcode = i.opcode ∧ j.sweepAxis? = i.sweepAxis? := by
  have extension : ∀ (i : Instruction) (id : Nat), i.opcode = .extension id →
      i.parameter? = some id ∧ i.sweepAxis? = none := by
    intro i id opcode
    rw [parameter?, sweepAxis?, opcode]
    exact ⟨rfl, rfl⟩
  obtain same | ⟨id, id', own, other⟩ := Opcode.name_injective names
  · refine ⟨same, ?_⟩
    obtain ⟨op, vs, constant, creates⟩ := i
    obtain ⟨op', ws, constant', creates'⟩ := j
    obtain rfl : op' = op := same
    cases op' with
    | extension id => rfl
    | _ => exact parameters
  · obtain ⟨parameter, axis⟩ := extension j id own
    obtain ⟨parameter', axis'⟩ := extension i id' other
    rw [parameter, parameter', Option.some.injEq] at parameters
    rw [own, other, parameters, axis, axis']
    exact ⟨rfl, rfl⟩

end ArrayFusion
