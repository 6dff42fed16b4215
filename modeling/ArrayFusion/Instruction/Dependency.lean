import ArrayFusion.Instruction.Basic
import ArrayFusion.View.Overlap

/-!
# Dependency and compatibility of instructions

`Instruction.dependent` says whether the order of two instructions may matter: one writes what the
other accesses or uses to address its views, or a system operation names a base of the other.
`Instruction.compatible` says whether two instructions can run one after the other at every single
position: whatever one writes, the other accesses at the same position or not at all.
-/

namespace ArrayFusion.Instruction

/-- The `k`-th operand of `i` and the `l`-th operand of `j` may share an element. -/
def overlap (i : Instruction) (k : Nat) (j : Instruction) (l : Nat) : Bool :=
  match i.operands[k]?, j.operands[l]? with
  | some v, some w =>
    if v.isConstant || w.isConstant then false
    else if i.isIndirect k || j.isIndirect l then v.base == w.base
    else !v.disjoint w
  | _, _ => false

/-- What `i` writes may be accessed by `j`. -/
def outputMeets (i j : Instruction) : Bool :=
  (List.range j.operands.length).any fun l => i.overlap 0 j l

/-- What `i` writes is used to address the views of `j`. -/
def addresses (i j : Instruction) : Bool :=
  match i.outputBase? with
  | some b => j.indexBases.contains b
  | none => false

/-- The order of the instructions may matter. -/
def dependent (i j : Instruction) : Bool :=
  if i.opcode == .none || j.opcode == .none then false
  else if (i.opcode.isSystem || j.opcode.isSystem) && i.bases.meets j.bases then true
  else if i.operands.isEmpty || j.operands.isEmpty then false
  else i.addresses j || j.addresses i || i.outputMeets j || j.outputMeets i

/-- Whatever `i` writes, `j` accesses at the same position or not at all. -/
def writesInStep (i j : Instruction) : Bool :=
  match i.operands[0]? with
  | none => true
  | some out =>
    j.operands.zipIdx.all fun (v, l) =>
      if v.isConstant || out.base != v.base then true
      else if i.isIndirect 0 || j.isIndirect l then false
      else out.disjoint v || out.sameAccess v

/-- The instructions can run one after the other at every single position. -/
def compatible (i j : Instruction) : Bool :=
  if i.opcode.isSystem || j.opcode.isSystem then true
  else if i.operands.isEmpty || j.operands.isEmpty then true
  else i.writesInStep j && j.writesInStep i

end ArrayFusion.Instruction
