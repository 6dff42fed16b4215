import ArrayFusion.Proofs.Eval.Order

/-!
# What elementwise instructions write

An elementwise instruction writes one value to one element of its output wherever the loops stand.
The value depends on its inputs alone: an output is an operand like the others, but it is not read.
Without a base to write to, the instruction fails. If all operands have the shape of the positions,
every operand is accessed at the position where the instruction is.
-/

namespace ArrayFusion.Instruction

open Shape View

variable {i : Instruction} {a a' : Arena} {ts : Turns} {p : List Int} {b : BaseId} {x : Int}

/-- The value that an elementwise instruction writes, if there is one. -/
def result? (i : Instruction) (a : Arena) (ts : Turns) : Option Scalar :=
  if i.isEvaluable then
    match i.opcode with
    | .range => some (.signed (i.flatIndex ts))
    | .random =>
      match i.constant with
      | some (.random start key) =>
        some (.unsigned (Philox.word start key (UInt64.ofInt (i.flatIndex ts))).toNat)
      | _ => none
    | _ => (i.elementValue a ts).toOption
  else none

theorem toOption_effect? (elementwise : i.opcode.isElementwise = true) (a : Arena) (ts : Turns) :
    (i.effect? a ts).toOption =
      (i.result? a ts).bind fun x => (i.writeTo (i.offset ts 0) x).toOption.map some := by
  have notSystem := not_isSystem_of_isElementwise elementwise
  have some_of : ∀ x : Except Fault Write,
      (x >>= fun w => pure (some w)).toOption = x.toOption.map some := by
    rintro (_ | _) <;> rfl
  rw [effect?, result?, notSystem]
  cases evaluable : i.isEvaluable with
  | false => rfl
  | true =>
  simp only [Bool.false_eq_true, if_false, Bool.not_true, if_true]
  cases op : i.opcode <;> rw [op] at elementwise <;> try contradiction
  case range => exact some_of _
  case random =>
    cases i.constant with
    | none => rfl
    | some c => cases c <;> first | rfl | exact some_of _
  all_goals
    simp only [toOption_bind]
    congr 1
    funext x
    cases i.writeTo (i.offset ts 0) x <;> rfl

/-- The value depends on nothing but the inputs. -/
theorem result?_congr
    (loads : ∀ k, k ≠ 0 → (i.loadAt a' ts k).toOption = (i.loadAt a ts k).toOption) :
    i.result? a' ts = i.result? a ts := by
  rw [result?, result?]
  split
  · split
    · rfl
    · rfl
    · exact elementValue_congr rfl rfl (fun _ => rfl) loads
  · rfl

/-- An elementwise instruction that has no base to write to fails. -/
theorem act_of_outputBase?_eq_none (elementwise : i.opcode.isElementwise = true)
    (output : i.outputBase? = none) (ts : Turns) : i.act ts = ⟨fun _ => none⟩ := by
  refine Action.ext fun a => ?_
  have unwritten : ∀ x v, (i.writeTo x v).toOption = none := by
    intro x v
    rw [writeTo, output]
    rfl
  rw [run_act, toOption_effect? elementwise]
  cases i.result? a ts with
  | none => rfl
  | some x => rw [Option.bind_some, unwritten]; rfl

/-! ## Operands of one shape -/

/-- An elementwise instruction on views that can be built and that all have the shape of its
positions. -/
structure Pointwise (i : Instruction) : Prop where
  elementwise : i.opcode.isElementwise = true
  views : i.WellFormed
  whole : ∀ v ∈ i.operands, v.isConstant = false → v.shape = i.shape

instance (i : Instruction) : Decidable i.Pointwise :=
  decidable_of_iff (_ ∧ _ ∧ _)
    ⟨fun ⟨elementwise, views, whole⟩ => ⟨elementwise, views, whole⟩,
      fun ⟨elementwise, views, whole⟩ => ⟨elementwise, views, whole⟩⟩

namespace Pointwise

theorem isSweep (h : i.Pointwise) : i.opcode.isSweep = false :=
  not_isSweep_of_isElementwise h.elementwise

theorem isIndirect (h : i.Pointwise) (k : Nat) : i.isIndirect k = false :=
  isIndirect_of_isElementwise h.elementwise k

/-- Every operand is accessed at the position of the instruction. -/
theorem offset_eq (h : i.Pointwise) (range : InRange i.shape p) {k : Nat} {v : View}
    (hv : i.operands[k]? = some v) (array : v.isConstant = false) :
    i.offset (i.turns p) k = v.start + offsetAt v.axes p := by
  have notFold : ¬ (k = 0 ∧ i.opcode.isReduction = true) := by
    simp [isReduction_eq_false h.isSweep]
  rw [Instruction.offset_eq (i.standsAt_turns p).at_p range.length_eq hv,
    seenAxes_direct hv array (h.isIndirect k) notFold (h.whole v (List.mem_of_getElem? hv) array)]

theorem offset_mem_addresses (h : i.Pointwise) (range : InRange i.shape p) {k : Nat} {v : View}
    (hv : i.operands[k]? = some v) (array : v.isConstant = false) :
    i.offset (i.turns p) k ∈ v.addresses := by
  have member := List.mem_of_getElem? hv
  rw [h.offset_eq range hv array, mem_addresses (h.views v member).sizes, h.whole v member array]
  exact ⟨p, range, rfl⟩

theorem of_touches (h : i.Pointwise) (touched : i.Touches ts b x) :
    ∃ k v, i.operands[k]? = some v ∧ v.base = some b ∧ x = i.offset ts k := by
  obtain ⟨k, v, hv, base, place⟩ := touched
  have notScan := isAccumulate_eq_false h.isSweep
  exact ⟨k, v, hv, base, by simpa [h.isIndirect, notScan] using place⟩

theorem of_writes (h : i.Pointwise) (written : i.Writes ts b x) :
    ∃ v, i.operands[0]? = some v ∧ v.base = some b ∧ x = i.offset ts 0 := by
  obtain ⟨v, hv, base, place⟩ := written
  exact ⟨v, hv, base, by simpa [h.isIndirect] using place⟩

end Pointwise

end ArrayFusion.Instruction
