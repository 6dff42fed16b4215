import ArrayFusion.Proofs.Instruction.Reshape

/-!
# Instructions that run in step

Two instructions are aligned if whatever one of them writes, the other one accesses in the same
order or not at all. Compatible instructions are aligned, and unlike compatibility this survives
when only one of them is reshaped. An instruction is isolated from another one if that one accesses
nothing of what it writes.
-/

namespace ArrayFusion.Instruction

variable {i i' j j' : Instruction}

/-! ## Kinds of instructions -/

theorem not_isSystem_of_isElementwise (h : i.opcode.isElementwise = true) :
    i.opcode.isSystem = false := by
  cases op : i.opcode <;> simp_all [Opcode.isElementwise, Opcode.isSystem]

theorem not_isSystem_of_isSweep (h : i.opcode.isSweep = true) : i.opcode.isSystem = false := by
  cases op : i.opcode <;> simp_all [Opcode.isSweep, Opcode.isSystem]

theorem not_isSweep_of_isElementwise (h : i.opcode.isElementwise = true) :
    i.opcode.isSweep = false := by
  cases op : i.opcode <;> simp_all [Opcode.isElementwise, Opcode.isSweep]

theorem isSweep_of_isReduction (h : i.opcode.isReduction = true) : i.opcode.isSweep = true := by
  cases op : i.opcode <;> simp_all [Opcode.isReduction, Opcode.isSweep]

theorem isReduction_eq_false (h : i.opcode.isSweep = false) : i.opcode.isReduction = false := by
  cases op : i.opcode <;> simp_all [Opcode.isReduction, Opcode.isSweep]

theorem isAccumulate_eq_false (h : i.opcode.isSweep = false) : i.opcode.isAccumulate = false := by
  cases op : i.opcode <;> simp_all [Opcode.isAccumulate, Opcode.isSweep]

/-- An instruction does not both fold and scan. -/
theorem not_isAccumulate_of_isReduction (h : i.opcode.isReduction = true) :
    i.opcode.isAccumulate = false := by
  cases op : i.opcode <;> simp_all [Opcode.isReduction, Opcode.isAccumulate]

theorem not_isReduction_of_isAccumulate (h : i.opcode.isAccumulate = true) :
    i.opcode.isReduction = false := by
  cases op : i.opcode <;> simp_all [Opcode.isAccumulate, Opcode.isReduction]

/-- No operand of an elementwise instruction is addressed by values. -/
theorem isIndirect_of_isElementwise (h : i.opcode.isElementwise = true) (k : Nat) :
    i.isIndirect k = false := by
  cases op : i.opcode <;> simp_all [Opcode.isElementwise, isIndirect]

/-- No operand of a fold or scan is addressed by values. -/
theorem isIndirect_of_isSweep (h : i.opcode.isSweep = true) (k : Nat) : i.isIndirect k = false := by
  cases op : i.opcode <;> simp_all [Opcode.isSweep, isIndirect]

theorem sweepAxis?_of_isElementwise (h : i.opcode.isElementwise = true) :
    i.sweepAxis? = none := by
  rw [sweepAxis?, not_isSweep_of_isElementwise h]
  rfl

theorem isSweep_of_sweepAxis? {s : Nat} (h : i.sweepAxis? = some s) : i.opcode.isSweep = true := by
  rw [sweepAxis?] at h
  split at h
  · assumption
  · contradiction

/-- An axis that fits in 63 bits is read back from the constant that stands for it. -/
theorem sweepAxis?_of_constant {s : Nat} (sweep : i.opcode.isSweep = true)
    (constant : i.constant = some (.int64 s)) (small : s < 2 ^ 63) : i.sweepAxis? = some s := by
  have signed : IntType.int64.wrap s = s := by
    simp only [IntType.wrap, IntType.int64, if_true, IntType.modulus, Width.bits,
      Nat.one_shiftLeft]
    exact Int.bmod_eq_of_le (by omega) (by omega)
  have unsigned : IntType.uint64.wrap s = s := by
    simp only [IntType.wrap, IntType.uint64, Bool.false_eq_true, if_false, IntType.modulus,
      Width.bits, Nat.one_shiftLeft]
    exact Int.emod_eq_of_lt (by omega) (by omega)
  have value : (Constant.int64 s).toInt = s := by
    simp only [Constant.toInt, Constant.integral?, Constant.int64, signed]
  rw [sweepAxis?, if_pos sweep, constant, Option.map_some, value, unsigned, Int.toNat_natCast]

theorem isElementwise_of_isReshapable (h : i.isReshapable = true) :
    i.opcode.isElementwise = true := by
  rw [isReshapable, Bool.and_eq_true] at h
  exact h.1

/-! ## Shapes -/

theorem shape_of_isElementwise (h : i.opcode.isElementwise = true) :
    i.shape = (i.operands.head?.map (·.shape)).getD [] := by
  obtain ⟨opcode, operands, constant, creates⟩ := i
  cases opcode <;> first | contradiction | (cases operands <;> rfl)

/-- The positions of an instruction are those of one of its operands, or just one. -/
theorem shape_eq_nil_or_mem (i : Instruction) :
    i.shape = [] ∨ ∃ v ∈ i.operands, i.shape = v.shape := by
  obtain ⟨opcode, operands, constant, creates⟩ := i
  cases opcode <;> rcases operands with _ | ⟨out, _ | ⟨input, rest⟩⟩ <;>
    simp [shape, Opcode.isSystem]

theorem ndim_le_maxAxes (wf : i.WellFormed) : i.ndim ≤ maxAxes := by
  rcases i.shape_eq_nil_or_mem with empty | ⟨v, hv, same⟩
  · rw [ndim, empty]
    exact Nat.zero_le _
  · rw [ndim, same, View.length_shape]
    exact (wf v hv).axisCount

theorem shape_nonneg_of_operands (sizes : ∀ v ∈ i.operands, ∀ n ∈ v.shape, 0 ≤ n) :
    ∀ n ∈ i.shape, 0 ≤ n := by
  intro n hn
  obtain empty | ⟨v, hv, same⟩ := i.shape_eq_nil_or_mem
  · rw [empty] at hn
    simp at hn
  · exact sizes v hv n (same ▸ hn)

theorem shape_nonneg (wf : i.WellFormed) : ∀ n ∈ i.shape, 0 ≤ n := by
  apply shape_nonneg_of_operands
  intro v hv n hn
  obtain ⟨a, ha, rfl⟩ := List.mem_map.mp hn
  exact (wf v hv).sizes a ha

/-- An elementwise instruction that has no base to write to has one position without indices. -/
theorem shape_of_outputBase?_eq_none (wf : i.WellFormed)
    (elementwise : i.opcode.isElementwise = true) (output : i.outputBase? = none) :
    i.shape = [] := by
  rw [shape_of_isElementwise elementwise]
  rw [outputBase?] at output
  cases hout : i.operands.head? with
  | none => rfl
  | some out =>
      rw [hout, Option.bind_some] at output
      have constant : out.isConstant = true := by
        rw [View.isConstant, output]
        rfl
      have axes := (wf out (List.mem_of_mem_head? hout)).scalar constant
      simp [View.shape, axes]

/-- A reshaped instruction has the shape that was asked for, unless its output is a constant. -/
theorem shape_of_reshape_of_output {shape : List Int} (wf : i.WellFormed)
    (hshape : ∀ n ∈ shape, 0 ≤ n) (output : i.outputBase? ≠ none) (h : i.reshape shape = .ok j) :
    j.shape = shape := by
  obtain ⟨reshapable, -, operands⟩ := operands_of_reshape h
  have elementwise := isElementwise_of_isReshapable reshapable
  have elementwise' : j.opcode.isElementwise = true := by
    rw [(similar_of_reshape wf hshape h).opcode]
    exact elementwise
  rw [outputBase?] at output
  rw [shape_of_isElementwise elementwise']
  generalize houtputs : i.operands = outputs at operands output
  generalize j.operands = outputs' at operands
  cases operands with
  | nil => simp at output
  | @cons out out' rest _ head _ =>
      have wfOut : out.WellFormed := wf out (by rw [houtputs]; simp)
      have array : out.isConstant = false := by
        rw [View.isConstant, Option.isNone_eq_false_iff, ← Option.ne_none_iff_isSome]
        simpa using output
      rw [if_neg (by simp [array])] at head
      simpa using (View.reshaped_of_toShape head wfOut array hshape).2

theorem shape_of_reshape {shape : List Int} (wf : i.WellFormed) (hshape : ∀ n ∈ shape, 0 ≤ n)
    (positions : i.shape ≠ []) (h : i.reshape shape = .ok j) : j.shape = shape := by
  have elementwise := isElementwise_of_isReshapable (operands_of_reshape h).1
  exact shape_of_reshape_of_output wf hshape
    (fun output => positions (shape_of_outputBase?_eq_none wf elementwise output)) h

/-- An axis is split by giving the instruction another shape. -/
theorem reshape_of_splitAxis {axis : Nat} {size : Int} (h : i.splitAxis axis size = .ok j) :
    ∃ n, i.shape[axis]? = some n ∧ 0 < size ∧ size ∣ n ∧
      i.reshape (i.shape.take axis ++ size :: n / size :: i.shape.drop (axis + 1)) = .ok j := by
  rw [splitAxis] at h
  split at h
  · contradiction
  next n found =>
    split at h
    · contradiction
    next divides =>
      obtain ⟨positive, remainder⟩ := not_or.mp divides
      exact ⟨n, found, not_le.mp positive, Int.dvd_of_emod_eq_zero (not_not.mp remainder), h⟩

theorem splitShape_nonneg {shape : List Int} {axis : Nat} {n size : Int}
    (sizes : ∀ m ∈ shape, 0 ≤ m) (found : shape[axis]? = some n) (positive : 0 < size) :
    ∀ m ∈ shape.take axis ++ size :: n / size :: shape.drop (axis + 1), 0 ≤ m := by
  have hn := sizes n (List.mem_of_getElem? found)
  refine List.forall_mem_append.mpr ⟨fun m hm => sizes m (List.mem_of_mem_take hm), ?_⟩
  refine List.forall_mem_cons.mpr ⟨by omega, List.forall_mem_cons.mpr ⟨?_, fun m hm => ?_⟩⟩
  · exact Int.ediv_nonneg hn (by omega)
  · exact sizes m (List.mem_of_mem_drop hm)

/-- What splitting an axis does. -/
theorem splitAxis_spec {axis : Nat} {size : Int} (wf : i.WellFormed)
    (h : i.splitAxis axis size = .ok j) :
    ∃ n, i.shape[axis]? = some n ∧ 0 < size ∧ size ∣ n ∧ i.isReshapable = true ∧
      (∀ m ∈ j.shape, 0 ≤ m) ∧ i.reshape j.shape = .ok j ∧
      j.shape = i.shape.take axis ++ size :: n / size :: i.shape.drop (axis + 1) := by
  obtain ⟨n, found, positive, divides, reshaped⟩ := reshape_of_splitAxis h
  have hshape := splitShape_nonneg (shape_nonneg wf) found positive
  have positions : i.shape ≠ [] := by
    intro empty
    rw [empty] at found
    simp at found
  have shape := shape_of_reshape wf hshape positions reshaped
  exact ⟨n, found, positive, divides, (operands_of_reshape reshaped).1, shape ▸ hshape,
    shape ▸ reshaped, shape⟩

/-! ## Aligned and isolated instructions -/

/-- Whatever `i` writes, `j` accesses in the same order or not at all. -/
def WritesAligned (i j : Instruction) : Prop :=
  ∀ out, i.operands[0]? = some out → ∀ l v, j.operands[l]? = some v → v.isConstant = false →
    out.base = v.base → i.isIndirect 0 = false ∧ j.isIndirect l = false ∧
      (out.disjoint v = true ∨ out.addresses = v.addresses)

/-- Whatever one instruction writes, the other one accesses in the same order or not at all. -/
def Aligned (i j : Instruction) : Prop := i.WritesAligned j ∧ j.WritesAligned i

/-- Nothing that `i` writes is accessed by `j`. -/
def Isolated (i j : Instruction) : Prop :=
  ∀ out, i.operands[0]? = some out → ∀ v ∈ j.operands, out.disjoint v = true

theorem writesAligned_of_writesInStep (h : i.writesInStep j = true) : i.WritesAligned j := by
  intro out hout l v hv array base
  rw [writesInStep, hout] at h
  simp only [List.all_eq_true] at h
  have checked := h (v, l) (List.mem_zipIdx_iff_getElem?.mpr hv)
  simp only [array, base, bne_self_eq_false, Bool.or_self, Bool.false_eq_true, if_false] at checked
  split at checked
  · contradiction
  next direct =>
    simp only [Bool.or_eq_true, not_or, Bool.not_eq_true] at direct checked
    exact ⟨direct.1, direct.2, checked.imp id View.addresses_of_sameAccess⟩

theorem aligned_of_compatible (hi : i.opcode.isSystem = false) (hj : j.opcode.isSystem = false)
    (h : i.compatible j = true) : i.Aligned j := by
  rw [compatible, hi, hj] at h
  simp only [Bool.or_self, Bool.false_eq_true, if_false] at h
  split at h
  next empty =>
    simp only [Bool.or_eq_true, List.isEmpty_iff] at empty
    refine ⟨fun out hout l v hv => ?_, fun out hout l v hv => ?_⟩
    · rcases empty with empty | empty <;> simp [empty] at hout hv
    · rcases empty with empty | empty <;> simp [empty] at hout hv
  next =>
    rw [Bool.and_eq_true] at h
    exact ⟨writesAligned_of_writesInStep h.1, writesAligned_of_writesInStep h.2⟩

theorem WritesAligned.similar (hi : Similar i i') (hj : Similar j j') (h : i.WritesAligned j) :
    i'.WritesAligned j' := by
  intro out' hout' l v' hv' array base
  have first := forall₂_getElem? hi.operands 0
  have second := forall₂_getElem? hj.operands l
  rw [hout'] at first
  rw [hv'] at second
  generalize hout : i.operands[0]? = out at first
  generalize hv : j.operands[l]? = v at second
  cases first with
  | some sameOut =>
      cases second with
      | some sameV =>
          rw [sameV.isConstant] at array
          rw [sameOut.base, sameV.base] at base
          rw [hi.indistinct.isIndirect, hj.indistinct.isIndirect,
            sameOut.indistinct.disjoint_eq sameV.indistinct, sameOut.addresses, sameV.addresses]
          exact h _ hout l _ hv array base

theorem Aligned.similar (hi : Similar i i') (hj : Similar j j') (h : i.Aligned j) :
    i'.Aligned j' := ⟨h.1.similar hi hj, h.2.similar hj hi⟩

theorem Isolated.similar (hi : Similar i i') (hj : Similar j j') (h : i.Isolated j) :
    i'.Isolated j' := by
  intro out' hout' v' hv'
  obtain ⟨l, hl⟩ := List.getElem?_of_mem hv'
  have first := forall₂_getElem? hi.operands 0
  have second := forall₂_getElem? hj.operands l
  rw [hout'] at first
  rw [hl] at second
  generalize hout : i.operands[0]? = out at first
  generalize hv : j.operands[l]? = v at second
  cases first with
  | some sameOut =>
      cases second with
      | some sameV =>
          rw [sameOut.indistinct.disjoint_eq sameV.indistinct]
          exact h _ hout _ (List.mem_of_getElem? hv)

end ArrayFusion.Instruction
