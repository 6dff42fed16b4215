import ArrayFusion.Fusion.Mergeable
import ArrayFusion.Proofs.Lists
import ArrayFusion.Proofs.View.Reshape

/-!
# Reshaped instructions

Fusion replaces instructions by themselves with another shape. Such an instruction has the same
operation, and its operands are the views of the original one with the same addresses. It can not be
told from the original one by the tests for dependency, and it can be reshaped itself to nothing
that the original one can not be reshaped to.
-/

namespace ArrayFusion

namespace Instruction

/-- All operands are views that can be built. -/
def WellFormed (i : Instruction) : Prop := ∀ v ∈ i.operands, v.WellFormed

instance (i : Instruction) : Decidable i.WellFormed :=
  inferInstanceAs (Decidable (∀ v ∈ i.operands, v.WellFormed))

/-- The second instruction is the first one, or the first one with another shape. -/
def ReshapesTo (i j : Instruction) : Prop :=
  j = i ∨ ((∀ n ∈ j.shape, 0 ≤ n) ∧ i.reshape j.shape = .ok j)

/-- What reshaping keeps of an instruction. -/
structure Similar (i j : Instruction) : Prop where
  opcode : j.opcode = i.opcode
  constant : j.constant = i.constant
  creates : j.creates = i.creates
  operands : List.Forall₂ View.Reshaped i.operands j.operands

theorem Similar.refl {i : Instruction} (wf : i.WellFormed) : Similar i i :=
  ⟨rfl, rfl, rfl, List.forall₂_same.mpr fun v hv => .refl (wf v hv)⟩

theorem Similar.wellFormed {i j : Instruction} (h : Similar i j) : j.WellFormed := by
  intro w hw
  obtain ⟨k, hk⟩ := List.getElem?_of_mem hw
  have related := forall₂_getElem? h.operands k
  rw [hk] at related
  cases found : i.operands[k]? with
  | none =>
      rw [found] at related
      contradiction
  | some v =>
      rw [found] at related
      cases related with
      | some same => exact same.after

/-- What a successful change of the shape does to the operands. -/
theorem operands_of_reshape {i j : Instruction} {shape : List Int} (h : i.reshape shape = .ok j) :
    i.isReshapable = true ∧ j = { i with operands := j.operands } ∧
      List.Forall₂ (fun v w => (if v.isConstant then pure v else v.toShape shape) = .ok w)
        i.operands j.operands := by
  rw [reshape] at h
  split at h
  next reshapable =>
    rw [mapArrays] at h
    cases found : i.operands.mapM fun v => if v.isConstant then pure v else v.toShape shape with
    | error e =>
        rw [found] at h
        contradiction
    | ok operands =>
        rw [found] at h
        cases h
        exact ⟨reshapable, rfl, forall₂_of_mapM found⟩
  next => contradiction

theorem similar_of_reshape {i j : Instruction} {shape : List Int} (wf : i.WellFormed)
    (hshape : ∀ n ∈ shape, 0 ≤ n) (h : i.reshape shape = .ok j) : Similar i j := by
  obtain ⟨-, rest, operands⟩ := operands_of_reshape h
  refine ⟨by rw [rest], by rw [rest], by rw [rest], ?_⟩
  have both := (List.forall₂_and_left _ _).mpr ⟨wf, operands⟩
  refine both.imp fun v w related => ?_
  obtain ⟨wfV, changed⟩ := related
  split at changed
  · cases changed
    exact .refl wfV
  next array => exact (View.reshaped_of_toShape changed wfV (by simpa using array) hshape).1

theorem ReshapesTo.similar {i j : Instruction} (h : ReshapesTo i j) (wf : i.WellFormed) :
    Similar i j := by
  rcases h with rfl | ⟨hshape, h⟩
  · exact .refl wf
  · exact similar_of_reshape wf hshape h

theorem ReshapesTo.refl (i : Instruction) : ReshapesTo i i := .inl rfl

/-- An instruction that was reshaped twice could have been reshaped once. -/
theorem reshape_of_reshape {i j k : Instruction} {shape shape' : List Int} (wf : i.WellFormed)
    (hshape : ∀ n ∈ shape, 0 ≤ n) (first : i.reshape shape = .ok j)
    (second : j.reshape shape' = .ok k) : i.reshape shape' = .ok k := by
  obtain ⟨reshapable, rest, operands⟩ := operands_of_reshape first
  obtain ⟨-, rest', operands'⟩ := operands_of_reshape second
  have related := (similar_of_reshape wf hshape first).operands
  have direct : List.Forall₂
      (fun v x => (if v.isConstant then pure v else v.toShape shape') = .ok x) i.operands
      k.operands := by
    refine List.forall₂_iff_get.mpr ⟨related.length_eq.trans operands'.length_eq, ?_⟩
    intro n hn hn'
    have hj : n < j.operands.length := related.length_eq ▸ hn
    have step := related.get hn hj
    have changed := operands.get hn hj
    have changed' := operands'.get hj hn'
    rw [step.isConstant] at changed'
    split at changed'
    next constant =>
      rw [if_pos constant] at changed ⊢
      rw [Except.ok.inj changed]
      exact changed'
    next array =>
      rw [if_neg array]
      exact View.toShape_of_reshaped step (by simpa using array) changed'
  rw [reshape, if_pos reshapable, mapArrays, mapM_of_forall₂ direct, rest', rest]
  rfl

theorem ReshapesTo.trans {i j k : Instruction} (wf : i.WellFormed) (first : ReshapesTo i j)
    (second : ReshapesTo j k) : ReshapesTo i k := by
  rcases first with rfl | ⟨hshape, first⟩
  · exact second
  rcases second with rfl | ⟨hshape', second⟩
  · exact .inr ⟨hshape, first⟩
  · exact .inr ⟨hshape', reshape_of_reshape wf hshape first second⟩

/-! ## What the tests for dependency see -/

/-- All that the tests for dependency ask of an instruction. -/
structure Indistinct (i j : Instruction) : Prop where
  opcode : j.opcode = i.opcode
  operands : List.Forall₂ View.Indistinct i.operands j.operands

theorem Indistinct.refl (i : Instruction) : Indistinct i i :=
  ⟨rfl, List.forall₂_same.mpr fun v _ => .refl v⟩

theorem Similar.indistinct {i j : Instruction} (h : Similar i j) : Indistinct i j :=
  ⟨h.opcode, h.operands.imp fun _ _ same => same.indistinct⟩

theorem Indistinct.map_base {i j : Instruction} (h : Indistinct i j) :
    j.operands.map (·.base) = i.operands.map (·.base) :=
  map_eq_of_forall₂ h.operands fun _ _ same => same.base

theorem Indistinct.bases {i j : Instruction} (h : Indistinct i j) : j.bases = i.bases := by
  have filtered : ∀ k : Instruction,
      k.operands.filterMap (·.base) = (k.operands.map (·.base)).filterMap id := by
    intro k
    rw [List.filterMap_map]
    rfl
  rw [Instruction.bases, Instruction.bases, filtered j, filtered i, h.map_base]

theorem Indistinct.indexBases {i j : Instruction} (h : Indistinct i j) :
    j.indexBases = i.indexBases := by
  have same : j.operands.map (·.indexBases) = i.operands.map (·.indexBases) :=
    map_eq_of_forall₂ h.operands fun _ _ same => same.indexBases
  rw [Instruction.indexBases, Instruction.indexBases, List.flatMap_def, same, ← List.flatMap_def]

theorem Indistinct.outputBase? {i j : Instruction} (h : Indistinct i j) :
    j.outputBase? = i.outputBase? := by
  have heads : ∀ k : Instruction, k.outputBase? = (k.operands.map (·.base)).head?.join := by
    intro k
    rw [Instruction.outputBase?]
    cases k.operands <;> rfl
  rw [heads, heads, h.map_base]

theorem Indistinct.mentions {i j : Instruction} (h : Indistinct i j) (b : BaseId) :
    j.mentions b = i.mentions b := by
  rw [Instruction.mentions, h.bases, h.indexBases, Instruction.mentions]

theorem Indistinct.isIndirect {i j : Instruction} (h : Indistinct i j) (k : Nat) :
    j.isIndirect k = i.isIndirect k := by
  rw [Instruction.isIndirect, h.opcode, Instruction.isIndirect]

theorem Indistinct.isEmpty_operands {i j : Instruction} (h : Indistinct i j) :
    j.operands.isEmpty = i.operands.isEmpty := isEmpty_eq_of_forall₂ h.operands

theorem Similar.outputBase? {i j : Instruction} (h : Similar i j) :
    j.outputBase? = i.outputBase? := h.indistinct.outputBase?

theorem Similar.sweepAxis? {i j : Instruction} (h : Similar i j) :
    j.sweepAxis? = i.sweepAxis? := by
  rw [Instruction.sweepAxis?, h.opcode, h.constant, Instruction.sweepAxis?]

theorem Similar.isPositionDependent {i j : Instruction} (h : Similar i j) :
    j.isPositionDependent = i.isPositionDependent := by
  rw [Instruction.isPositionDependent, h.opcode, Instruction.isPositionDependent]

/-! ## Dependency -/

variable {i i' j j' : Instruction}

theorem Indistinct.overlap (hi : Indistinct i i') (hj : Indistinct j j') (k l : Nat) :
    i'.overlap k j' l = i.overlap k j l := by
  have first := forall₂_getElem? hi.operands k
  have second := forall₂_getElem? hj.operands l
  rw [Instruction.overlap, Instruction.overlap, hi.isIndirect, hj.isIndirect]
  generalize i.operands[k]? = v, i'.operands[k]? = v' at first
  generalize j.operands[l]? = w, j'.operands[l]? = w' at second
  cases first with
  | none => rfl
  | some hv =>
      cases second with
      | none => rfl
      | some hw => simp only [hv.isConstant, hw.isConstant, hv.base, hw.base, hv.disjoint_eq hw]

theorem Indistinct.outputMeets (hi : Indistinct i i') (hj : Indistinct j j') :
    i'.outputMeets j' = i.outputMeets j := by
  rw [Instruction.outputMeets, Instruction.outputMeets, hj.operands.length_eq]
  simp only [hi.overlap hj]

theorem Indistinct.addresses (hi : Indistinct i i') (hj : Indistinct j j') :
    i'.addresses j' = i.addresses j := by
  rw [Instruction.addresses, Instruction.addresses, hi.outputBase?, hj.indexBases]

/-- The order of two instructions matters no more and no less when other instructions with the
same bases and addresses take their places. -/
theorem Indistinct.dependent (hi : Indistinct i i') (hj : Indistinct j j') :
    i'.dependent j' = i.dependent j := by
  rw [Instruction.dependent, Instruction.dependent, hi.opcode, hj.opcode, hi.bases, hj.bases,
    hi.isEmpty_operands, hj.isEmpty_operands, hi.addresses hj, hj.addresses hi, hi.outputMeets hj,
    hj.outputMeets hi]

end Instruction

end ArrayFusion
