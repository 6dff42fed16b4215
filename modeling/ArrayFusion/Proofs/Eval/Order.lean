import ArrayFusion.Proofs.Eval.Position
import ArrayFusion.Proofs.Nest.Layout

/-!
# Positions that change places

Fusion carries out positions of statements in another order. Two positions may change places if
neither statement writes there what the other one touches. This is the case for statements that do
not depend on each other, and for statements of one loop at positions with different indices of this
loop: statements of a loop access what one of them writes in the same order, so that the element
with one number belongs to one iteration, unless a fold or scan along the loop keeps it to itself.
-/

namespace ArrayFusion

open Shape View

/-- Views on one base that pass the test share no address. -/
theorem View.not_mem_of_disjoint {v w : View} (h : v.disjoint w = true)
    (array : v.isConstant = false) (base : v.base = w.base) (wfV : v.WellFormed)
    (wfW : w.WellFormed) {x : Int} (inV : x ∈ v.addresses) : x ∉ w.addresses := by
  by_cases index : v.usesIndexArrays = true ∨ w.usesIndexArrays = true
  · have arrayW : w.isConstant = false := by rw [View.isConstant, ← base]; exact array
    rcases index with index | index <;> simp [View.disjoint, array, arrayW, base, index] at h
  · obtain ⟨indexV, indexW⟩ := not_or.mp index
    exact disjoint_sound h array base (by simpa using indexV) (by simpa using indexW) wfV.sizes
      wfW.sizes inV

namespace Instruction

variable {i j : Instruction} {p q : List Int} {b : BaseId} {x : Int}

/-- Positions at which an operand is accessed when its instruction is at a position. -/
def Visits (i : Instruction) (k : Nat) (v : View) (p r : List Int) : Prop :=
  InRange v.shape r ∧ (r = i.place k v p ∨
    k = 0 ∧ i.opcode.isAccumulate = true ∧ ∃ s, i.sweepAxis? = some s ∧ r = p.modify s (· - 1))

/-- An instruction that computes something on views that can be built and that fit. -/
structure Sound (i : Instruction) : Prop where
  notSystem : i.opcode.isSystem = false
  views : i.WellFormed
  fit : i.ShapesFit

/-- An elementwise instruction whose operands all have the shape of its positions. -/
theorem sound_of_isElementwise (elementwise : i.opcode.isElementwise = true)
    (views : i.WellFormed)
    (whole : ∀ v ∈ i.operands, v.isConstant = false → v.shape = i.shape) : i.Sound := by
  have notSweep := not_isSweep_of_isElementwise elementwise
  refine ⟨not_isSystem_of_isElementwise elementwise, views, ?_, ?_, ?_⟩
  · intro sweep
    rw [notSweep] at sweep
    contradiction
  · rintro ⟨v, k⟩ hv array - -
    exact whole v (List.mem_of_getElem? (List.mem_zipIdx_iff_getElem?.mp hv)) array
  · intro reduction
    rw [isReduction_eq_false notSweep] at reduction
    contradiction

/-- Axes of folds and scans are far smaller than 32 bit words. -/
theorem SweepsInside.sweepAxis?_lt (inside : i.SweepsInside) (views : i.WellFormed) (axis : Nat)
    (along : i.sweepAxis? = some axis) : axis < 2 ^ 31 := by
  have below := inside axis along
  have small := ndim_le_maxAxes views
  rw [maxAxes] at small
  omega

theorem Sound.sweepAxis?_lt (h : i.Sound) (axis : Nat) (along : i.sweepAxis? = some axis) :
    axis < 2 ^ 31 :=
  h.fit.sweepsInside.sweepAxis?_lt h.views axis along

theorem touches_turns (h : i.Sound) (range : InRange i.shape p)
    (touched : i.Touches (i.turns p) b x) :
    ∃ k v, i.operands[k]? = some v ∧ v.base = some b ∧
      (i.isIndirect k = true ∨ ∃ r, i.Visits k v p r ∧ x = v.start + offsetAt v.axes r) := by
  obtain ⟨k, v, hv, base, place⟩ := touched
  refine ⟨k, v, hv, base, ?_⟩
  have array := View.isConstant_of_base base
  have at_p := (i.standsAt_turns p).at_p
  have length : p.length = i.ndim := range.length_eq
  by_cases indirect : i.isIndirect k = true
  · exact .inl indirect
  have direct : i.isIndirect k = false := by simpa using indirect
  rcases place with indirect | here | ⟨rfl, scan, s, axis, opening, back⟩
  · exact .inl indirect
  · obtain ⟨offset, inside⟩ := offsetAt_seenAxes h.fit hv array direct range
    exact .inr ⟨_, ⟨inside, .inl rfl⟩, by rw [here, offset_eq at_p length hv, offset]⟩
  · -- The result so far of a scan is read one step back.
    have notFold : ¬ (0 = 0 ∧ i.opcode.isReduction = true) := by
      simp [not_isReduction_of_isAccumulate scan]
    have shape := h.fit.direct (v, 0) (List.mem_zipIdx_iff_getElem?.mpr hv) array direct notFold
    have later : p[s]? ≠ some 0 := by
      intro first
      rw [(i.standsAt_turns p).opening s 0 axis first] at opening
      contradiction
    have seen := seenAxes_direct hv array direct notFold shape
    refine .inr ⟨_, ⟨shape ▸ range.modify_pred later, .inr ⟨rfl, scan, s, axis, rfl⟩⟩, ?_⟩
    rw [back, offset_eq (at_p.stepBack s) (by simpa using length) hv, seen]

/-- The elements at which a written and a touched operand meet. -/
theorem meet_of_writes (hi : i.Sound) (hj : j.Sound) (rangeP : InRange i.shape p)
    (rangeQ : InRange j.shape q) (written : i.Writes (i.turns p) b x)
    (touched : j.Touches (j.turns q) b x) :
    ∃ out l v, i.operands[0]? = some out ∧ j.operands[l]? = some v ∧ out.isConstant = false ∧
      v.isConstant = false ∧ out.base = v.base ∧
      (i.isIndirect 0 = true ∨ j.isIndirect l = true ∨
        i.isIndirect 0 = false ∧ j.isIndirect l = false ∧ ∃ r, j.Visits l v q r ∧
          InRange out.shape (i.place 0 out p) ∧
          out.start + offsetAt out.axes (i.place 0 out p) = v.start + offsetAt v.axes r) := by
  obtain ⟨out, hout, base, place⟩ := written
  obtain ⟨l, v, hv, base', place'⟩ := touches_turns hj rangeQ touched
  have array := View.isConstant_of_base base
  have array' : v.isConstant = false := by simp [View.isConstant, base']
  refine ⟨out, l, v, hout, hv, array, array', base.trans base'.symm, ?_⟩
  by_cases indirect : i.isIndirect 0 = true
  · exact .inl indirect
  by_cases indirect' : j.isIndirect l = true
  · exact .inr (.inl indirect')
  have direct : i.isIndirect 0 = false := by simpa using indirect
  refine .inr (.inr ⟨direct, by simpa using indirect', ?_⟩)
  rcases place' with indirect'' | ⟨r, visits, hx⟩
  · exact absurd indirect'' indirect'
  obtain ⟨offset, inside⟩ := offsetAt_seenAxes hi.fit hout array direct rangeP
  refine ⟨r, visits, inside, ?_⟩
  rcases place with indirect'' | here
  · exact absurd indirect'' indirect
  · rw [← hx, here, offset_eq (i.standsAt_turns p).at_p rangeP.length_eq hout, offset]

/-- Two views that meet share an address. -/
theorem not_disjoint_of_meet {out v : View} {r s : List Int} (wfOut : out.WellFormed)
    (wfV : v.WellFormed) (array : out.isConstant = false) (base : out.base = v.base)
    (inOut : InRange out.shape r) (inV : InRange v.shape s)
    (same : out.start + offsetAt out.axes r = v.start + offsetAt v.axes s) :
    out.disjoint v = false := by
  by_contra apart
  have first : out.start + offsetAt out.axes r ∈ out.addresses :=
    (mem_addresses wfOut.sizes).mpr ⟨r, inOut, rfl⟩
  have second : out.start + offsetAt out.axes r ∈ v.addresses :=
    (mem_addresses wfV.sizes).mpr ⟨s, inV, same.symm⟩
  exact not_mem_of_disjoint (by simpa using apart) array base wfOut wfV first second

/-! ## Statements that do not depend on each other -/

/-- An instruction that computes something. What it touches at its positions are elements of its
operands, as far as they are not addressed by values. -/
structure StaysInside (i : Instruction) : Prop where
  notSystem : i.opcode.isSystem = false
  views : i.WellFormed
  touches : ∀ {p b x}, InRange i.shape p → i.Touches (i.turns p) b x →
    ∃ k v, i.operands[k]? = some v ∧ v.base = some b ∧ (i.isIndirect k = true ∨ x ∈ v.addresses)
  writes : ∀ {p b x}, InRange i.shape p → i.Writes (i.turns p) b x →
    ∃ v, i.operands[0]? = some v ∧ v.base = some b ∧ (i.isIndirect 0 = true ∨ x ∈ v.addresses)

theorem Sound.staysInside (h : i.Sound) : i.StaysInside where
  notSystem := h.notSystem
  views := h.views
  touches range touched := by
    obtain ⟨k, v, hv, base, place⟩ := touches_turns h range touched
    refine ⟨k, v, hv, base, place.imp id ?_⟩
    rintro ⟨r, visits, rfl⟩
    exact (mem_addresses (h.views v (List.mem_of_getElem? hv)).sizes).mpr ⟨r, visits.1, rfl⟩
  writes range written := by
    obtain ⟨v, hv, base, place⟩ := written
    refine ⟨v, hv, base, ?_⟩
    by_cases indirect : i.isIndirect 0 = true
    · exact .inl indirect
    · obtain ⟨offset, inside⟩ := offsetAt_seenAxes h.fit hv (View.isConstant_of_base base)
        (by simpa using indirect) range
      refine .inr ((mem_addresses (h.views v (List.mem_of_getElem? hv)).sizes).mpr
        ⟨_, inside, ?_⟩)
      rw [place.resolve_left indirect, offset_eq (i.standsAt_turns _).at_p range.length_eq hv,
        offset]

theorem not_touches_of_independent (hi : i.StaysInside) (hj : j.StaysInside)
    (h : i.outputMeets j = false) (rangeP : InRange i.shape p) (rangeQ : InRange j.shape q)
    (written : i.Writes (i.turns p) b x) : ¬ j.Touches (j.turns q) b x := by
  intro touched
  obtain ⟨out, hout, base, place⟩ := hi.writes rangeP written
  obtain ⟨l, v, hv, base', place'⟩ := hj.touches rangeQ touched
  have array := View.isConstant_of_base base
  have array' := View.isConstant_of_base base'
  have same : out.base = v.base := base.trans base'.symm
  have inside : l < j.operands.length := (List.getElem?_eq_some_iff.mp hv).1
  rw [outputMeets, List.any_eq_false] at h
  have apart := h l (List.mem_range.mpr inside)
  simp only [overlap, hout, hv, array, array', Bool.or_self, Bool.false_eq_true, if_false]
    at apart
  by_cases indirect : i.isIndirect 0 = true ∨ j.isIndirect l = true
  · rcases indirect with indirect | indirect <;> simp [indirect, same] at apart
  · obtain ⟨direct, direct'⟩ := not_or.mp indirect
    have disjoint : out.disjoint v = true := by simpa [direct, direct'] using apart
    exact View.not_mem_of_disjoint disjoint array same (hi.views out (List.mem_of_getElem? hout))
      (hj.views v (List.mem_of_getElem? hv)) (place.resolve_left direct)
      (place'.resolve_left direct')

/-- Statements that do not depend on each other commute at all positions. -/
theorem commute_of_independent (hi : i.StaysInside) (hj : j.StaysInside)
    (h : i.dependent j = false) (rangeP : InRange i.shape p) (rangeQ : InRange j.shape q) :
    Commute (i.actAt p) (j.actAt q) := by
  have computes : ∀ {k : Instruction}, k.opcode.isSystem = false → (k.opcode == .none) = false := by
    intro k computes
    rw [beq_eq_false_iff_ne]
    intro none
    rw [none] at computes
    contradiction
  rw [dependent, computes hi.notSystem, computes hj.notSystem, hi.notSystem, hj.notSystem] at h
  simp only [Bool.or_self, Bool.false_and, Bool.false_eq_true, if_false] at h
  split at h
  next empty =>
    -- Without operands nothing is written, or nothing is touched.
    refine commute_of_apart (fun b x written touched => ?_) fun b x written touched => ?_
    all_goals
      obtain ⟨out, hout, -⟩ := written
      obtain ⟨l, v, hv, -⟩ := touched
      simp only [Bool.or_eq_true, List.isEmpty_iff] at empty
      rcases empty with empty | empty <;> simp [empty] at hout hv
  next =>
    simp only [Bool.or_eq_false_iff] at h
    obtain ⟨⟨-, first⟩, second⟩ := h
    exact commute_of_apart
      (fun b x => not_touches_of_independent hi hj first rangeP rangeQ)
      (fun b x => not_touches_of_independent hj hi second rangeQ rangeP)

/-! ## Statements of one loop -/

/-- Outside of the axis of its fold or scan, an operand is accessed where its instruction is. -/
theorem take_of_visits {n k : Nat} {v : View} {r : List Int} (fit : i.ShapesFit)
    (hv : i.operands[k]? = some v) (array : v.isConstant = false) (direct : i.isIndirect k = false)
    (inner : k = 0 → ∀ s, i.sweepAxis? = some s → n ≤ s) (visits : i.Visits k v p r) :
    v.shape.take n = i.shape.take n ∧ r.take n = p.take n := by
  constructor
  · by_cases fold : k = 0 ∧ i.opcode.isReduction = true
    · obtain ⟨rfl, reduction⟩ := fold
      obtain ⟨s, axis, -⟩ := fit.sweepAxis (isSweep_of_isReduction reduction)
      have inner := inner rfl s axis
      rcases fit.folded reduction s axis v hv array with removed | kept
      · rw [removed, List.take_eraseIdx_eq_take_of_le _ _ _ inner]
      · rw [kept, List.take_set_of_le inner]
    · rw [fit.direct (v, k) (List.mem_zipIdx_iff_getElem?.mpr hv) array direct fold]
  · rcases visits.2 with rfl | ⟨first, scan, s, axis, rfl⟩
    · rw [place]
      cases axis : i.sweepAxis? with
      | none => rfl
      | some s =>
          simp only
          split
          next fold =>
            have inner := inner fold.1 s axis
            split
            · exact List.take_eraseIdx_eq_take_of_le _ _ _ inner
            · exact List.take_set_of_le inner
          next => rfl
    · have inner := inner first s axis
      rw [List.take_modify, List.modify_eq_self]
      rw [List.length_take]
      omega

/-- What the statements of a loop can rely on: one writes what the other accesses in the same order
or not at all, and folds and scans along this loop and the loops around it keep their results to
themselves. -/
structure InLoop (rank : Nat) (i j : Instruction) : Prop where
  outer : i.shape.take (rank + 1) = j.shape.take (rank + 1)
  aligned : i.Aligned j
  first : ∀ s ≤ rank, i.sweepAxis? = some s → i.Isolated j
  second : ∀ s ≤ rank, j.sweepAxis? = some s → j.Isolated i

/-- The instruction writes no element twice, as far as it is not addressed by values. -/
def WritesOnce (i : Instruction) : Prop :=
  ∀ out ∈ i.operands[0]?, i.isIndirect 0 = false → out.addresses.Nodup

instance (i : Instruction) : Decidable i.WritesOnce :=
  inferInstanceAs (Decidable (∀ out ∈ i.operands[0]?, i.isIndirect 0 = false → out.addresses.Nodup))

theorem InLoop.symm {rank : Nat} (h : InLoop rank i j) : InLoop rank j i :=
  ⟨h.outer.symm, h.aligned.symm, h.second, h.first⟩

theorem not_touches_in_loop {rank : Nat} (hi : i.Sound) (hj : j.Sound) (once : i.WritesOnce)
    (loop : InLoop rank i j) (rangeP : InRange i.shape p) (rangeQ : InRange j.shape q)
    (apart : p.take (rank + 1) ≠ q.take (rank + 1)) (written : i.Writes (i.turns p) b x) :
    ¬ j.Touches (j.turns q) b x := by
  intro touched
  obtain ⟨out, l, v, hout, hv, array, array', base, meet⟩ :=
    meet_of_writes hi hj rangeP rangeQ written touched
  obtain ⟨direct, direct', aligned⟩ := loop.aligned.1 out hout l v hv array' base
  rcases meet with indirect | indirect | ⟨-, -, r, visits, inOut, same⟩
  · exact Bool.false_ne_true (direct.symm.trans indirect)
  · exact Bool.false_ne_true (direct'.symm.trans indirect)
  have memOut := List.mem_of_getElem? hout
  have memV := List.mem_of_getElem? hv
  have wfOut := hi.views out memOut
  have wfV := hj.views v memV
  have met := not_disjoint_of_meet wfOut wfV array base inOut visits.1 same
  -- The results of folds and scans along the loops around are met by nobody.
  have innerI : ∀ s, i.sweepAxis? = some s → rank + 1 ≤ s := by
    intro s axis
    by_contra outer
    have isolated := loop.first s (by omega) axis out hout v memV
    rw [met] at isolated
    contradiction
  have innerJ : l = 0 → ∀ s, j.sweepAxis? = some s → rank + 1 ≤ s := by
    rintro rfl s axis
    by_contra outer
    have isolated := loop.second s (by omega) axis v hv out memOut
    rw [disjoint_comm, met] at isolated
    contradiction
  rcases aligned with disjoint | addresses
  · rw [met] at disjoint
    contradiction
  -- The element has one number in both views, and its iteration can be read off the number.
  obtain ⟨outerOut, takeOut⟩ := take_of_visits hi.fit hout array direct (fun _ => innerI)
    ⟨inOut, .inl rfl⟩
  obtain ⟨outerV, takeV⟩ := take_of_visits hj.fit hv array' direct' innerJ visits
  have count := elementCount_eq_of_addresses wfOut.sizes wfV.sizes addresses
  have number := number_eq_of_addresses wfOut.sizes wfV.sizes addresses (once out hout direct)
    inOut visits.1 same
  refine apart ?_
  rw [← takeOut, ← takeV]
  exact take_eq_of_number_eq inOut visits.1 (outerOut.trans (loop.outer.trans outerV.symm)) count
    number

/-- Statements of one loop commute at positions in different iterations. -/
theorem commute_of_inLoop {rank : Nat} (hi : i.Sound) (hj : j.Sound) (onceI : i.WritesOnce)
    (onceJ : j.WritesOnce) (loop : InLoop rank i j) (rangeP : InRange i.shape p)
    (rangeQ : InRange j.shape q) (apart : p.take (rank + 1) ≠ q.take (rank + 1)) :
    Commute (i.actAt p) (j.actAt q) :=
  commute_of_apart
    (fun _ _ => not_touches_in_loop hi hj onceI loop rangeP rangeQ apart)
    (fun _ _ => not_touches_in_loop hj hi onceJ loop.symm rangeQ rangeP apart.symm)

end Instruction

end ArrayFusion
