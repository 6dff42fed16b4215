import ArrayFusion.Proofs.Eval.Strides
import ArrayFusion.Proofs.View.Lines
import Mathlib.Data.List.NodupEquivFin
import Mathlib.Logic.Equiv.Basic

/-!
# Two axes change places

Swapping two axes of a list exchanges the places that `Equiv.swap` exchanges, so that swapping twice
does nothing. A transposed instruction has the axes of all its arrays swapped, and a scan follows its
axis to the other place. Its positions are those of the original instruction with two indices
swapped, in another order.
-/

namespace ArrayFusion

open Shape

/-! ## Lists with two places swapped -/

section Lists

variable {α β : Type} {xs : List α} {a b n : Nat}

/-- The list with the elements at two places swapped, if both are there. -/
def swapAt (a b : Nat) (xs : List α) : List α :=
  match xs[a]?, xs[b]? with
  | some x, some y => (xs.set a y).set b x
  | _, _ => xs

theorem swapAt_of_lt (ha : a < xs.length) (hb : b < xs.length) :
    swapAt a b xs = (xs.set a xs[b]).set b xs[a] := by
  simp only [swapAt, List.getElem?_eq_getElem ha, List.getElem?_eq_getElem hb]

theorem swapAt_of_not_lt (h : ¬ (a < xs.length ∧ b < xs.length)) : swapAt a b xs = xs := by
  rw [swapAt]
  split
  next ha hb => exact absurd ⟨(List.getElem?_eq_some_iff.mp ha).1,
    (List.getElem?_eq_some_iff.mp hb).1⟩ h
  next => rfl

@[simp] theorem length_swapAt (a b : Nat) (xs : List α) : (swapAt a b xs).length = xs.length := by
  by_cases h : a < xs.length ∧ b < xs.length
  · simp [swapAt_of_lt h.1 h.2]
  · rw [swapAt_of_not_lt h]

theorem getElem?_swapAt (ha : a < xs.length) (hb : b < xs.length) (n : Nat) :
    (swapAt a b xs)[n]? = xs[Equiv.swap a b n]? := by
  rw [swapAt_of_lt ha hb, List.getElem?_set, List.getElem?_set, Equiv.swap_apply_def]
  grind

theorem perm_swapAt (a b : Nat) (xs : List α) : (swapAt a b xs).Perm xs := by
  by_cases h : a < xs.length ∧ b < xs.length
  · rw [swapAt_of_lt h.1 h.2]
    exact List.set_set_perm h.1 h.2
  · rw [swapAt_of_not_lt h]

@[simp] theorem swapAt_swapAt (a b : Nat) (xs : List α) : swapAt a b (swapAt a b xs) = xs := by
  by_cases h : a < xs.length ∧ b < xs.length
  · refine List.ext_getElem? fun n => ?_
    rw [getElem?_swapAt (by simpa using h.1) (by simpa using h.2), getElem?_swapAt h.1 h.2,
      Equiv.swap_apply_self]
  · rw [swapAt_of_not_lt h, swapAt_of_not_lt h]

theorem map_swapAt (f : α → β) (a b : Nat) (xs : List α) :
    (swapAt a b xs).map f = swapAt a b (xs.map f) := by
  by_cases h : a < xs.length ∧ b < xs.length
  · rw [swapAt_of_lt h.1 h.2, swapAt_of_lt (by simpa using h.1) (by simpa using h.2)]
    simp [List.map_set]
  · rw [swapAt_of_not_lt h, swapAt_of_not_lt (by simpa using h)]

/-- Changing an element and swapping two places changes the element in its new place. -/
theorem modify_swapAt (ha : a < xs.length) (hb : b < xs.length) (n : Nat) (f : α → α) :
    (swapAt a b xs).modify (Equiv.swap a b n) f = swapAt a b (xs.modify n f) := by
  refine List.ext_getElem? fun k => ?_
  have place : Equiv.swap a b n = k ↔ n = Equiv.swap a b k := Equiv.swap_apply_eq_iff
  rw [List.getElem?_modify, getElem?_swapAt ha hb, getElem?_swapAt (by simpa using ha)
    (by simpa using hb), List.getElem?_modify]
  simp only [place]

theorem zip_swapAt {ys : List β} (length : xs.length = ys.length) :
    (swapAt a b xs).zip (swapAt a b ys) = swapAt a b (xs.zip ys) := by
  by_cases h : a < xs.length ∧ b < xs.length
  · refine List.ext_getElem? fun k => ?_
    have inside : a < (xs.zip ys).length ∧ b < (xs.zip ys).length := by simpa [← length] using h
    rw [getElem?_swapAt inside.1 inside.2]
    simp only [List.zip, List.getElem?_zipWith]
    rw [getElem?_swapAt h.1 h.2, getElem?_swapAt (length ▸ h.1) (length ▸ h.2)]
  · rw [swapAt_of_not_lt h, swapAt_of_not_lt (length ▸ h),
      swapAt_of_not_lt (by simpa [← length] using h)]

/-- A number below a bound stays there if both numbers that are swapped lie below it. -/
theorem swap_lt (ha : a < n) (hb : b < n) {k : Nat} (hk : k < n) : Equiv.swap a b k < n := by
  rw [Equiv.swap_apply_def]
  split
  · exact hb
  · split
    · exact ha
    · exact hk

end Lists

/-! ## Positions -/

namespace Shape

variable {shape p : List Int} {a b : Nat}

theorem InRange.swapAt (h : InRange shape p) (a b : Nat) :
    InRange (swapAt a b shape) (swapAt a b p) := by
  have length := h.length_eq
  by_cases inside : a < shape.length ∧ b < shape.length
  · obtain ⟨ha, hb⟩ := inside
    refine forall₂_of_getElem? fun k => ?_
    rw [getElem?_swapAt ha hb, getElem?_swapAt (length ▸ ha) (length ▸ hb)]
    exact forall₂_getElem? h _
  · rwa [swapAt_of_not_lt inside, swapAt_of_not_lt (length ▸ inside)]

theorem InRange.unswapAt (h : InRange (ArrayFusion.swapAt a b shape) p) :
    InRange shape (ArrayFusion.swapAt a b p) := by
  have back := h.swapAt a b
  rwa [swapAt_swapAt] at back

/-- The positions of a shape with two axes swapped are the positions with two indices swapped. -/
theorem perm_positions_swapAt (shape : List Int) (a b : Nat) :
    ((positions (swapAt a b shape)).map (swapAt a b)).Perm (positions shape) := by
  have injective : Function.Injective (swapAt a b : List Int → List Int) :=
    Function.LeftInverse.injective (swapAt_swapAt a b)
  refine (List.perm_ext_iff_of_nodup ((nodup_positions _).map injective)
    (nodup_positions _)).mpr fun p => ?_
  simp only [List.mem_map, mem_positions]
  constructor
  · rintro ⟨q, hq, rfl⟩
    exact hq.unswapAt
  · exact fun h => ⟨swapAt a b p, h.swapAt a b, swapAt_swapAt a b p⟩

theorem elementCount_swapAt (shape : List Int) (a b : Nat) :
    elementCount (swapAt a b shape) = elementCount shape :=
  (perm_swapAt a b shape).foldr_eq 1

end Shape

namespace View

variable {v : View} {a b : Nat}

theorem axes_swapAxes (v : View) (a b : Nat) : (v.swapAxes a b).axes = swapAt a b v.axes := by
  rw [swapAxes, swapAt]
  cases v.axes[a]? <;> cases v.axes[b]? <;> rfl

theorem swapAxes_eq (v : View) (a b : Nat) :
    v.swapAxes a b = { v with axes := swapAt a b v.axes } := by
  rw [swapAxes, swapAt]
  cases v.axes[a]? <;> cases v.axes[b]? <;> rfl

theorem shape_swapAxes (v : View) (a b : Nat) : (v.swapAxes a b).shape = swapAt a b v.shape := by
  rw [shape, axes_swapAxes, map_swapAt, shape]

theorem ndim_swapAxes (v : View) (a b : Nat) : (v.swapAxes a b).ndim = v.ndim := by
  rw [ndim, axes_swapAxes, length_swapAt, ndim]

theorem WellFormed.swapAxes (h : v.WellFormed) (a b : Nat) : (v.swapAxes a b).WellFormed where
  sizes x hx := by
    rw [axes_swapAxes] at hx
    exact h.sizes x ((perm_swapAt a b v.axes).mem_iff.mp hx)
  axisCount := by
    rw [ndim_swapAxes]
    exact h.axisCount
  scalar constant := by
    rw [swapAxes_eq] at constant ⊢
    have none : v.axes = [] := h.scalar constant
    simp [none, swapAt]

@[simp] theorem swapAxes_swapAxes (v : View) (a b : Nat) : (v.swapAxes a b).swapAxes a b = v := by
  simp [swapAxes_eq]

theorem offsetAt_eq_sum (axes : List Axis) (p : List Int) :
    offsetAt axes p = ((axes.zip p).map fun x => x.2 * x.1.stride).sum := by
  induction axes generalizing p with
  | nil => rfl
  | cons x axes ih =>
    cases p with
    | nil => rfl
    | cons k p => simp [offsetAt, ih]

/-- With two axes and two indices swapped, the offset is the same. -/
theorem offsetAt_swapAt {axes : List Axis} {p : List Int} (length : p.length = axes.length) :
    offsetAt (swapAt a b axes) (swapAt a b p) = offsetAt axes p := by
  rw [offsetAt_eq_sum, offsetAt_eq_sum, zip_swapAt length.symm]
  exact ((perm_swapAt a b (axes.zip p)).map _).sum_eq

/-- A view with two axes swapped names the same elements in another order. -/
theorem perm_addresses_swapAxes (sizes : ∀ x ∈ v.axes, 0 ≤ x.size) (a b : Nat) :
    (v.swapAxes a b).addresses.Perm v.addresses := by
  have sizes' : ∀ x ∈ (v.swapAxes a b).axes, 0 ≤ x.size := by
    intro x hx
    rw [axes_swapAxes] at hx
    exact sizes x ((perm_swapAt a b v.axes).mem_iff.mp hx)
  have named : (v.swapAxes a b).addresses =
      ((positions (swapAt a b v.shape)).map (swapAt a b)).map fun p => v.start + offsetAt v.axes p := by
    rw [addresses_eq sizes', shape_swapAxes, axes_swapAxes, List.map_map, swapAxes_eq]
    refine List.map_congr_left fun q hq => congrArg (v.start + ·) ?_
    have length : (swapAt a b q).length = v.axes.length := by
      rw [length_swapAt, (mem_positions.mp hq).length_eq, length_swapAt, length_shape, ndim]
    rw [← offsetAt_swapAt (a := a) (b := b) length, swapAt_swapAt]
  rw [named, addresses_eq sizes]
  exact (perm_positions_swapAt v.shape a b).map _

end View

/-! ## Transposed instructions -/

namespace Instruction

variable {i t : Instruction} {a b : Nat}

/-- How an operand changes when an instruction is transposed. -/
def Swapped (a b : Nat) (v w : View) : Prop :=
  v.isConstant = true ∧ w = v ∨
    v.isConstant = false ∧ a < v.ndim ∧ b < v.ndim ∧ w = v.swapAxes a b

theorem Swapped.symm {v w : View} (h : Swapped a b v w) : Swapped a b w v := by
  obtain ⟨constant, rfl⟩ | ⟨array, ha, hb, rfl⟩ := h
  · exact .inl ⟨constant, rfl⟩
  · refine .inr ⟨?_, ?_, ?_, (v.swapAxes_swapAxes a b).symm⟩
    · rw [View.swapAxes_eq]
      exact array
    · rwa [View.ndim_swapAxes]
    · rwa [View.ndim_swapAxes]

/-- The constant of an instruction with two axes swapped: a scan follows its axis. -/
def constantSwapped (i : Instruction) (a b : Nat) : Option Constant :=
  match i.sweepAxis? with
  | some s => some (.int64 (Equiv.swap a b s : Nat))
  | none => i.constant

/-- What a transposition does that goes well. -/
structure Transposes (i t : Instruction) (a b : Nat) : Prop where
  opcode : t.opcode = i.opcode
  creates : t.creates = i.creates
  notFold : i.opcode.isReduction = false
  operands : List.Forall₂ (Swapped a b) i.operands t.operands
  constant : t.constant = i.constantSwapped a b

theorem swap_operand_eq_ok_iff {v w : View} : (if v.isConstant then pure v else
    if v.ndim ≤ a ∨ v.ndim ≤ b then .error (.axesNotSwappable a b v)
    else .ok (v.swapAxes a b)) = (.ok w : Except Fault View) ↔ Swapped a b v w := by
  rw [Swapped]
  by_cases constant : v.isConstant = true
  · have kept : (pure v : Except Fault View) = .ok w ↔ w = v := Except.ok.injEq v w ▸ eq_comm
    simp [constant, kept]
  · by_cases outside : v.ndim ≤ a ∨ v.ndim ≤ b
    · simp only [constant, outside, if_true]
      simp
      omega
    · obtain ⟨ha, hb⟩ := not_or.mp outside
      simp only [constant, outside, Nat.lt_of_not_le ha, Nat.lt_of_not_le hb, Bool.false_eq_true,
        false_and, if_false, true_and, false_or, Except.ok.injEq]
      exact eq_comm

theorem transposed_eq_ok_iff : i.transposed a b = .ok t ↔ Transposes i t a b := by
  have choose : ∀ operands : List View, (match i.sweepAxis? with
      | some s => pure { i with
          operands, constant := some (.int64 (if s = a then b else if s = b then a else s)) }
      | none => pure { i with operands } : Except Fault Instruction) =
        .ok { i with operands, constant := i.constantSwapped a b } := by
    intro operands
    rw [constantSwapped]
    cases i.sweepAxis? with
    | none => rfl
    | some s => simp only [Equiv.swap_apply_def, Nat.cast_ite]; rfl
  rw [transposed]
  by_cases reduction : i.opcode.isReduction = true
  · rw [if_pos reduction]
    refine ⟨fun h => (by cases h), fun h => ?_⟩
    rw [h.notFold] at reduction
    contradiction
  · rw [if_neg reduction]
    constructor
    · intro h
      obtain ⟨j, swapped, rest⟩ := exists_of_bind_eq_ok h
      obtain ⟨operands, listed, made⟩ := exists_of_bind_eq_ok swapped
      cases made
      have same := rest.symm.trans (choose operands)
      cases same
      exact ⟨rfl, rfl, by simpa using reduction,
        (forall₂_of_mapM listed).imp fun _ _ => swap_operand_eq_ok_iff.mp, rfl⟩
    · intro h
      have listed := mapM_of_forall₂ (h.operands.imp fun _ _ => swap_operand_eq_ok_iff.mpr)
      have made : i.mapArrays (fun v => if v.ndim ≤ a ∨ v.ndim ≤ b then
          .error (.axesNotSwappable a b v) else .ok (v.swapAxes a b)) =
            .ok { i with operands := t.operands } := by
        rw [mapArrays, listed]
        rfl
      rw [made]
      refine (choose t.operands).trans (congrArg Except.ok ?_)
      obtain ⟨opcode, creates, -, -, constant⟩ := h
      cases i
      cases t
      simp_all

namespace Transposes

variable {k : Nat} {p : List Int} {ts ts' : Turns}

theorem operand_cases (h : Transposes i t a b) (k : Nat) :
    i.operands[k]? = none ∧ t.operands[k]? = none ∨
      ∃ v w, i.operands[k]? = some v ∧ t.operands[k]? = some w ∧ Swapped a b v w := by
  have operand := forall₂_getElem? h.operands k
  generalize i.operands[k]? = v at operand
  generalize t.operands[k]? = w at operand
  cases operand with
  | none => exact .inl ⟨rfl, rfl⟩
  | some swapped => exact .inr ⟨_, _, rfl, rfl, swapped⟩

theorem wellFormed (h : Transposes i t a b) (wf : i.WellFormed) : t.WellFormed := by
  intro w hw
  obtain ⟨v, hv, swapped⟩ := exists_of_forall₂ h.operands hw
  obtain ⟨-, rfl⟩ | ⟨-, -, -, rfl⟩ := swapped
  · exact wf w hv
  · exact (wf v hv).swapAxes a b

theorem ndim_eq (h : Transposes i t a b) : t.ndim = i.ndim := by
  refine ndim_congr h.opcode (h.operands.imp fun v w swapped => ?_)
  obtain ⟨-, rfl⟩ | ⟨-, -, -, rfl⟩ := swapped
  · rfl
  · exact v.ndim_swapAxes a b

/-- The positions of a transposed instruction have two axes swapped. -/
theorem shape_eq (h : Transposes i t a b) (wf : i.WellFormed) : t.shape = swapAt a b i.shape := by
  have shapes : List.Forall₂ (fun v w => w.shape = swapAt a b v.shape) i.operands t.operands := by
    refine (forall₂_with_mem h.operands).imp fun v w related => ?_
    obtain ⟨hv, -, ⟨constant, rfl⟩ | ⟨-, -, -, rfl⟩⟩ := related
    · rw [View.shape, (wf w hv).scalar constant]
      rfl
    · exact v.shape_swapAxes a b
  obtain ⟨opcode, vs, constant, creates⟩ := i
  obtain ⟨opcode', ws, constant', creates'⟩ := t
  obtain rfl : opcode' = opcode := h.opcode
  have none : ([] : List Int) = swapAt a b [] := rfl
  cases shapes with
  | nil => cases opcode' <;> simpa [shape, Opcode.isSystem] using none
  | cons first rest =>
    cases rest with
    | nil => cases opcode' <;> simp [shape, Opcode.isSystem, first, ← none]
    | cons second rest => cases opcode' <;> simp [shape, Opcode.isSystem, first, second, ← none]

/-- Both axes are there, unless there is none. -/
theorem inside (h : Transposes i t a b) (wf : i.WellFormed) :
    i.ndim = 0 ∨ a < i.ndim ∧ b < i.ndim := by
  obtain empty | ⟨v, hv, same⟩ := i.shape_eq_nil_or_mem
  · exact .inl (by rw [ndim, empty]; rfl)
  · obtain ⟨k, hk⟩ := List.getElem?_of_mem hv
    rw [ndim, same, View.length_shape]
    obtain ⟨none, -⟩ | ⟨v', w, hv', -, swapped⟩ := h.operand_cases k
    · cases hk.symm.trans none
    · obtain rfl : v = v' := Option.some.inj (hk.symm.trans hv')
      obtain ⟨constant, -⟩ | ⟨-, ha, hb, -⟩ := swapped
      · exact .inl (by rw [View.ndim, (wf v hv).scalar constant]; rfl)
      · exact .inr ⟨ha, hb⟩

theorem inside_of_lt (h : Transposes i t a b) (wf : i.WellFormed) {s : Nat} (less : s < i.ndim) :
    a < i.ndim ∧ b < i.ndim :=
  (h.inside wf).resolve_left (Nat.ne_zero_of_lt less)

/-- A scan follows its axis to the other place. -/
theorem sweepAxis?_eq (h : Transposes i t a b) (wf : i.WellFormed) (along : i.SweepsInside) :
    t.sweepAxis? = i.sweepAxis?.map (Equiv.swap a b) := by
  have constant := h.constant
  rw [constantSwapped] at constant
  cases axis : i.sweepAxis? with
  | none =>
    rw [axis] at constant
    rw [Option.map_none, sweepAxis?, h.opcode, constant]
    exact axis
  | some s =>
    rw [axis] at constant
    have inside := along s axis
    have small := ndim_le_maxAxes wf
    have both := h.inside_of_lt wf inside
    have below : Equiv.swap a b s < i.ndim := swap_lt both.1 both.2 inside
    rw [maxAxes] at small
    exact sweepAxis?_of_constant (h.opcode ▸ isSweep_of_sweepAxis? axis) constant (by omega)

theorem moved (h : Transposes i t a b) : Moved i t where
  opcode := h.opcode
  constant still := by
    have unswept : i.sweepAxis? = none := by simp [sweepAxis?, still]
    rw [h.constant, constantSwapped, unswept]
  operands := h.operands.imp fun v w swapped => by
    obtain ⟨-, rfl⟩ | ⟨-, -, -, rfl⟩ := swapped
    · exact ⟨rfl, rfl⟩
    · rw [View.swapAxes_eq]
      exact ⟨rfl, rfl⟩

theorem isIndirect_eq (h : Transposes i t a b) (k : Nat) : t.isIndirect k = i.isIndirect k := by
  rw [isIndirect, isIndirect, h.opcode]

theorem startOf_eq (h : Transposes i t a b) (k : Nat) : t.startOf k = i.startOf k := by
  obtain ⟨hv, hw⟩ | ⟨v, w, hv, hw, ⟨-, rfl⟩ | ⟨-, -, -, rfl⟩⟩ := h.operand_cases k
  · rw [startOf, startOf, hv, hw]
  · rw [startOf, startOf, hv, hw]
  · rw [startOf, startOf, hv, hw, View.swapAxes_eq]
    rfl

/-- Loops see the axes of an operand in the order of the operand. -/
theorem seenAxes_eq (h : Transposes i t a b) (wf : i.WellFormed) {v w : View}
    (hv : i.operands[k]? = some v) (hw : t.operands[k]? = some w) (swapped : Swapped a b v w) :
    t.seenAxes k w = swapAt a b (i.seenAxes k v) := by
  obtain none | ⟨ha, hb⟩ := h.inside wf
  · simp [seenAxes, h.ndim_eq, none, swapAt]
  have length : (i.seenAxes k v).length = i.ndim := by simp [seenAxes]
  refine List.ext_getElem? fun axis => ?_
  rw [getElem?_swapAt (length ▸ ha) (length ▸ hb)]
  by_cases inside : axis < i.ndim
  · rw [seenAxes_getElem? (h.ndim_eq ▸ inside), seenAxes_getElem? (swap_lt ha hb inside)]
    obtain ⟨constant, rfl⟩ | ⟨array, hav, hbv, rfl⟩ := swapped
    · simp [operandAxis?, hv, hw, constant]
    · cases indirect : i.isIndirect k with
      | true => simp [operandAxis?, hv, hw, h.isIndirect_eq, indirect]
      | false =>
        have array' : (v.swapAxes a b).isConstant = false := by
          rw [View.swapAxes_eq]
          exact array
        rw [followed_direct hv (by simp [array, indirect]) (by simp [h.notFold]),
          followed_direct hw (by simp [array', h.isIndirect_eq, indirect])
            (by simp [h.opcode, h.notFold]), View.axes_swapAxes, getElem?_swapAt hav hbv]
  · have outside : ¬ Equiv.swap a b axis < i.ndim := fun below => inside (by
      have := swap_lt ha hb below
      rwa [Equiv.swap_apply_self] at this)
    rw [List.getElem?_eq_none (by simpa [seenAxes, h.ndim_eq] using inside),
      List.getElem?_eq_none (by simpa [seenAxes] using outside)]

theorem sweepsInside (h : Transposes i t a b) (wf : i.WellFormed) (along : i.SweepsInside) :
    t.SweepsInside := by
  intro s axis
  rw [h.sweepAxis?_eq wf along, Option.map_eq_some_iff] at axis
  obtain ⟨s, axis, rfl⟩ := axis
  have below := along s axis
  have both := h.inside_of_lt wf below
  exact h.ndim_eq ▸ swap_lt both.1 both.2 below

/-- Transposing once more gives back the operands and the axis of a scan. -/
theorem exists_back (h : Transposes i t a b) (wf : i.WellFormed) (along : i.SweepsInside) :
    ∃ j, t.transposed a b = .ok j ∧ j.opcode = i.opcode ∧ j.creates = i.creates ∧
      j.operands = i.operands ∧ j.sweepAxis? = i.sweepAxis? := by
  let j : Instruction := { i with constant := t.constantSwapped a b }
  have operands : List.Forall₂ (flip (Swapped a b)) i.operands t.operands :=
    h.operands.imp fun _ _ swapped => swapped.symm
  have back : Transposes t j a b := {
    opcode := h.opcode.symm
    creates := h.creates.symm
    notFold := h.opcode ▸ h.notFold
    operands := operands.flip
    constant := rfl }
  refine ⟨j, transposed_eq_ok_iff.mpr back, rfl, rfl, rfl, ?_⟩
  rw [back.sweepAxis?_eq (h.wellFormed wf) (h.sweepsInside wf along), h.sweepAxis?_eq wf along,
    Option.map_map]
  cases i.sweepAxis? with
  | none => rfl
  | some s => exact congrArg some (Equiv.swap_apply_self a b s)

end Transposes

end Instruction

end ArrayFusion
