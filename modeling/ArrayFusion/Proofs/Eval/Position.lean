import ArrayFusion.Proofs.Eval.Footprint
import ArrayFusion.Proofs.Instruction.Alignment

/-!
# Where an instruction stands

An instruction runs at the positions of its shape. If its operands have the shapes that this needs,
every operand is accessed at a position of its own: the position of the instruction, for the output
of a fold the one without the axis of the fold, and for the result so far of a scan the one before.
What is touched at a position is then an address of a view, and the tests for overlap apply.
-/

namespace ArrayFusion

open Shape View

namespace Instruction

/-- The shapes of the operands are those that the positions ask for. An operand has the shape of the
positions, unless it is addressed by values. A fold or scan runs along an axis of its input, and the
output of a fold lacks this axis or keeps it with size one. -/
structure ShapesFit (i : Instruction) : Prop where
  axis : i.opcode.isSweep = true → ∃ s ∈ i.sweepAxis?, ∃ input ∈ i.operands[1]?, s < input.ndim
  direct : ∀ x ∈ i.operands.zipIdx, x.1.isConstant = false → i.isIndirect x.2 = false →
    ¬ (x.2 = 0 ∧ i.opcode.isReduction = true) → x.1.shape = i.shape
  folded : i.opcode.isReduction = true → ∀ s ∈ i.sweepAxis?, ∀ out ∈ i.operands[0]?,
    out.isConstant = false → out.shape = i.shape.eraseIdx s ∨ out.shape = i.shape.set s 1

instance (i : Instruction) : Decidable i.ShapesFit :=
  decidable_of_iff (_ ∧ _ ∧ _)
    ⟨fun ⟨axis, direct, folded⟩ => ⟨axis, direct, folded⟩, fun ⟨axis, direct, folded⟩ =>
      ⟨axis, direct, folded⟩⟩

/-- Axes of an operand as the loops around its instruction see them. -/
def seenAxes (i : Instruction) (k : Nat) (v : View) : List Axis :=
  (List.range i.ndim).map fun axis => ((i.operandAxis? k axis).bind (v.axes[·]?)).getD ⟨1, 0⟩

/-- Position at which an operand is accessed when its instruction is at a position. -/
def place (i : Instruction) (k : Nat) (v : View) (p : List Int) : List Int :=
  match i.sweepAxis? with
  | some s =>
    if k = 0 ∧ i.opcode.isReduction = true then
      if v.ndim < i.ndim then p.eraseIdx s else p.set s 0
    else p
  | none => p

end Instruction

/-- The loops stand at a position. -/
structure Turns.At (ts : Turns) (p : List Int) : Prop where
  enough : p.length ≤ ts.length
  index : ∀ axis x, p[axis]? = some x → ts.index axis = x

theorem Turns.At.stepBack {ts : Turns} {p : List Int} (h : ts.At p) (s : Nat) :
    Turns.At (Instruction.stepBack ts s) (p.modify s (· - 1)) := by
  refine ⟨by simpa [Instruction.stepBack] using h.enough, fun axis x hx => ?_⟩
  rw [List.getElem?_modify, Option.map_eq_map, Option.map_eq_some_iff] at hx
  obtain ⟨y, hy, rfl⟩ := hx
  have inside : axis < ts.length := by
    have := (List.getElem?_eq_some_iff.mp hy).1
    have := h.enough
    omega
  have here := h.index axis y hy
  rw [Turns.index, List.getElem?_eq_getElem inside] at here
  rw [Turns.index, Instruction.stepBack, List.getElem?_modify, List.getElem?_eq_getElem inside]
  split <;> simp_all

namespace View

theorem offsetAt_insertIdx {axes : List Axis} {p : List Int} {s : Nat} (n : Int)
    (length : p.length = axes.length + 1) (inside : s ≤ axes.length) :
    offsetAt (axes.insertIdx s ⟨n, 0⟩) p = offsetAt axes (p.eraseIdx s) := by
  induction s generalizing axes p with
  | zero =>
      cases p with
      | nil => simp at length
      | cons k p => simp [offsetAt]
  | succ s ih =>
      cases axes with
      | nil => simp at inside
      | cons a axes =>
          cases p with
          | nil => simp at length
          | cons k p =>
              have rest : offsetAt (axes.insertIdx s ⟨n, 0⟩) p = offsetAt axes (p.eraseIdx s) :=
                ih (by simpa using length) (by simpa using inside)
              simp only [List.insertIdx_succ_cons, List.eraseIdx_cons_succ, offsetAt, rest]

theorem offsetAt_set (axes : List Axis) (p : List Int) (s : Nat) (n : Int) :
    offsetAt (axes.set s ⟨n, 0⟩) p = offsetAt axes (p.set s 0) := by
  induction axes generalizing p s with
  | nil => simp [offsetAt]
  | cons a axes ih =>
      cases p with
      | nil => cases s <;> simp [offsetAt]
      | cons k p => cases s <;> simp [offsetAt, ih]

end View

namespace Instruction

variable {i j : Instruction} {ts ts' : Turns} {p q : List Int} {k l : Nat} {v w : View}

/-- Each axis that the operand follows moves it by its stride. -/
theorem offset_eq_foldl (hv : i.operands[k]? = some v) (ts : Turns) :
    i.offset ts k = (List.range i.ndim).foldl (fun sum axis =>
      sum + (((i.operandAxis? k axis).bind (v.axes[·]?)).map fun a =>
        ts.index axis * a.stride).getD 0) v.start := by
  rw [offset, hv]
  simp only
  refine congrArg (List.foldl · v.start _) (funext fun sum => funext fun axis => ?_)
  cases (i.operandAxis? k axis).bind (v.axes[·]?) with
  | none => exact (Int.add_zero sum).symm
  | some a => rfl

/-- The offset of an operand is its address at the position, along the axes that the loops see. -/
theorem offset_eq (at_p : ts.At p) (length : p.length = i.ndim) (hv : i.operands[k]? = some v) :
    i.offset ts k = v.start + offsetAt (i.seenAxes k v) p := by
  have step : ∀ (n : Nat) (sum : Int), n ≤ p.length →
      (List.range n).foldl (fun sum axis =>
        sum + (((i.operandAxis? k axis).bind (v.axes[·]?)).map fun a =>
          ts.index axis * a.stride).getD 0) sum =
      sum + offsetAt ((List.range n).map fun axis =>
        ((i.operandAxis? k axis).bind (v.axes[·]?)).getD ⟨1, 0⟩) (p.take n) := by
    intro n
    induction n with
    | zero => simp [offsetAt]
    | succ n ih =>
        intro sum inside
        have here : p[n]? = some p[n] := List.getElem?_eq_getElem (by omega)
        rw [List.range_succ, List.foldl_append, ih sum (by omega), List.map_append,
          List.take_succ_eq_append_getElem (by omega), offsetAt_append _ _ (by simp; omega)]
        simp only [List.foldl_cons, List.foldl_nil, List.map_cons, List.map_nil, offsetAt,
          at_p.index n _ here]
        cases (i.operandAxis? k n).bind (v.axes[·]?) with
        | none => simp
        | some a => simp [Int.add_assoc]
  rw [offset_eq_foldl hv]
  refine (step i.ndim v.start (by omega)).trans ?_
  rw [← length, List.take_length, length, seenAxes]

theorem seenAxes_getElem? {axis : Nat} (inside : axis < i.ndim) :
    (i.seenAxes k v)[axis]? =
      some (((i.operandAxis? k axis).bind (v.axes[·]?)).getD ⟨1, 0⟩) := by
  simp [seenAxes, inside]

/-- An operand with the shape of the positions is seen as it is. -/
theorem seenAxes_direct (hv : i.operands[k]? = some v) (array : v.isConstant = false)
    (direct : i.isIndirect k = false) (notFold : ¬ (k = 0 ∧ i.opcode.isReduction = true))
    (shape : v.shape = i.shape) : i.seenAxes k v = v.axes := by
  have ndim : v.axes.length = i.ndim := by
    rw [Instruction.ndim, ← shape, View.length_shape, View.ndim]
  refine List.ext_getElem? fun axis => ?_
  by_cases inside : axis < i.ndim
  · have own : i.operandAxis? k axis = some axis := by
      simp [operandAxis?, hv, array, direct, notFold, View.ndim, ndim, inside]
    rw [seenAxes_getElem? inside, own, Option.bind_some,
      List.getElem?_eq_getElem (by omega), Option.getD_some]
  · rw [List.getElem?_eq_none (by simp [seenAxes]; omega), List.getElem?_eq_none (by omega)]

theorem shape_of_isSweep (sweep : i.opcode.isSweep = true) {input : View}
    (hinput : i.operands[1]? = some input) : i.shape = input.shape := by
  obtain ⟨opcode, operands, constant, creates⟩ := i
  cases opcode <;> first | contradiction | skip
  all_goals
    rcases operands with _ | ⟨out, _ | ⟨x, rest⟩⟩ <;> simp at hinput
    subst hinput
    rfl

/-- A fold or scan along an axis of its input runs along an axis of its positions. -/
theorem sweepAxis_of_input (sweep : i.opcode.isSweep = true)
    (axis : ∃ s ∈ i.sweepAxis?, ∃ input ∈ i.operands[1]?, s < input.ndim) :
    ∃ s, i.sweepAxis? = some s ∧ s < i.ndim ∧
      (i.operands[1]?.map (·.ndim)).getD 0 = i.ndim := by
  obtain ⟨s, axis, input, hinput, inside⟩ := axis
  have hinput : i.operands[1]? = some input := hinput
  have ndim : input.ndim = i.ndim := by
    rw [Instruction.ndim, shape_of_isSweep sweep hinput, View.length_shape]
  exact ⟨s, axis, ndim ▸ inside, by rw [hinput]; exact ndim⟩

theorem ShapesFit.sweepAxis (fit : i.ShapesFit) (sweep : i.opcode.isSweep = true) :
    ∃ s, i.sweepAxis? = some s ∧ s < i.ndim ∧
      (i.operands[1]?.map (·.ndim)).getD 0 = i.ndim :=
  sweepAxis_of_input sweep (fit.axis sweep)

/-- A fold or scan runs along one of the axes of the positions. -/
def SweepsInside (i : Instruction) : Prop := ∀ s, i.sweepAxis? = some s → s < i.ndim

theorem ShapesFit.sweepsInside (fit : i.ShapesFit) : i.SweepsInside := by
  intro s axis
  obtain ⟨s', axis', inside, -⟩ := fit.sweepAxis (isSweep_of_sweepAxis? axis)
  obtain rfl : s = s' := Option.some.inj (axis.symm.trans axis')
  exact inside

/-- Which axis of its output a fold follows along an axis of its positions. -/
theorem operandAxis?_fold (hv : i.operands[0]? = some v) (array : v.isConstant = false)
    (reduction : i.opcode.isReduction = true) {s : Nat} (axis : i.sweepAxis? = some s)
    (input : (i.operands[1]?.map (·.ndim)).getD 0 = i.ndim) (n : Nat) :
    i.operandAxis? 0 n = if n = s then none
      else if v.ndim + 1 = i.ndim ∧ s < n then some (n - 1)
      else if n < v.ndim then some n else none := by
  have direct := isIndirect_of_isSweep (isSweep_of_isReduction reduction) 0
  simp [operandAxis?, hv, array, direct, reduction, axis, input]

/-- The output of a fold that has as many axes as the input is seen with one that stands still. -/
theorem seenAxes_fold_kept (hv : i.operands[0]? = some v) (array : v.isConstant = false)
    (reduction : i.opcode.isReduction = true) {s : Nat} (axis : i.sweepAxis? = some s)
    (inside : s < i.ndim) (input : (i.operands[1]?.map (·.ndim)).getD 0 = i.ndim)
    (keeps : v.axes.length = i.ndim) : i.seenAxes 0 v = v.axes.set s ⟨1, 0⟩ := by
  have own := operandAxis?_fold hv array reduction axis input
  refine List.ext_getElem? fun n => ?_
  have ndim : v.ndim = v.axes.length := rfl
  by_cases inside' : n < i.ndim
  · rw [seenAxes_getElem? inside', own, List.getElem?_set]
    by_cases same : n = s
    · simp [same, keeps, inside]
    · simp [same, Ne.symm same, ndim, keeps, inside']
  · rw [List.getElem?_eq_none (by simp [seenAxes]; omega),
      List.getElem?_eq_none (by rw [List.length_set]; omega)]

/-- The output of a fold is seen with an axis that stands still. -/
theorem seenAxes_fold (fit : i.ShapesFit) (hv : i.operands[0]? = some v)
    (array : v.isConstant = false) (reduction : i.opcode.isReduction = true) {s : Nat}
    (axis : i.sweepAxis? = some s) :
    if v.ndim < i.ndim then v.ndim + 1 = i.ndim ∧ i.seenAxes 0 v = v.axes.insertIdx s ⟨1, 0⟩
    else i.seenAxes 0 v = v.axes.set s ⟨1, 0⟩ := by
  obtain ⟨s', axis', inside, input⟩ := fit.sweepAxis (isSweep_of_isReduction reduction)
  obtain rfl : s = s' := Option.some.inj (axis.symm.trans axis')
  have shapes := fit.folded reduction s axis v hv array
  have vdim : v.axes.length = v.shape.length := v.length_shape.symm
  have own := operandAxis?_fold hv array reduction axis input
  split
  next less =>
    have lacks : v.axes.length + 1 = i.ndim := by
      rw [Instruction.ndim] at inside ⊢
      rcases shapes with removed | kept
      · rw [vdim, removed, List.length_eraseIdx, if_pos inside]
        omega
      · rw [View.ndim, vdim, kept, List.length_set, Instruction.ndim] at less
        omega
    refine ⟨lacks, List.ext_getElem? fun n => ?_⟩
    have ndim : v.ndim = v.axes.length := rfl
    by_cases inside' : n < i.ndim
    · rw [seenAxes_getElem? inside', own, List.getElem?_insertIdx]
      rcases lt_trichotomy n s with before | rfl | behind
      · simp [before, before.ne, Nat.not_lt.mpr before.le, ndim, show n < v.axes.length by omega]
      · simp [show n ≤ v.axes.length by omega]
      · have here : v.axes[n - 1]? = some v.axes[n - 1] := List.getElem?_eq_getElem (by omega)
        simp [behind, behind.ne', Nat.not_lt.mpr behind.le, ndim, here, lacks]
    · rw [List.getElem?_eq_none (by simp [seenAxes]; omega),
        List.getElem?_eq_none (by rw [List.length_insertIdx]; split <;> omega)]
  next notLess =>
    have keeps : v.axes.length = i.ndim := by
      rw [Instruction.ndim] at inside ⊢
      rcases shapes with removed | kept
      · rw [View.ndim, vdim, removed, List.length_eraseIdx, if_pos inside, Instruction.ndim]
          at notLess
        omega
      · rw [vdim, kept, List.length_set]
    exact seenAxes_fold_kept hv array reduction axis inside input keeps

/-- An operand that is no constant and not addressed by values is accessed at its place. -/
theorem offsetAt_seenAxes (fit : i.ShapesFit) (hv : i.operands[k]? = some v)
    (array : v.isConstant = false) (direct : i.isIndirect k = false)
    (range : InRange i.shape p) :
    offsetAt (i.seenAxes k v) p = offsetAt v.axes (i.place k v p) ∧
      InRange v.shape (i.place k v p) := by
  by_cases fold : k = 0 ∧ i.opcode.isReduction = true
  swap
  · have shape := fit.direct (v, k) (List.mem_zipIdx_iff_getElem?.mpr hv) array direct fold
    have same : i.place k v p = p := by
      rw [place]
      split
      · rw [if_neg fold]
      · rfl
    rw [seenAxes_direct hv array direct fold shape, same, shape]
    exact ⟨rfl, range⟩
  obtain ⟨rfl, reduction⟩ := fold
  obtain ⟨s, axis, inside, -⟩ := fit.sweepAxis (isSweep_of_isReduction reduction)
  have seen := seenAxes_fold fit hv array reduction axis
  have shapes := fit.folded reduction s axis v hv array
  have vdim : v.ndim = v.shape.length := v.length_shape.symm
  have length := range.length_eq
  have folded : i.place 0 v p = if v.ndim < i.ndim then p.eraseIdx s else p.set s 0 := by
    simp [place, axis, reduction]
  rw [folded]
  rw [Instruction.ndim] at inside seen ⊢
  split at seen
  next less =>
    obtain ⟨lacks, seen⟩ := seen
    rw [if_pos less, seen, offsetAt_insertIdx 1 (by rw [length, ← lacks]; rfl)
      (by rw [← View.ndim]; omega)]
    refine ⟨rfl, ?_⟩
    rcases shapes with removed | kept
    · rw [removed]
      exact range.eraseIdx s
    · rw [vdim, kept, List.length_set] at less
      omega
  next notLess =>
    rw [if_neg notLess, seen, offsetAt_set]
    refine ⟨rfl, ?_⟩
    rcases shapes with removed | kept
    · rw [vdim, removed, List.length_eraseIdx, if_pos inside] at notLess
      omega
    · rw [kept]
      exact range.set_one s

/-! ## The action at a position -/

/-- The loops stand at a position, and a fold or scan opens where its axis is at its first index. -/
structure StandsAt (i : Instruction) (ts : Turns) (p : List Int) : Prop where
  at_p : ts.At p
  opening : ∀ s x, i.sweepAxis? = some s → p[s]? = some x → ts.isOpening s = (x == 0)

/-- Loops that stand at a position also stand at what it begins with. -/
theorem StandsAt.take {i : Instruction} {ts : Turns} {p : List Int} (h : i.StandsAt ts p)
    (n : Nat) : i.StandsAt ts (p.take n) := by
  have shorter : ∀ {axis : Nat} {x : Int}, (p.take n)[axis]? = some x → p[axis]? = some x := by
    intro axis x hx
    rw [List.getElem?_take] at hx
    split at hx
    · exact hx
    · contradiction
  have enough := h.at_p.enough
  exact ⟨⟨by rw [List.length_take]; omega, fun axis x hx => h.at_p.index axis x (shorter hx)⟩,
    fun axis x along hx => h.opening axis x along (shorter hx)⟩

/-- Loops that stand at a position. -/
def turns (i : Instruction) (p : List Int) : Turns :=
  p.mapIdx fun axis x => ⟨x, i.sweepAxis? == some axis && x == 0⟩

theorem standsAt_turns (i : Instruction) (p : List Int) : i.StandsAt (i.turns p) p where
  at_p := ⟨by simp [turns], fun axis x hx => by simp [Turns.index, turns, hx]⟩
  opening s x axis hx := by simp [Turns.isOpening, turns, hx, axis]

/-- The action of an instruction at a position. -/
def actAt (i : Instruction) (p : List Int) : Action := i.act (i.turns p)

theorem flatIndex_eq (at_p : ts.At p) (length : p.length = i.ndim) :
    i.flatIndex ts = number i.shape p := by
  have step : ∀ (shape p : List Int) (first : Nat), p.length = shape.length →
      (∀ axis x, p[axis]? = some x → ts.index (first + axis) = x) →
      ((contiguousStrides shape).zipIdx first).foldr (fun x sum =>
        ts.index x.2 * x.1 + sum) 0 = number shape p := by
    intro shape
    induction shape with
    | nil => simp [contiguousStrides, number]
    | cons n shape ih =>
        intro p first length index
        cases p with
        | nil => simp at length
        | cons x p =>
            have here := index 0 x rfl
            have rest := ih p (first + 1) (by simpa using length) fun axis y hy => by
              have := index (axis + 1) y hy
              rwa [← Nat.add_assoc, Nat.add_right_comm] at this
            rw [Nat.add_zero] at here
            simp only [contiguousStrides, List.zipIdx_cons, List.foldr_cons, number, here, rest]
  rw [flatIndex]
  exact step i.shape p 0 length fun axis x hx => by rw [Nat.zero_add]; exact at_p.index axis x hx

theorem offset_congr (at_p : ts.At p) (at_p' : ts'.At p) (length : p.length = i.ndim) (k : Nat) :
    i.offset ts' k = i.offset ts k := by
  cases hv : i.operands[k]? with
  | none => simp [offset, hv]
  | some v => rw [offset_eq at_p length hv, offset_eq at_p' length hv]

/-- How an instruction acts depends on the position of the loops only. -/
theorem act_eq_actAt_of_inside (along : i.SweepsInside) (stands : i.StandsAt ts p)
    (length : p.length = i.ndim) : i.act ts = i.actAt p := by
  obtain ⟨at_p', opening'⟩ := i.standsAt_turns p
  obtain ⟨at_p, opening⟩ := stands
  have inside : ∀ s, i.sweepAxis? = some s → p[s]? = some (p[s]?.getD 0) := by
    intro s axis
    rw [List.getElem?_eq_getElem (length ▸ along s axis), Option.getD_some]
  refine act_eq_of_finds fun a => {
    opcode := rfl
    random := fun _ => rfl
    evaluable := rfl
    count := rfl
    types := fun _ => rfl
    output := rfl
    offset := offset_congr at_p' at_p length 0
    starts := fun _ _ => rfl
    number := fun _ => by rw [flatIndex_eq at_p length, flatIndex_eq at_p' length]
    loads := fun k _ => by rw [loadAt, loadAt, offset_congr at_p' at_p length k]
    anywhere := fun _ _ _ => rfl
    unswept := id
    swept := fun s axis => ⟨s, axis,
      by rw [opening s _ axis (inside s axis), opening' s _ axis (inside s axis)],
      fun _ _ => by
        rw [loadAt, loadAt,
          offset_congr (at_p'.stepBack s) (at_p.stepBack s) (by simpa using length)]⟩
  }

theorem act_eq_actAt (fit : i.ShapesFit) (stands : i.StandsAt ts p) (length : p.length = i.ndim) :
    i.act ts = i.actAt p :=
  act_eq_actAt_of_inside fit.sweepsInside stands length

end Instruction

end ArrayFusion
