import ArrayFusion.Proofs.Engine.Meaning
import ArrayFusion.Proofs.Eval.Integers
import ArrayFusion.Proofs.View.Lines
import Mathlib.Data.List.Nodup

/-!
# Folds and scans of integers

The nest of a fold or scan runs through the positions of its input in row-major order. The invariant
of the run: an element of the output holds the elements of a line, joined up to the last of the
positions done so far that writes it. A fold writes one element for all positions of a line, a scan
one for each, and both read the result so far where the position one step before wrote it.
-/

namespace ArrayFusion

open Shape View Instruction

/-- Elements of a base that holds integers. -/
def View.read (v : View) (cells : Array Int) (p : List Int) : Int :=
  (cells[(v.start + offsetAt v.axes p).toNat]?).getD 0

/-- The elements of the base are elements of the array. -/
def View.Covers (v : View) (cells : Array Int) : Prop :=
  ∀ x ∈ v.addresses, 0 ≤ x ∧ x < cells.size

/-- The arena with other data of a base. -/
def Arena.setCells (a : Arena) (b : BaseId) (t : IntType) (cells : Array Int) : Arena :=
  a.modify b fun base => { base with data := some ⟨.integer t, cells⟩ }

namespace Arena

variable {a : Arena} {b c : BaseId} {t : IntType} {cells : Array Int}

theorem isSome_of_buffer? {buffer : Buffer} (data : a.buffer? b = some buffer) :
    (a.get? b).isSome = true := by
  rw [buffer?] at data
  cases found : a.get? b with
  | none => simp [found] at data
  | some base => rfl

theorem buffer?_setCells (known : (a.get? b).isSome = true) (c : BaseId) :
    (a.setCells b t cells).buffer? c =
      if b = c then some ⟨.integer t, cells⟩ else a.buffer? c := by
  rw [buffer?, setCells, get?_modify]
  split
  next same =>
    subst same
    obtain ⟨base, found⟩ := Option.isSome_iff_exists.mp known
    rw [found]
    rfl
  next => rfl

/-- Data that a base has already. -/
theorem setCells_self (data : a.buffer? b = some ⟨.integer t, cells⟩) : a.setCells b t cells = a := by
  rw [setCells, modify_eq_mapBases]
  refine mapBases_id fun d base found => ?_
  split
  next same =>
    subst same
    rw [buffer?, found, Option.bind_some] at data
    rw [← data]
  next => rfl

/-- Of two changes of the data the second one counts. -/
theorem setCells_setCells (cells new : Array Int) :
    (a.setCells b t cells).setCells b t new = a.setCells b t new := by
  simp only [setCells, modify_eq_mapBases, mapBases_mapBases]
  refine mapBases_congr fun d base _ => ?_
  split <;> rfl

/-- A write to the base changes one of its elements. -/
theorem run_act_setCells {w : Write} (known : (a.get? w.base).isSome = true)
    (inside : w.position < cells.size) {x : Int}
    (stored : ∀ e : Int, w.value.store (.integer t) e = x) :
    w.act.run (a.setCells w.base t cells) =
      some (a.setCells w.base t (cells.modify w.position fun _ => x)) := by
  have fits : w.fits (a.setCells w.base t cells) = true := by
    rw [Write.fits, size?, buffer?_setCells known, if_pos rfl]
    exact decide_eq_true inside
  rw [w.run_act, if_pos fits, setCells, setCells, modify_eq_mapBases, modify_eq_mapBases,
    mapBases_mapBases]
  refine congrArg some (mapBases_congr fun d base _ => ?_)
  simp only [Write.onBases]
  split
  · simp only [Option.map_some, Buffer.change]
    rw [funext stored]
  · rfl

end Arena

namespace Instruction

theorem load_eq_scalar {i : Instruction} {a : Arena} {k : Nat} {v : View} {b : BaseId}
    {t : IntType} {cells : Array Int} {offset x : Int} (hv : i.operands[k]? = some v)
    (base : v.base = some b) (data : a.buffer? b = some ⟨.integer t, cells⟩) (nonneg : 0 ≤ offset)
    (element : cells[offset.toNat]? = some x) (holds : t.Holds x) :
    i.load a k offset = .ok (t.scalar x) := by
  have value : a.value? b offset = some (t.scalar x) := by
    rw [Arena.value?, data, Option.bind_some, if_neg (Int.not_lt.mpr nonneg)]
    simp only [element, Option.map_some, IntType.ofElem_eq_scalar holds]
  have loaded : (i.load a k offset).toOption = some (t.scalar x) := by
    simp only [toOption_load, hv, Option.bind_some, base, value]
  cases found : i.load a k offset with
  | error e =>
    rw [found] at loaded
    contradiction
  | ok y =>
    rw [found] at loaded
    exact congrArg Except.ok (Option.some.inj loaded)

/-- Address that the output has when the instruction is at a position. -/
def target (i : Instruction) (out : View) (p : List Int) : Int :=
  out.start + offsetAt out.axes (i.place 0 out p)

/-- A fold or scan along an axis of an array of integers into another array of the same type. -/
structure SweepsIntegers (i : Instruction) (f : Fold) (t : IntType) (axis : Nat) (out input : View)
    (b c : BaseId) : Prop where
  joins : i.opcode.sweepOperation? = some f.operation
  operands : ∃ w : View, i.operands = [out, input, w] ∧ w.isConstant = true
  along : i.sweepAxis? = some axis
  inside : axis < input.ndim
  views : i.WellFormed
  output : out.base = some b
  source : input.base = some c
  apart : b ≠ c
  outType : out.dtype = .integer t
  inputType : input.dtype = .integer t
  /-- The output has every address once. -/
  once : out.addresses.Nodup
  /-- The output of a fold lacks the axis or keeps it with size one. -/
  shape : if i.opcode.isReduction then
      out.shape = input.shape.eraseIdx axis ∨ out.shape = input.shape.set axis 1
    else out.shape = input.shape

namespace SweepsIntegers

variable {i : Instruction} {f : Fold} {t : IntType} {axis : Nat} {out input : View} {b c : BaseId}
  {p q : List Int}

section Shapes

variable (h : i.SweepsIntegers f t axis out input b c)

include h

theorem isSweep : i.opcode.isSweep = true := by
  have joins := h.joins
  cases op : i.opcode <;> rw [op] at joins <;> first | rfl | contradiction

theorem operand_zero : i.operands[0]? = some out := by
  obtain ⟨w, operands, -⟩ := h.operands
  rw [operands]
  rfl

theorem operand_one : i.operands[1]? = some input := by
  obtain ⟨w, operands, -⟩ := h.operands
  rw [operands]
  rfl

theorem shape_eq : i.shape = input.shape := shape_of_isSweep h.isSweep h.operand_one

theorem ndim_eq : i.ndim = input.ndim := by
  rw [Instruction.ndim, h.shape_eq, View.length_shape]

theorem shapesFit : i.ShapesFit := by
  have shape := h.shape
  refine ⟨fun _ => ⟨axis, h.along, input, h.operand_one, h.inside⟩, ?_, ?_⟩
  · rintro ⟨v, k⟩ member array - notFold
    rw [List.mem_zipIdx_iff_getElem?] at member
    obtain ⟨w, operands, constant⟩ := h.operands
    dsimp only at array notFold
    rw [operands] at member
    match k, member with
    | 0, member =>
      cases member
      have scan : i.opcode.isReduction = false := by simpa using notFold
      rw [scan, if_neg Bool.false_ne_true] at shape
      exact shape.trans h.shape_eq.symm
    | 1, member =>
      cases member
      exact h.shape_eq.symm
    | 2, member =>
      cases member
      rw [constant] at array
      contradiction
  · intro reduction s along v hv _
    obtain rfl : axis = s := Option.some.inj (h.along.symm.trans along)
    obtain rfl : out = v := Option.some.inj (h.operand_zero.symm.trans hv)
    rw [reduction, if_pos rfl] at shape
    rwa [h.shape_eq]

theorem sound : i.Sound where
  notSystem := by
    have sweep := h.isSweep
    cases op : i.opcode <;> rw [op] at sweep <;> first | rfl | contradiction
  views := h.views
  fit := h.shapesFit

theorem runs (place : Option Nat) : Statement.Runs ⟨i, place⟩ where
  sound := h.sound
  once out' hout _ := by
    obtain rfl : out = out' := Option.some.inj (h.operand_zero.symm.trans hout)
    exact h.once

/-! ## Addresses -/

theorem isAccumulate_eq : i.opcode.isAccumulate = !i.opcode.isReduction := by
  have sweep := h.isSweep
  cases op : i.opcode <;> rw [op] at sweep <;> first | rfl | contradiction

theorem place_out (p : List Int) : i.place 0 out p =
    if i.opcode.isReduction then if out.ndim < input.ndim then p.eraseIdx axis else p.set axis 0
    else p := by
  simp [place, h.along, h.ndim_eq]

theorem place_in (p : List Int) : i.place 1 input p = p := by
  simp [place, h.along]

theorem offset_out {ts : Turns} (at_p : ts.At p) (range : InRange input.shape p) :
    i.offset ts 0 = i.target out p ∧
      InRange out.shape (i.place 0 out p) := by
  rw [← h.shape_eq] at range
  obtain ⟨offset, inside⟩ := offsetAt_seenAxes h.shapesFit h.operand_zero
    (View.isConstant_of_base h.output) (isIndirect_of_isSweep h.isSweep 0) range
  exact ⟨by rw [offset_eq at_p range.length_eq h.operand_zero, offset, target], inside⟩

/-- What is written for a position is an element of the output. -/
theorem target_mem_addresses (range : InRange input.shape p) : i.target out p ∈ out.addresses := by
  have sizes := (h.views out (List.mem_of_getElem? h.operand_zero)).sizes
  obtain ⟨-, inside⟩ := h.offset_out (i.standsAt_turns p).at_p range
  exact (mem_addresses sizes).mpr ⟨_, inside, rfl⟩

theorem offset_in {ts : Turns} (at_p : ts.At p) (range : InRange input.shape p) :
    i.offset ts 1 = input.start + offsetAt input.axes p := by
  rw [← h.shape_eq] at range
  obtain ⟨offset, -⟩ := offsetAt_seenAxes h.shapesFit h.operand_one
    (View.isConstant_of_base h.source) (isIndirect_of_isSweep h.isSweep 1) range
  rw [offset_eq at_p range.length_eq h.operand_one, offset, h.place_in]

/-- A fold writes where it wrote one step before. -/
theorem target_modify (reduction : i.opcode.isReduction = true) (p : List Int) (g : Int → Int) :
    i.target out (p.modify axis g) = i.target out p := by
  have set : (p.modify axis g).set axis 0 = p.set axis 0 := by
    refine List.ext_getElem? fun k => ?_
    rw [List.getElem?_set, List.getElem?_set, List.length_modify, List.getElem?_modify]
    split <;> simp_all
  rw [target, target, h.place_out, h.place_out, reduction, if_pos rfl, if_pos rfl, eraseIdx_modify,
    set]

/-- The result so far is where the position one step before wrote it. -/
theorem offset_before (range : InRange input.shape p) (later : p[axis]? ≠ some 0) :
    i.offset (if i.opcode.isAccumulate then stepBack (i.turns p) axis else i.turns p) 0 =
      i.target out (p.modify axis (· - 1)) := by
  have at_p := (i.standsAt_turns p).at_p
  rw [h.isAccumulate_eq]
  cases reduction : i.opcode.isReduction with
  | true =>
    rw [h.target_modify reduction, Bool.not_true, if_neg Bool.false_ne_true]
    exact (h.offset_out at_p range).1
  | false =>
    rw [Bool.not_false, if_pos rfl]
    exact (h.offset_out (at_p.stepBack axis) (range.modify_pred later)).1

/-- Positions that write one element stand on one line, and for a scan they are the same. -/
theorem line_of_address_eq (hp : InRange input.shape p) (hq : InRange input.shape q)
    (same : i.target out p = i.target out q) :
    p.eraseIdx axis = q.eraseIdx axis ∧ (i.opcode.isReduction = false → p = q) := by
  have inside := fun p range => (h.offset_out (p := p) (i.standsAt_turns p).at_p range).2
  have once := h.once
  have sizes := (h.views out (List.mem_of_getElem? h.operand_zero)).sizes
  rw [addresses_eq sizes] at once
  have places : i.place 0 out p = i.place 0 out q := List.inj_on_of_nodup_map once
    (mem_positions.mpr (inside p hp)) (mem_positions.mpr (inside q hq)) same
  rw [h.place_out, h.place_out] at places
  cases reduction : i.opcode.isReduction with
  | false =>
    rw [reduction, if_neg Bool.false_ne_true, if_neg Bool.false_ne_true] at places
    exact ⟨by rw [places], fun _ => places⟩
  | true =>
    refine ⟨?_, nofun⟩
    rw [reduction, if_pos rfl, if_pos rfl] at places
    split at places
    · exact places
    · have lines := congrArg (List.eraseIdx · axis) places
      simpa only [List.eraseIdx_set_eq] using lines

/-! ## One position -/

theorem outType_eq : i.outType = .integer t := by
  simp [Instruction.outType, operandType?, h.operand_zero, h.output, h.outType]

theorem isEvaluable : i.isEvaluable = true := by
  have sweep := h.isSweep
  obtain ⟨w, operands, constant⟩ := h.operands
  have extension : i.opcode.isExtension = false := by
    cases op : i.opcode <;> rw [op] at sweep <;> first | rfl | contradiction
  simp [Instruction.isEvaluable, extension, operands, constant, h.outType, h.inputType,
    DType.isEvaluable]

/-- At the first index of its axis a fold or scan copies the input. -/
theorem sweepValue_first {a : Arena} {x : Int} (first : p[axis]? = some 0)
    (input : i.loadAt a (i.turns p) 1 = .ok (t.scalar x)) :
    i.sweepValue f.operation a (i.turns p) = .ok (t.scalar x) := by
  have opening : (i.turns p).isOpening axis = true :=
    (i.standsAt_turns p).opening axis 0 h.along first
  simp only [sweepValue, h.along, input]
  change (if (i.turns p).isOpening axis = true then _ else _) = _
  rw [if_pos opening, h.outType_eq]
  rfl

/-- From the second index on it joins the result so far with the input. -/
theorem sweepValue_later {a : Arena} {n x y : Int} (here : p[axis]? = some n) (later : n ≠ 0)
    (input : i.loadAt a (i.turns p) 1 = .ok (t.scalar x))
    (before : i.load a 0 (i.offset (if i.opcode.isAccumulate then stepBack (i.turns p) axis
      else i.turns p) 0) = .ok (t.scalar y)) :
    ∃ z, i.sweepValue f.operation a (i.turns p) = .ok z ∧
      ∀ e : Int, z.store (.integer t) e = f.join t y x := by
  have opening : (i.turns p).isOpening axis = false := by
    rw [(i.standsAt_turns p).opening axis n h.along here]
    simpa using later
  obtain ⟨z, joined, stored⟩ := f.binary_eq_join t y x
  refine ⟨z, ?_, stored⟩
  simp only [sweepValue, h.along, input]
  change (if (i.turns p).isOpening axis = true then _ else _) = _
  rw [opening, if_neg Bool.false_ne_true, loadAt, before, h.outType_eq]
  change (Scalar.binary f.operation (.integer t) (t.scalar y) (t.scalar x) >>= _) = _
  rw [joined]
  rfl

theorem effect?_eq {a : Arena} {ts : Turns} {z : Scalar} {x : Int} (nonneg : 0 ≤ x)
    (offset : i.offset ts 0 = x) (value : i.sweepValue f.operation a ts = .ok z) :
    i.effect? a ts = .ok (some ⟨b, x.toNat, z⟩) := by
  have joins := h.joins
  have output : i.outputBase? = some b := by
    rw [outputBase?, List.head?_eq_getElem?, h.operand_zero]
    exact h.output
  have written : i.writeTo x z = .ok ⟨b, x.toNat, z⟩ := by
    rw [writeTo, output]
    simp [Int.not_lt.mpr nonneg]
  have evaluable : (!i.isEvaluable) = false := by rw [h.isEvaluable]; rfl
  rw [effect?]
  simp only [h.sound.notSystem, evaluable, Bool.false_eq_true, if_false, offset]
  cases op : i.opcode <;> rw [op] at joins <;> first | contradiction | skip
  all_goals
    have same := Option.some.inj joins
    simp only [same, value]
    change (i.writeTo x z >>= _) = _
    rw [written]
    rfl

/-- What a fold or scan does at a position: it changes one element of the output. -/
theorem run_actAt {a : Arena} {cells cur : Array Int} (known : (a.get? b).isSome = true)
    (data : a.buffer? c = some ⟨.integer t, cells⟩) (covered : input.Covers cells)
    (coversOut : out.Covers cur) (holds : ∀ x ∈ cells, t.Holds x) (range : InRange input.shape p)
    {n : Int} (here : p[axis]? = some n) {x : Int}
    (first : n = 0 → x = input.read cells p)
    (later : n ≠ 0 → ∃ y, cur[(i.target out (p.modify axis (· - 1))).toNat]? = some y ∧
      t.Holds y ∧ x = f.join t y (input.read cells p)) :
    (i.actAt p).run (a.setCells b t cur) = some (a.setCells b t
      (cur.modify (i.target out p).toNat fun _ => x)) := by
  have at_p := (i.standsAt_turns p).at_p
  have inSizes := (h.views input (List.mem_of_getElem? h.operand_one)).sizes
  obtain ⟨offset, -⟩ := h.offset_out at_p range
  have inBounds := coversOut _ (h.target_mem_addresses range)
  have inputBounds := covered _ ((mem_addresses inSizes).mpr ⟨_, range, rfl⟩)
  have dataIn : (a.setCells b t cur).buffer? c = some ⟨.integer t, cells⟩ := by
    rw [Arena.buffer?_setCells known, if_neg h.apart, data]
  have dataOut : (a.setCells b t cur).buffer? b = some ⟨.integer t, cur⟩ := by
    rw [Arena.buffer?_setCells known, if_pos rfl]
  have element : cells[(input.start + offsetAt input.axes p).toNat]? =
      some (input.read cells p) := by
    rw [View.read, Array.getElem?_eq_getElem (by omega)]
    rfl
  have loaded : i.loadAt (a.setCells b t cur) (i.turns p) 1 =
      .ok (t.scalar (input.read cells p)) := by
    rw [loadAt, h.offset_in at_p range]
    exact load_eq_scalar h.operand_one h.source dataIn inputBounds.1 element
      (holds _ (Array.mem_of_getElem? element))
  obtain ⟨z, value, stored⟩ : ∃ z, i.sweepValue f.operation (a.setCells b t cur) (i.turns p) =
      .ok z ∧ ∀ e : Int, z.store (.integer t) e = x := by
    by_cases start : n = 0
    · refine ⟨_, h.sweepValue_first (start ▸ here) loaded, fun e => ?_⟩
      rw [IntType.store_scalar (holds _ (Array.mem_of_getElem? element)), first start]
    · obtain ⟨y, before, held, rfl⟩ := later start
      have notFirst : p[axis]? ≠ some 0 := by
        rw [here]
        exact fun same => start (Option.some.inj same)
      refine h.sweepValue_later here start loaded ?_
      rw [h.offset_before range notFirst]
      have nonneg := (coversOut _ (h.target_mem_addresses (range.modify_pred notFirst))).1
      exact load_eq_scalar h.operand_zero h.output dataOut nonneg before held
  have effect := h.effect?_eq inBounds.1 offset value
  rw [actAt, run_act, effect]
  exact Arena.run_act_setCells (w := ⟨b, _, z⟩) known (by simp only; omega) stored

end Shapes

/-! ## All positions -/

/-- What the line of a position joins to, up to the position. -/
def joined (f : Fold) (t : IntType) (axis : Nat) (input : View) (cells : Array Int) (p : List Int) :
    Int :=
  joinLine (f.join t) (input.read cells) axis (p.eraseIdx axis) (p[axis]?.getD 0).toNat

/-- The output after some positions. An element has the result of the last position that wrote it. -/
structure Swept (i : Instruction) (f : Fold) (t : IntType) (axis : Nat) (out input : View)
    (cells old : Array Int) (done : List (List Int)) (cur : Array Int) : Prop where
  size : cur.size = old.size
  others : ∀ x : Nat, (∀ p ∈ done, (i.target out p).toNat ≠ x) → cur[x]? = old[x]?
  last : ∀ p ∈ done, (∀ q ∈ done, i.target out q = i.target out p →
      q[axis]?.getD 0 ≤ p[axis]?.getD 0) →
    cur[(i.target out p).toNat]? = some (joined f t axis input cells p)

theorem joined_first (first : p[axis]? = some 0) (f : Fold) (t : IntType) (input : View)
    (cells : Array Int) : joined f t axis input cells p = input.read cells p := by
  obtain ⟨inside, value⟩ := List.getElem?_eq_some_iff.mp first
  rw [joined, first, Option.getD_some, Int.toNat_zero, joinLine_zero, ← value,
    List.insertIdx_eraseIdx_getElem inside]

theorem joined_later {n : Int} (here : p[axis]? = some n) (later : 0 < n) (f : Fold) (t : IntType)
    (input : View) (cells : Array Int) : joined f t axis input cells p =
      f.join t (joined f t axis input cells (p.modify axis (· - 1))) (input.read cells p) := by
  obtain ⟨inside, value⟩ := List.getElem?_eq_some_iff.mp here
  have back : (p.modify axis (· - 1))[axis]? = some (n - 1) := by
    rw [List.getElem?_modify, here]
    simp
  have position : (p.eraseIdx axis).insertIdx axis n = p := by
    rw [← value, List.insertIdx_eraseIdx_getElem inside]
  obtain ⟨k, rfl⟩ : ∃ k : Nat, n = k + 1 := ⟨(n - 1).toNat, by omega⟩
  have steps : ((k : Int) + 1).toNat = k + 1 := by omega
  have stepsBack : ((k : Int) + 1 - 1).toNat = k := by omega
  rw [joined, joined, here, back, Option.getD_some, Option.getD_some, steps, stepsBack,
    joinLine_succ, eraseIdx_modify, position]

theorem holds_read {cells : Array Int} (holds : ∀ x ∈ cells, t.Holds x) (v : View) (p : List Int) :
    t.Holds (v.read cells p) := by
  rw [View.read]
  cases found : cells[(v.start + offsetAt v.axes p).toNat]? with
  | none => exact t.wrap_zero
  | some x => exact holds x (Array.mem_of_getElem? found)

theorem holds_joined {cells : Array Int} (holds : ∀ x ∈ cells, t.Holds x) (f : Fold) (axis : Nat)
    (input : View) (p : List Int) : t.Holds (joined f t axis input cells p) := by
  rw [joined]
  cases (p[axis]?.getD 0).toNat with
  | zero => exact holds_read holds input _
  | succ k =>
    rw [joinLine_succ]
    exact t.holds_wrap _

/-! ## One more position -/

section Step

variable {cells old cur : Array Int} {done rest : List (List Int)}
  (h : i.SweepsIntegers f t axis out input b c)
  (split : positions input.shape = done ++ p :: rest)

include h

/-- Every position has an index along the axis. -/
theorem axis_lt_length (range : InRange input.shape p) : axis < p.length := by
  rw [range.length_eq, View.length_shape]
  exact h.inside

theorem getElem?_axis (range : InRange input.shape p) : p[axis]? = some (p[axis]?.getD 0) := by
  rw [List.getElem?_eq_getElem (h.axis_lt_length range), Option.getD_some]

theorem getElem?_stepBack (range : InRange input.shape p) :
    (p.modify axis (· - 1))[axis]? = some (p[axis]?.getD 0 - 1) := by
  rw [List.getElem?_modify, h.getElem?_axis range]
  simp

include split

omit h in
theorem range_of_split (hq : q ∈ done ++ [p]) : InRange input.shape q := by
  apply mem_positions.mp
  rw [split, List.append_cons]
  exact List.mem_append_left rest hq

/-- Positions done so far stand before the next one on its line. -/
theorem index_lt (hq : q ∈ done) (line : q.eraseIdx axis = p.eraseIdx axis) :
    q[axis]?.getD 0 < p[axis]?.getD 0 := by
  apply lt_of_mem split hq line
  · exact h.getElem?_axis (range_of_split split (List.mem_append_left _ hq))
  · exact h.getElem?_axis (range_of_split split List.mem_concat_self)

/-- The position one step before is done. -/
theorem modify_mem_done (later : p[axis]? ≠ some 0) : p.modify axis (· - 1) ∈ done := by
  have range := range_of_split split List.mem_concat_self
  have back := range.modify_pred later
  exact mem_of_number_lt split back (number_lt_of_step range back (h.axis_lt_length range) rfl)

/-- The result so far is that of the position one step before. -/
theorem Swept.before (swept : Swept i f t axis out input cells old done cur)
    (later : p[axis]? ≠ some 0) : cur[(i.target out (p.modify axis (· - 1))).toNat]? =
      some (joined f t axis input cells (p.modify axis (· - 1))) := by
  have range := range_of_split split List.mem_concat_self
  apply swept.last _ (h.modify_mem_done split later)
  intro r hr same
  have line := (h.line_of_address_eq (range_of_split split (List.mem_append_left _ hr))
    (range.modify_pred later) same).1
  have earlier := h.index_lt split hr (line.trans (eraseIdx_modify p axis (· - 1)))
  rw [h.getElem?_stepBack range, Option.getD_some]
  omega

/-- The output with the result of the next position. -/
theorem Swept.push (swept : Swept i f t axis out input cells old done cur)
    (coversOut : out.Covers old) : Swept i f t axis out input cells old (done ++ [p])
      (cur.modify (i.target out p).toNat fun _ => joined f t axis input cells p) := by
  have bounds : ∀ q ∈ done ++ [p], 0 ≤ i.target out q ∧ i.target out q < cur.size := by
    intro q hq
    rw [swept.size]
    exact coversOut _ (h.target_mem_addresses (range_of_split split hq))
  have here : p ∈ done ++ [p] := List.mem_concat_self
  constructor
  case size => rw [Array.size_modify, swept.size]
  case others =>
    intro x apart
    rw [Array.getElem?_modify, if_neg (apart p here),
      swept.others x fun q hq => apart q (List.mem_append_left _ hq)]
  case last =>
    intro r hr most
    by_cases same : i.target out r = i.target out p
    · -- Of the positions that write this element, the next one is the last of its line.
      have line := (h.line_of_address_eq (range_of_split split hr) (range_of_split split here) same).1
      obtain earlier | last := List.mem_append.mp hr
      · exact absurd (h.index_lt split earlier line) (Int.not_lt.mpr (most p here same.symm))
      · obtain rfl := List.mem_singleton.mp last
        have inside := bounds r hr
        rw [Array.getElem?_modify, if_pos rfl, Array.getElem?_eq_getElem (by omega)]
        rfl
    · have earlier : r ∈ done := by
        obtain earlier | last := List.mem_append.mp hr
        · exact earlier
        · exact absurd (congrArg (i.target out) (List.mem_singleton.mp last)) same
      have apart : (i.target out p).toNat ≠ (i.target out r).toNat := by
        have := bounds r hr
        have := bounds p here
        omega
      rw [Array.getElem?_modify, if_neg apart]
      exact swept.last r earlier fun q hq => most q (List.mem_append_left _ hq)

theorem Swept.step {a : Arena} (swept : Swept i f t axis out input cells old done cur)
    (known : (a.get? b).isSome = true) (data : a.buffer? c = some ⟨.integer t, cells⟩)
    (covered : input.Covers cells) (coversOut : out.Covers old) (holds : ∀ x ∈ cells, t.Holds x) :
    ∃ cur', (i.actAt p).run (a.setCells b t cur) = some (a.setCells b t cur') ∧
      Swept i f t axis out input cells old (done ++ [p]) cur' := by
  have range := range_of_split split List.mem_concat_self
  have here := h.getElem?_axis range
  have nonneg := (range.bounds here).1
  have coversCur : out.Covers cur := by
    intro x hx
    rw [swept.size]
    exact coversOut x hx
  refine ⟨_, h.run_actAt known data covered coversCur holds range here ?_ ?_,
    swept.push h split coversOut⟩
  · intro first
    exact joined_first (first ▸ here) f t input cells
  · intro later
    have notFirst : p[axis]? ≠ some 0 := by
      rw [here]
      exact fun same => later (Option.some.inj same)
    exact ⟨_, swept.before h split notFirst, holds_joined holds f axis input _,
      joined_later here (by omega) f t input cells⟩

end Step

/-- All positions, one after the other. -/
theorem exists_swept {a : Arena} {cells old : Array Int} (h : i.SweepsIntegers f t axis out input b c)
    (known : (a.get? b).isSome = true) (data : a.buffer? c = some ⟨.integer t, cells⟩)
    (covered : input.Covers cells) (coversOut : out.Covers old) (holds : ∀ x ∈ cells, t.Holds x) :
    ∃ new, ((positions input.shape).map i.actAt).prod.run (a.setCells b t old) =
        some (a.setCells b t new) ∧
      Swept i f t axis out input cells old (positions input.shape) new := by
  have rounds : ∀ (rest done : List (List Int)) (cur : Array Int),
      positions input.shape = done ++ rest → Swept i f t axis out input cells old done cur →
      ∃ new, (rest.map i.actAt).prod.run (a.setCells b t cur) = some (a.setCells b t new) ∧
        Swept i f t axis out input cells old (positions input.shape) new := by
    intro rest
    induction rest with
    | nil =>
      intro done cur split swept
      rw [List.append_nil] at split
      exact ⟨cur, rfl, split ▸ swept⟩
    | cons p rest ih =>
      intro done cur split swept
      obtain ⟨cur', run, next⟩ := swept.step h split known data covered coversOut holds
      obtain ⟨new, runs, all⟩ := ih (done ++ [p]) cur' (by rw [split, List.append_cons]) next
      refine ⟨new, ?_, all⟩
      rw [List.map_cons, List.prod_cons, Action.run_mul_of_some run, runs]
  exact rounds _ [] old rfl ⟨rfl, fun _ _ => rfl, nofun⟩

/-! ## The results of a line -/

section Results

variable {cells old new : Array Int} {size : Int} {j : List Int}
  (swept : Swept i f t axis out input cells old (positions input.shape) new)
  (h : i.SweepsIntegers f t axis out input b c) (length : input.shape[axis]? = some size)
  (line : InRange (input.shape.eraseIdx axis) j)

include h line

/-- The indices of the other axes reach up to the axis. -/
theorem axis_le_length : axis ≤ j.length := by
  have axes := input.length_shape
  have inside := h.inside
  rw [line.length_eq, List.length_eraseIdx_of_lt (axes ▸ inside), axes]
  omega

theorem getElem?_insertIdx_axis (x : Int) : (j.insertIdx axis x)[axis]?.getD 0 = x := by
  rw [List.getElem?_insertIdx_self, if_pos (h.axis_le_length line), Option.getD_some]

include swept length

/-- The last position of a line that writes an element leaves its result there. -/
theorem Swept.result {k : Nat} (less : k < size) (most : ∀ q, InRange input.shape q →
      i.target out q = i.target out (j.insertIdx axis k) → q[axis]?.getD 0 ≤ k) :
    new[(i.target out (j.insertIdx axis k)).toNat]? =
      some (joinLine (f.join t) (input.read cells) axis j k) := by
  have range := line.insertIdx length (Int.natCast_nonneg k) less
  have index := h.getElem?_insertIdx_axis line k
  rw [swept.last _ (mem_positions.mpr range) fun q hq same => ?_]
  · rw [joined, index, List.eraseIdx_insertIdx_self, Int.toNat_natCast]
  · rw [index]
    exact most q (mem_positions.mp hq) same

/-- A fold leaves the whole line joined. -/
theorem Swept.read_fold (nonempty : 1 ≤ size) (fold : i.opcode.isReduction = true) :
    out.read new (if out.ndim < input.ndim then j else j.insertIdx axis 0) =
      joinLine (f.join t) (input.read cells) axis j (size - 1).toNat := by
  obtain ⟨k, last⟩ : ∃ k : Nat, size = k + 1 := ⟨(size - 1).toNat, by omega⟩
  have steps : (size - 1).toNat = k := by omega
  have longer : axis ≠ (j.insertIdx axis (k : Int)).length := by
    have inside := h.axis_le_length line
    rw [List.length_insertIdx_of_le_length inside]
    omega
  have set : (j.insertIdx axis (k : Int)).set axis 0 = j.insertIdx axis 0 := by
    rw [← List.insertIdx_eraseIdx_self longer, List.eraseIdx_insertIdx_self]
  have place : i.target out (j.insertIdx axis k) = out.start + offsetAt out.axes
      (if out.ndim < input.ndim then j else j.insertIdx axis 0) := by
    rw [target, h.place_out, fold, if_pos rfl, List.eraseIdx_insertIdx_self, set]
  have most : ∀ q, InRange input.shape q →
      i.target out q = i.target out (j.insertIdx axis k) → q[axis]?.getD 0 ≤ k := by
    intro q hq _
    obtain ⟨-, size', same, less⟩ := hq.bounds (h.getElem?_axis hq)
    obtain rfl : size = size' := Option.some.inj (length.symm.trans same)
    omega
  have element := swept.result h length line (by omega) most
  rw [place] at element
  rw [View.read, element, steps]
  rfl

/-- A scan leaves the line joined up to each index. -/
theorem Swept.read_scan (scan : i.opcode.isReduction = false) {k : Nat} (less : k < size) :
    out.read new (j.insertIdx axis k) = joinLine (f.join t) (input.read cells) axis j k := by
  have range := line.insertIdx length (Int.natCast_nonneg k) less
  have place : i.target out (j.insertIdx axis k) =
      out.start + offsetAt out.axes (j.insertIdx axis k) := by
    rw [target, h.place_out, scan]
    rfl
  have most : ∀ q, InRange input.shape q →
      i.target out q = i.target out (j.insertIdx axis k) → q[axis]?.getD 0 ≤ k := by
    intro q hq same
    rw [(h.line_of_address_eq hq range same).2 scan, h.getElem?_insertIdx_axis line]
  have element := swept.result h length line less most
  rw [place] at element
  rw [View.read, element]
  rfl

end Results

end SweepsIntegers

end Instruction

namespace Statement

variable {s : Statement} {f : Fold} {t : IntType} {axis : Nat} {out input : View} {b c : BaseId}

/-- Folds compute folds, and scans compute scans. The nest of a fold or scan of integers along an
axis leaves, for all indices of the other axes, the elements of the input along the axis joined one
after the other in this order: a fold all of them, a scan at each index those up to the index. Every
step is wrapped into the type. Nothing else changes in the output or in another base. -/
theorem run_sweep (h : s.instr.SweepsIntegers f t axis out input b c) {size : Int}
    (length : input.shape[axis]? = some size) (nonempty : 1 ≤ size) {a : Arena}
    {cells old : Array Int} (dataOut : a.buffer? b = some ⟨.integer t, old⟩)
    (dataIn : a.buffer? c = some ⟨.integer t, cells⟩) (coversOut : out.Covers old)
    (coversIn : input.Covers cells) (holds : ∀ x ∈ cells, t.Holds x) (n m : Nat) :
    ∃ new : Array Int,
      (Fusion.kernel [(Nest.ofStatements 0 [] [s] n).1] m).1.run a = (.ok (), a.setCells b t new) ∧
      new.size = old.size ∧ (∀ x : Nat, (x : Int) ∉ out.addresses → new[x]? = old[x]?) ∧
      ∀ j, InRange (input.shape.eraseIdx axis) j →
        (s.instr.opcode.isReduction = true →
          out.read new (if out.ndim < input.ndim then j else j.insertIdx axis 0) =
            joinLine (f.join t) (input.read cells) axis j (size - 1).toNat) ∧
        (s.instr.opcode.isAccumulate = true → ∀ k : Nat, k < size →
          out.read new (j.insertIdx axis k) =
            joinLine (f.join t) (input.read cells) axis j k) := by
  have known : (a.get? b).isSome = true := by
    rw [Arena.buffer?] at dataOut
    cases found : a.get? b with
    | none => simp [found] at dataOut
    | some base => rfl
  obtain ⟨new, run, swept⟩ := h.exists_swept known dataIn coversIn coversOut holds
  have acts : (Fusion.kernel [(Nest.ofStatements 0 [] [s] n).1] m).1.run.act.run a =
      some (a.setCells b t new) := by
    rw [act_kernel (h.runs s.place) n m, act_eq, h.shape_eq, ← run, Arena.setCells_self dataOut]
  refine ⟨new, Exec.eq_of_run_act acts, swept.size, ?_, ?_⟩
  · intro x other
    apply swept.others
    intro p hp same
    have written := h.target_mem_addresses (mem_positions.mp hp)
    have nonneg := (coversOut _ written).1
    have address : (x : Int) = s.instr.target out p := by omega
    exact other (address ▸ written)
  · intro j line
    constructor
    · exact swept.read_fold h length line nonempty
    · intro scan k less
      rw [h.isAccumulate_eq, Bool.not_eq_true'] at scan
      exact swept.read_scan h length line scan less

/-- The columns of a square of bytes are added. The sum of the first one is wrapped. -/
theorem run_sweep_columns :
    let t : IntType := ⟨true, .w8⟩
    let input : View := { base := some 0, dtype := .integer t, axes := View.rowMajor [2, 2] }
    let out : View := .whole 1 (.integer t) 2
    let s : Statement := .fresh (.sweep (.reduce .add) out input 0)
    let a : Arena := .ofList [.ofBuffer ⟨.integer t, (#[100, 1, 100, 2] : Array Int)⟩,
      .ofBuffer ⟨.integer t, (#[0, 0] : Array Int)⟩]
    ∃ new : Array Int,
      (Fusion.kernel [(Nest.ofStatements 0 [] [s] 0).1] 0).1.run a = (.ok (), a.setCells 1 t new) ∧
      out.read new [0] = -56 ∧ out.read new [1] = 3 := by
  intro t input out s a
  have sweeps : s.instr.SweepsIntegers .add t 0 out input 1 0 := {
    joins := rfl
    operands := ⟨_, rfl, rfl⟩
    along := rfl
    inside := by decide
    views := by decide
    output := rfl
    source := rfl
    apart := by decide
    outType := rfl
    inputType := rfl
    once := by decide
    shape := .inl rfl }
  have covers : out.Covers #[0, 0] ∧ input.Covers #[100, 1, 100, 2] := by
    constructor <;> intro x hx <;> revert x <;> decide
  have dataOut : a.buffer? 1 = some ⟨.integer t, (#[0, 0] : Array Int)⟩ := rfl
  have dataIn : a.buffer? 0 = some ⟨.integer t, (#[100, 1, 100, 2] : Array Int)⟩ := rfl
  have length : input.shape[0]? = some 2 := rfl
  obtain ⟨new, run, -, -, sums⟩ := run_sweep sweeps length (by decide) dataOut dataIn
    covers.1 covers.2 (by decide) 0 0
  have first := (sums [0] (mem_positions.mp (by decide))).1 rfl
  have second := (sums [1] (mem_positions.mp (by decide))).1 rfl
  exact ⟨new, run, first.trans (by decide), second.trans (by decide)⟩

end Statement

end ArrayFusion
