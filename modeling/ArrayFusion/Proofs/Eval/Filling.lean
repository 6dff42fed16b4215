import ArrayFusion.Proofs.Eval.Elementwise
import ArrayFusion.Proofs.Eval.Sweep

/-!
# Filling an array of integers

An elementwise instruction runs through its positions in row-major order and writes the element of
its output at each of them. The invariant of the run: the elements at the positions done so far hold
their values, and all other elements are as they were. An input keeps what is still to be read of it
if it is the output itself or has no element in common with it. The run ends early at the first
position that has a fault for a value, and nothing is written there.
-/

namespace ArrayFusion

open Shape View

/-- Address of the element at a position. -/
def View.address (v : View) (p : List Int) : Int := v.start + offsetAt v.axes p

theorem View.read_eq (v : View) (cells : Array Int) (p : List Int) :
    v.read cells p = (cells[(v.address p).toNat]?).getD 0 := rfl

theorem View.covers_whole (b : BaseId) (t : DType) {n : Nat} {cells : Array Int}
    (size : cells.size = n) : (whole b t n).Covers cells := by
  intro x hx
  rw [mem_addresses (by simp [whole])] at hx
  obtain ⟨p, range, rfl⟩ := hx
  cases range with
  | @cons _ k _ _ inside tail =>
    cases tail
    have bounds : 0 ≤ k ∧ k < (n : Int) := inside
    simp [whole, offsetAt]
    omega

namespace Instruction

variable {i : Instruction} {t : IntType} {out v : View} {b c : BaseId} {a : Arena} {ts ts' : Turns}
  {p q : List Int} {k : Nat} {cells old cur : Array Int}

/-- What an elementwise instruction does depends on the position of the loops only. -/
theorem step_eq_of_at (elementwise : i.opcode.isElementwise = true) (at_p : ts.At p)
    (at_p' : ts'.At p) (length : p.length = i.ndim) : i.step ts' = i.step ts := by
  have offsets : ∀ k, i.offset ts' k = i.offset ts k := offset_congr at_p at_p' length
  have number : i.flatIndex ts' = i.flatIndex ts := by
    rw [flatIndex_eq at_p length, flatIndex_eq at_p' length]
  have loads : ∀ a k, i.loadAt a ts' k = i.loadAt a ts k := by
    intro a k
    rw [loadAt, loadAt, offsets]
  have value : ∀ a, i.elementValue a ts' = i.elementValue a ts := by
    intro a
    simp only [elementValue, loads]
  funext a
  have effect : i.effect? a ts' = i.effect? a ts := by
    rw [effect?, effect?]
    cases op : i.opcode <;> rw [op] at elementwise <;> try contradiction
    all_goals simp only [offsets, number, value]
  rw [step, step, effect]

/-- An elementwise instruction that can be evaluated and that writes an array of integers. -/
structure FillsIntegers (i : Instruction) (t : IntType) (out : View) (b : BaseId) : Prop where
  pointwise : i.Pointwise
  evaluable : i.isEvaluable = true
  operand_zero : i.operands[0]? = some out
  output : out.base = some b
  outType : out.dtype = .integer t

/-- Inputs on the base of the output are the output itself or have no element in common with it. -/
def KeepsInputs (i : Instruction) (out : View) : Prop :=
  ∀ v ∈ i.operands, v.base = out.base →
    v.sameAccess out = true ∨ ∀ x ∈ v.addresses, x ∉ out.addresses

instance (i : Instruction) (out : View) : Decidable (i.KeepsInputs out) :=
  inferInstanceAs (Decidable (∀ v ∈ i.operands, v.base = out.base →
    v.sameAccess out = true ∨ ∀ x ∈ v.addresses, x ∉ out.addresses))

/-- Elements of a base after the elements at some positions got their values. -/
structure Filled (out : View) (values : List Int → Except Fault Int) (old : Array Int)
    (done : List (List Int)) (cur : Array Int) : Prop where
  size : cur.size = old.size
  others : ∀ x : Nat, (∀ p ∈ done, out.address p ≠ x) → cur[x]? = old[x]?
  stored : ∀ p ∈ done, values p = .ok (out.read cur p)

theorem Filled.covers {values : List Int → Except Fault Int} {done : List (List Int)}
    (filled : Filled out values old done cur) (covered : out.Covers old) : out.Covers cur := by
  intro x hx
  rw [filled.size]
  exact covered x hx

/-- A run ends well when nothing is left to do, and else with the fault at the next position. -/
inductive Ends (values : List Int → Except Fault Int) :
    List (List Int) → Except Fault Unit → Prop
  | done : Ends values [] (.ok ())
  | stopped {p : List Int} {e : Fault} (rest : List (List Int)) (fault : values p = .error e) :
      Ends values (p :: rest) (.error e)

/-- The positions done are those before the first one that is not good. -/
theorem Ends.splits {values : List Int → Except Fault Int} {done rest : List (List Int)}
    {r : Except Fault Unit} (ends : Ends values rest r) {good : List Int → Bool}
    (stored : ∀ p ∈ done, good p = true) (fault : ∀ p e, values p = .error e → good p = false) :
    (done ++ rest).takeWhile good = done ∧ (done ++ rest).dropWhile good = rest := by
  rw [List.takeWhile_append_of_pos stored, List.dropWhile_append_of_pos stored]
  cases ends with
  | done => simp
  | stopped rest value => simp [fault _ _ value]

namespace FillsIntegers

section Step

variable (h : i.FillsIntegers t out b)

include h

theorem shape_eq : out.shape = i.shape :=
  h.pointwise.whole out (List.mem_of_getElem? h.operand_zero) (View.isConstant_of_base h.output)

theorem offset_eq (at_p : ts.At p) (range : InRange i.shape p) : i.offset ts 0 = out.address p := by
  rw [offset_congr (i.standsAt_turns p).at_p at_p range.length_eq 0]
  exact h.pointwise.offset_eq range h.operand_zero (View.isConstant_of_base h.output)

theorem address_mem (range : InRange i.shape p) : out.address p ∈ out.addresses := by
  rw [← h.offset_eq (i.standsAt_turns p).at_p range]
  exact h.pointwise.offset_mem_addresses range h.operand_zero (View.isConstant_of_base h.output)

/-- Different positions are different elements, if the output has every address once. -/
theorem eq_of_address_eq (once : out.addresses.Nodup) (hp : InRange i.shape p)
    (hq : InRange i.shape q) (same : out.address p = out.address q) : p = q := by
  have sizes := (h.pointwise.views out (List.mem_of_getElem? h.operand_zero)).sizes
  rw [addresses_eq sizes, h.shape_eq] at once
  exact List.inj_on_of_nodup_map once (mem_positions.mpr hp) (mem_positions.mpr hq) same

theorem writeTo_eq (x : Scalar) {n : Int} (nonneg : 0 ≤ n) :
    i.writeTo n x = .ok ⟨b, n.toNat, x⟩ := by
  have base : i.outputBase? = some b := by
    rw [outputBase?, List.head?_eq_getElem?, h.operand_zero]
    exact h.output
  rw [writeTo, base]
  exact if_neg (Int.not_lt.mpr nonneg)

/-- What an instruction computes is narrowed and written to the element at the position. -/
theorem step_eq (data : a.buffer? b = some ⟨.integer t, cells⟩) (covered : out.Covers cells)
    (at_p : ts.At p) (range : InRange i.shape p) {computed : Except Fault Scalar}
    {value : Except Fault Int}
    (effect : i.effect? a ts = do return some (← i.writeTo (i.offset ts 0) (← computed)))
    (stored : ∀ e : Int, computed.map (·.store (.integer t) e) = value) :
    i.step ts a =
      value.map fun x => a.setCells b t (cells.modify (out.address p).toNat fun _ => x) := by
  rw [step, effect]
  cases computed with
  | error e =>
    rw [← stored 0]
    rfl
  | ok x =>
    obtain ⟨nonneg, inside⟩ := covered _ (h.address_mem range)
    obtain ⟨n, rfl⟩ : ∃ n, value = .ok n := ⟨_, (stored 0).symm⟩
    have room : (out.address p).toNat < cells.size := by omega
    have written := Arena.run_act_setCells (w := ⟨b, (out.address p).toNat, x⟩)
      (Arena.isSome_of_buffer? data) room fun e => Except.ok.inj (stored e)
    rw [Arena.setCells_self data] at written
    rw [h.offset_eq at_p range]
    change ((i.writeTo (out.address p) x).bind fun w => Except.ok (some w)).bind _ = _
    rw [h.writeTo_eq x nonneg]
    exact ok_of_toOption written

end Step

end FillsIntegers

/-! ## Inputs -/

/-- An operand is an array of integers or a constant. What it supplies is its element at a
position. -/
inductive Supplies (i : Instruction) (a : Arena) (t : IntType) (k : Nat) : (List Int → Int) → Prop
  | array {v : View} {c : BaseId} {cells : Array Int} (operand : i.operands[k]? = some v)
      (base : v.base = some c) (dtype : v.dtype = .integer t)
      (data : a.buffer? c = some ⟨.integer t, cells⟩) (covered : v.Covers cells)
      (holds : ∀ x ∈ cells, t.Holds x) : Supplies i a t k (v.read cells)
  | constant {v : View} {x : Int} (operand : i.operands[k]? = some v) (base : v.base = none)
      (value : i.constant = some (.integer t x)) (holds : t.Holds x) : Supplies i a t k fun _ => x

namespace Supplies

variable {read : List Int → Int}

theorem operandType? (supplied : i.Supplies a t k read) (notSweep : i.opcode.isSweep = false) :
    i.operandType? k = some (.integer t) := by
  cases supplied with
  | array operand base dtype =>
    rw [Instruction.operandType?, operand, Option.map_some, base, dtype]
  | constant operand base value =>
    rw [Instruction.operandType?, operand, Option.map_some, base, value, notSweep]
    rfl

/-- What an operand supplies is loaded from every arena that has the same element there. -/
theorem loadAt_of_same {a' : Arena} (supplied : i.Supplies a t k read) (pointwise : i.Pointwise)
    (at_p : ts.At p) (range : InRange i.shape p)
    (same : ∀ v c cells, i.operands[k]? = some v → v.base = some c →
      a.buffer? c = some ⟨.integer t, cells⟩ → 0 ≤ v.address p →
        ∃ cells', a'.buffer? c = some ⟨.integer t, cells'⟩ ∧
          cells'[(v.address p).toNat]? = cells[(v.address p).toNat]?) :
    i.loadAt a' ts k = .ok (t.scalar (read p)) ∧ t.Holds (read p) := by
  cases supplied with
  | @array v c cells operand base dtype data covered holds =>
    have array := View.isConstant_of_base base
    have at_q := (i.standsAt_turns p).at_p
    have offset := pointwise.offset_eq range operand array
    have member := pointwise.offset_mem_addresses range operand array
    rw [offset_congr at_p at_q range.length_eq k] at offset member
    rw [offset] at member
    obtain ⟨nonneg, inside⟩ := covered _ member
    have element : cells[(v.address p).toNat]? = some (v.read cells p) := by
      rw [View.read_eq, View.address, Array.getElem?_eq_getElem (by omega)]
      rfl
    have held : t.Holds (v.read cells p) := holds _ (Array.mem_of_getElem? element)
    obtain ⟨cells', data', element'⟩ := same v c cells operand base data nonneg
    refine ⟨?_, held⟩
    rw [loadAt, offset]
    exact load_eq_scalar operand base data' nonneg (element'.trans element) held
  | @constant v x operand base value holds =>
    refine ⟨?_, holds⟩
    rw [loadAt, load, operand]
    simp only [base, value, pointwise.isSweep]
    exact congrArg Except.ok (IntType.ofConstant_eq_scalar holds)

/-- What an operand supplies is what is loaded. -/
theorem loadAt_eq (supplied : i.Supplies a t k read) (pointwise : i.Pointwise) (at_p : ts.At p)
    (range : InRange i.shape p) :
    i.loadAt a ts k = .ok (t.scalar (read p)) ∧ t.Holds (read p) :=
  supplied.loadAt_of_same pointwise at_p range fun _ _ cells _ _ data _ => ⟨cells, data, rfl⟩

end Supplies

/-! ## All positions, one after the other -/

section Run

variable {values : List Int → Except Fault Int} {done rest : List (List Int)}

theorem range_of_positions {shape : List Int} (split : positions shape = done ++ rest)
    (hq : q ∈ done) : InRange shape q :=
  mem_positions.mp (split ▸ List.mem_append_left rest hq)

namespace FillsIntegers

variable (h : i.FillsIntegers t out b) (once : out.addresses.Nodup)

include h once

/-- The elements at the positions still to be done are none of those written so far. -/
theorem address_ne (split : positions i.shape = done ++ rest) (hp : p ∈ rest) :
    ∀ q ∈ done, out.address q ≠ out.address p := by
  intro q hq same
  have here : p ∈ positions i.shape := split ▸ List.mem_append_right done hp
  have equal := h.eq_of_address_eq once (range_of_positions split hq) (mem_positions.mp here) same
  have apart := split ▸ nodup_positions i.shape
  exact (List.nodup_append.mp apart).2.2 q hq p hp equal

/-- The elements at these positions are as before. -/
theorem read_eq (covered : out.Covers old) (split : positions i.shape = done ++ rest)
    (filled : Filled out values old done cur) (hp : p ∈ rest) :
    out.read cur p = out.read old p := by
  have here : p ∈ positions i.shape := split ▸ List.mem_append_right done hp
  have nonneg := (covered _ (h.address_mem (mem_positions.mp here))).1
  rw [View.read_eq, View.read_eq, filled.others _ fun q hq same => ?_]
  exact h.address_ne once split hp q hq (by omega)

/-- The elements with the one at the next position. -/
theorem push (covered : out.Covers old) (split : positions i.shape = done ++ p :: rest)
    (filled : Filled out values old done cur) {x : Int} (value : values p = .ok x) :
    Filled out values old (done ++ [p]) (cur.modify (out.address p).toNat fun _ => x) := by
  have here : InRange i.shape p := mem_positions.mp (split ▸ by simp)
  have bounds : ∀ q, InRange i.shape q → 0 ≤ out.address q ∧ out.address q < cur.size :=
    fun q hq => filled.covers covered _ (h.address_mem hq)
  constructor
  case size => rw [Array.size_modify, filled.size]
  case others =>
    intro y apart
    have other : (out.address p).toNat ≠ y := by
      have := apart p List.mem_concat_self
      have := bounds p here
      omega
    rw [Array.getElem?_modify, if_neg other]
    exact filled.others y fun q hq => apart q (List.mem_append_left _ hq)
  case stored =>
    intro q hq
    rw [View.read_eq, Array.getElem?_modify]
    obtain earlier | last := List.mem_append.mp hq
    · have apart := h.address_ne once split List.mem_cons_self q earlier
      have := bounds q (range_of_positions split earlier)
      have := bounds p here
      rw [if_neg (by omega)]
      exact filled.stored q earlier
    · obtain rfl := List.mem_singleton.mp last
      have := bounds q here
      rw [if_pos rfl, Array.getElem?_eq_getElem (by omega)]
      exact value

omit once in
/-- Elements that are not in the output are as before. -/
theorem outside (split : positions i.shape = done ++ rest) (filled : Filled out values old done cur)
    (n : Nat) (apart : (n : Int) ∉ out.addresses) : cur[n]? = old[n]? := by
  refine filled.others n fun p hp same => apart ?_
  exact same ▸ h.address_mem (range_of_positions split hp)

omit h once in
/-- A run without faults gives all elements of the output their values. -/
theorem read_of_ends {value : List Int → Int} {r : Except Fault Unit}
    (split : positions i.shape = done ++ rest)
    (filled : Filled out (fun p => .ok (value p)) old done cur)
    (ends : Ends (fun p => .ok (value p)) rest r) :
    r = .ok () ∧ ∀ p, InRange i.shape p → out.read cur p = value p := by
  cases ends with
  | stopped rest fault => contradiction
  | done =>
    rw [List.append_nil] at split
    refine ⟨rfl, fun p range => ?_⟩
    exact (Except.ok.inj (filled.stored p (split ▸ mem_positions.mpr range))).symm

/-- What is supplied at the next position has not been overwritten. -/
theorem loadAt_setCells {read : List Int → Int} (keeps : i.KeepsInputs out)
    (data : a.buffer? b = some ⟨.integer t, old⟩) (covered : out.Covers old)
    (split : positions i.shape = done ++ p :: rest) (filled : Filled out values old done cur)
    (supplied : i.Supplies a t k read) (at_p : ts.At p) :
    (i.loadAt (a.setCells b t cur) ts k) = .ok (t.scalar (read p)) ∧ t.Holds (read p) := by
  have here : InRange i.shape p := mem_positions.mp (split ▸ by simp)
  refine supplied.loadAt_of_same h.pointwise at_p here fun v c cells operand base found nonneg => ?_
  rw [Arena.buffer?_setCells (Arena.isSome_of_buffer? data)]
  by_cases same : b = c
  swap
  · exact ⟨cells, by rw [if_neg same, found], rfl⟩
  subst same
  obtain rfl : old = cells := by
    rw [data] at found
    cases found
    rfl
  refine ⟨cur, if_pos rfl, filled.others _ fun q hq place => ?_⟩
  have range := range_of_positions split hq
  have array := View.isConstant_of_base base
  have written := h.address_mem range
  have first := (covered _ written).1
  have read := h.pointwise.offset_mem_addresses here operand array
  rw [h.pointwise.offset_eq here operand array] at read
  obtain shared | apart := keeps v (List.mem_of_getElem? operand) (base.trans h.output.symm)
  · obtain ⟨-, start, axes⟩ := View.sameAccess_iff.mp shared
    have element : v.address p = out.address p := by rw [View.address, View.address, start, axes]
    exact h.address_ne once split List.mem_cons_self q hq (by omega)
  · have element : v.address p = out.address q := by omega
    exact apart (v.address p) read (element ▸ written)

/-- All positions, one after the other. -/
theorem exists_filled (values : List Int → Except Fault Int)
    (data : a.buffer? b = some ⟨.integer t, old⟩) (covered : out.Covers old)
    (steps : ∀ done p rest cur, positions i.shape = done ++ p :: rest →
      Filled out values old done cur → ∀ a', a' = a.setCells b t cur →
      a'.buffer? b = some ⟨.integer t, cur⟩ → out.Covers cur → InRange i.shape p →
      i.step (i.turns p) a' =
        (values p).map fun x => a'.setCells b t (cur.modify (out.address p).toNat fun _ => x)) :
    ∃ done rest new r, positions i.shape = done ++ rest ∧ Filled out values old done new ∧
      Ends values rest r ∧
      ((positions i.shape).forM fun p => Exec.change (i.step (i.turns p))) a =
        (r, a.setCells b t new) := by
  have rounds : ∀ (rest done : List (List Int)) (cur : Array Int),
      positions i.shape = done ++ rest → Filled out values old done cur →
      ∃ done' rest' new r, positions i.shape = done' ++ rest' ∧ Filled out values old done' new ∧
        Ends values rest' r ∧
        (rest.forM fun p => Exec.change (i.step (i.turns p))) (a.setCells b t cur) =
          (r, a.setCells b t new) := by
    intro rest
    induction rest with
    | nil =>
      intro done cur split filled
      exact ⟨done, [], cur, _, split, filled, .done, rfl⟩
    | cons p rest ih =>
      intro done cur split filled
      have known : (a.setCells b t cur).buffer? b = some ⟨.integer t, cur⟩ := by
        rw [Arena.buffer?_setCells (Arena.isSome_of_buffer? data), if_pos rfl]
      have step := steps done p rest cur split filled _ rfl known (filled.covers covered)
        (mem_positions.mp (split ▸ by simp))
      simp only [Arena.setCells_setCells] at step
      have run : ((p :: rest).forM fun p => Exec.change (i.step (i.turns p))) (a.setCells b t cur) =
          (Exec.change (i.step (i.turns p)) >>= fun _ =>
            rest.forM fun p => Exec.change (i.step (i.turns p))) (a.setCells b t cur) := rfl
      rw [run, Exec.run_bind, Exec.run_change, step]
      cases value : values p with
      | error e => exact ⟨done, p :: rest, cur, _, split, filled, .stopped rest value, rfl⟩
      | ok x =>
        exact ih (done ++ [p]) _ (by rw [split, List.append_cons])
          (h.push once covered split filled value)
  obtain ⟨done, rest, new, r, split, filled, ends, run⟩ :=
    rounds _ [] old rfl ⟨rfl, fun _ _ => rfl, nofun⟩
  rw [Arena.setCells_self data] at run
  exact ⟨done, rest, new, r, split, filled, ends, run⟩

end FillsIntegers

end Run

/-! ## Operations on two inputs -/

/-- What an operation on two numbers of a type computes is stored as a number of the type, or is a
fault. -/
def Stores (op : Binary) (t : IntType) (value : Int → Int → Except Fault Int) : Prop :=
  ∀ x y, t.Holds x → t.Holds y → ∃ computed : Except Fault Scalar,
    Scalar.binary op (.integer t) (t.scalar x) (t.scalar y) = computed.map some ∧
      ∀ e : Int, computed.map (·.store (.integer t) e) = value x y

/-- Operations are computed with 64 bit words and narrowed afterwards. -/
theorem stores_of_words {op : Binary} {value : Int → Int → Except Fault Int}
    (numeric : op ≠ .logicalAnd ∧ op ≠ .logicalOr ∧ op ≠ .logicalXor)
    (plain : ∀ x y, Integer.compare? op x y = none)
    (words : ∀ x y, t.Holds x → t.Holds y → ∃ word : Except Fault Int,
      Integer.binary op ⟨t.signed, .w64⟩ x y =
        word.map (fun z => some (IntType.wrap ⟨t.signed, .w64⟩ z)) ∧
      word.map t.wrap = value x y) : Stores op t value := by
  intro x y hx hy
  obtain ⟨word, computed, stored⟩ := words x y hx hy
  refine ⟨word.map fun z => IntType.scalar ⟨t.signed, .w64⟩ (IntType.wrap ⟨t.signed, .w64⟩ z), ?_,
    fun e => ?_⟩
  · rw [Scalar.binary_scalar numeric (plain x y), computed]
    cases word <;> rfl
  · rw [← stored]
    cases word with
    | error e => rfl
    | ok z => exact congrArg Except.ok (t.store_wrap z e)

/-- An operation on two inputs that writes an array. All operands are of one integer type. -/
structure CombinesIntegers (i : Instruction) (op : Binary) (t : IntType) (out left right : View)
    (b : BaseId) : Prop where
  opcode : i.opcode = .binary op
  operands : i.operands = [out, left, right]
  views : i.WellFormed
  whole : ∀ v ∈ i.operands, v.isConstant = false → v.shape = i.shape
  types : ∀ v ∈ i.operands, v.isConstant = false → v.dtype = .integer t
  output : out.base = some b

namespace CombinesIntegers

variable {op : Binary} {left right : View} {value : Int → Int → Except Fault Int}
  {x y : List Int → Int}

theorem fills (h : i.CombinesIntegers op t out left right b) : i.FillsIntegers t out b where
  pointwise := {
    elementwise := by rw [h.opcode]; rfl
    views := h.views
    whole := h.whole }
  evaluable := by
    have types : i.operands.all (fun v => v.isConstant || v.dtype.isEvaluable) = true := by
      refine List.all_eq_true.mpr fun v hv => ?_
      cases array : v.isConstant with
      | true => rfl
      | false => rw [h.types v hv array]; rfl
    rw [isEvaluable, types, h.opcode, h.operands]
    rfl
  operand_zero := by rw [h.operands]; rfl
  output := h.output
  outType := h.types out (by rw [h.operands]; simp) (View.isConstant_of_base h.output)

/-- What is loaded is combined. -/
theorem step_eq (h : i.CombinesIntegers op t out left right b) (stores : Stores op t value)
    (data : a.buffer? b = some ⟨.integer t, cells⟩) (covered : out.Covers cells) (at_p : ts.At p)
    (range : InRange i.shape p) (type : i.operandType? 1 = some (.integer t)) {m n : Int}
    (first : i.loadAt a ts 1 = .ok (t.scalar m) ∧ t.Holds m)
    (second : i.loadAt a ts 2 = .ok (t.scalar n) ∧ t.Holds n) :
    i.step ts a = (value m n).map fun z =>
      a.setCells b t (cells.modify (out.address p).toNat fun _ => z) := by
  obtain ⟨computed, combined, stored⟩ := stores m n first.2 second.2
  refine h.fills.step_eq data covered at_p range ?_ stored
  have element : i.elementValue a ts = computed := by
    have three : i.operands.length ≠ 2 := by simp [h.operands]
    rw [elementValue, if_neg three, first.1, second.1, h.opcode, inType, type]
    change (Scalar.binary op (.integer t) (t.scalar m) (t.scalar n)).bind _ = _
    rw [combined]
    cases computed <;> rfl
  have notSystem : i.opcode.isSystem = false := by rw [h.opcode]; rfl
  rw [effect?, notSystem, h.fills.evaluable, h.opcode]
  simp only [element]
  rfl

/-- What both inputs supply is combined. -/
theorem step_of_supplies (h : i.CombinesIntegers op t out left right b) (stores : Stores op t value)
    (first : i.Supplies a t 1 x) (second : i.Supplies a t 2 y)
    (data : a.buffer? b = some ⟨.integer t, cells⟩) (covered : out.Covers cells) (at_p : ts.At p)
    (range : InRange i.shape p) : i.step ts a = (value (x p) (y p)).map fun z =>
      a.setCells b t (cells.modify (out.address p).toNat fun _ => z) :=
  h.step_eq stores data covered at_p range (first.operandType? h.fills.pointwise.isSweep)
    (first.loadAt_eq h.fills.pointwise at_p range) (second.loadAt_eq h.fills.pointwise at_p range)

end CombinesIntegers

end Instruction

namespace Statement

/-- The kernel of a statement that is run alone. -/
def alone (s : Statement) (n m : Nat) : Nest :=
  (Fusion.kernel [(Nest.ofStatements 0 [] [s] n).1] m).1

variable {s : Statement}

/-- The kernel of an elementwise statement alone runs it at its positions in row-major order. -/
theorem run_kernel_positions (computes : s.Computes)
    (elementwise : s.instr.opcode.isElementwise = true) (n m : Nat) :
    (s.alone n m).run =
      (positions s.instr.shape).forM fun p => Exec.change (s.instr.step (s.instr.turns p)) := by
  obtain ⟨l, layout, single, run⟩ := exists_loop_of_kernel computes n m
  have inside : s.instr.SweepsInside := by
    intro axis along
    have sweep := Instruction.isSweep_of_sweepAxis? along
    rw [Instruction.not_isSweep_of_isElementwise elementwise] at sweep
    contradiction
  have visits := map_visits (f := Visit.run) layout single inside
    (g := fun p => Exec.change (s.instr.step (s.instr.turns p))) fun path us p stands length =>
      congrArg Exec.change (s.instr.step_eq_of_at elementwise
        (s.instr.standsAt_turns p).at_p stands.at_p length)
  have mapped : ∀ {α : Type} (xs : List α) (f : α → Exec Unit),
      xs.forM f = (xs.map f).forM id := by
    intro α xs f
    simp only [List.forM_eq_forM, List.forM_map, id]
  rw [alone, run, mapped, visits, ← mapped]

/-- The kernel of an operation on two inputs fills the output with what they supply, combined. -/
theorem run_combines {t : IntType} {op : Binary} {out left right : View} {b : BaseId} {a : Arena}
    {old : Array Int} {value : Int → Int → Except Fault Int} {x y : List Int → Int}
    (h : s.instr.CombinesIntegers op t out left right b) (stores : Instruction.Stores op t value)
    (once : out.addresses.Nodup) (keeps : s.instr.KeepsInputs out)
    (first : s.instr.Supplies a t 1 x) (second : s.instr.Supplies a t 2 y)
    (data : a.buffer? b = some ⟨.integer t, old⟩) (covered : out.Covers old) (n m : Nat) :
    ∃ done rest new r, positions s.instr.shape = done ++ rest ∧
      Instruction.Filled out (fun p => value (x p) (y p)) old done new ∧
      Instruction.Ends (fun p => value (x p) (y p)) rest r ∧
      (s.alone n m).run a = (r, a.setCells b t new) := by
  have elementwise := h.fills.pointwise.elementwise
  have computes : s.Computes := ⟨Instruction.not_isSystem_of_isElementwise elementwise, h.views⟩
  rw [run_kernel_positions computes elementwise n m]
  refine h.fills.exists_filled once _ data covered ?_
  rintro done p rest cur split filled _ rfl known covers range
  have at_p := (s.instr.standsAt_turns p).at_p
  exact h.step_eq stores known covers at_p range (first.operandType? h.fills.pointwise.isSweep)
    (h.fills.loadAt_setCells once keeps data covered split filled first at_p)
    (h.fills.loadAt_setCells once keeps data covered split filled second at_p)

/-- A statement that writes a number at every position, whatever it finds, fills its output. -/
theorem run_fills {t : IntType} {out : View} {b : BaseId} {a : Arena} {old : Array Int}
    {value : List Int → Int} (h : s.instr.FillsIntegers t out b) (once : out.addresses.Nodup)
    (data : a.buffer? b = some ⟨.integer t, old⟩) (covered : out.Covers old)
    (steps : ∀ (a : Arena) (cells : Array Int) (p : List Int), InRange s.instr.shape p →
      a.buffer? b = some ⟨.integer t, cells⟩ → out.Covers cells →
      s.instr.step (s.instr.turns p) a =
        .ok (a.setCells b t (cells.modify (out.address p).toNat fun _ => value p)))
    (n m : Nat) :
    ∃ new, (s.alone n m).run a = (.ok (), a.setCells b t new) ∧
      (∀ p, InRange s.instr.shape p → out.read new p = value p) ∧
      ∀ k : Nat, (k : Int) ∉ out.addresses → new[k]? = old[k]? := by
  have elementwise := h.pointwise.elementwise
  have computes : s.Computes :=
    ⟨Instruction.not_isSystem_of_isElementwise elementwise, h.pointwise.views⟩
  obtain ⟨done, rest, new, r, split, filled, ends, run⟩ := h.exists_filled once
    (fun p => .ok (value p)) data covered
    fun done p rest cur split filled a' same known covers range => steps a' cur p range known covers
  obtain ⟨rfl, stored⟩ := Instruction.FillsIntegers.read_of_ends split filled ends
  rw [run_kernel_positions computes elementwise n m]
  exact ⟨new, run, stored, h.outside split filled⟩

/-- The kernel of a range alone fills the output with the numbers of its positions, wrapped into the
type. -/
theorem run_fills_range {t : IntType} {out : View} {b : BaseId} {a : Arena} {old : Array Int}
    (h : s.instr.FillsIntegers t out b) (range : s.instr.opcode = .range)
    (once : out.addresses.Nodup) (data : a.buffer? b = some ⟨.integer t, old⟩)
    (covered : out.Covers old) (n m : Nat) :
    ∃ new, (s.alone n m).run a = (.ok (), a.setCells b t new) ∧
      (∀ p, InRange s.instr.shape p → out.read new p = t.wrap (Shape.number s.instr.shape p)) ∧
      ∀ k : Nat, (k : Int) ∉ out.addresses → new[k]? = old[k]? := by
  refine run_fills h once data covered (fun a cells p inside known covers => ?_) n m
  have at_p := (s.instr.standsAt_turns p).at_p
  have notSystem : s.instr.opcode.isSystem = false := by rw [range]; rfl
  have effect : s.instr.effect? a (s.instr.turns p) = do
      return some (← s.instr.writeTo (s.instr.offset (s.instr.turns p) 0)
        (← Except.ok (.signed (Shape.number s.instr.shape p)))) := by
    rw [Instruction.effect?, notSystem, h.evaluable, range,
      ← Instruction.flatIndex_eq at_p inside.length_eq]
    rfl
  exact h.step_eq known covers at_p inside effect fun e => congrArg Except.ok (t.store_signed _ e)

end Statement

end ArrayFusion
