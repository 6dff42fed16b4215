import ArrayFusion.Proofs.Eval.Action

/-!
# What a statement touches

Where the loops stand, an instruction reads and writes single elements, apart from an operand that
is addressed by values, which may be any element of its base. What the instruction computes depends
on nothing but the elements it touches, so two instructions commute if neither writes what the other
one touches.
-/

namespace ArrayFusion

/-! ## Elements of an arena -/

namespace Arena

/-- Value of an element, if its base is allocated and has it. -/
def value? (a : Arena) (b : BaseId) (x : Int) : Option Scalar :=
  (a.buffer? b).bind fun buffer =>
    (if x < 0 then none else buffer.cells[x.toNat]?).map (Scalar.ofElem buffer.dtype)

/-- Number of elements of a base, if it is allocated. -/
def size? (a : Arena) (b : BaseId) : Option Nat := (a.buffer? b).map (·.size)

theorem buffer?_mapBases (a : Arena) (f : BaseId → Base → Base) (b : BaseId) :
    (a.mapBases f).buffer? b = (a.get? b).bind fun base => (f b base).data := by
  rw [buffer?, get?_mapBases]
  cases a.get? b <;> rfl

/-- A change that leaves a base alone leaves its data alone. -/
theorem buffer?_mapBases_of_id {f : BaseId → Base → Base} {b : BaseId}
    (h : ∀ base, f b base = base) (a : Arena) : (a.mapBases f).buffer? b = a.buffer? b := by
  rw [buffer?_mapBases, buffer?]
  simp only [h]

end Arena

theorem Buffer.size_change (buffer : Buffer) (i : Nat) (f : (t : DType) → t.Elem → t.Elem) :
    (buffer.change i f).size = buffer.size := by
  simp [Buffer.change, Buffer.size]

/-- Changes of two elements do not depend on their order. -/
theorem Buffer.change_comm (buffer : Buffer) {i j : Nat} (h : i ≠ j)
    (f g : (t : DType) → t.Elem → t.Elem) :
    (buffer.change i f).change j g = (buffer.change j g).change i f := by
  obtain ⟨t, cells⟩ := buffer
  simp only [Buffer.change, Buffer.mk.injEq, heq_eq_eq, true_and]
  refine Array.ext_getElem? fun k => ?_
  simp only [Array.getElem?_modify]
  grind

/-- An element that is stored does not depend on what was stored there before. -/
theorem Scalar.store_store (s s' : Scalar) (t : DType) (x : t.Elem) :
    s.store t (s'.store t x) = s.store t x := by
  cases t with
  | random =>
      obtain ⟨start, key⟩ := x
      cases s <;> cases s' <;> rfl
  | _ => cases s <;> rfl

/-- Of two changes that store at one element the second one counts. -/
theorem Buffer.change_store (buffer : Buffer) (i : Nat) (s s' : Scalar) :
    (buffer.change i s'.store).change i s.store = buffer.change i s.store := by
  obtain ⟨t, cells⟩ := buffer
  simp only [Buffer.change, Buffer.mk.injEq, heq_eq_eq, true_and]
  refine Array.ext_getElem? fun k => ?_
  simp only [Array.getElem?_modify]
  split
  · cases cells[k]? <;> simp [Scalar.store_store]
  · rfl

namespace Write

/-- How a write changes the bases. -/
def onBases (w : Write) (b : BaseId) (base : Base) : Base :=
  if b = w.base then { base with data := base.data.map (·.change w.position w.value.store) }
  else base

def act (w : Write) : Action := ⟨fun a => (w.run a).toOption⟩

/-- The element exists in the arena. -/
def fits (w : Write) (a : Arena) : Bool := (a.size? w.base).any (w.position < ·)

theorem run_act (w : Write) (a : Arena) :
    w.act.run a = if w.fits a then some (a.mapBases w.onBases) else none := by
  have changed : a.modify w.base (fun base =>
      { base with data := base.data.map (·.change w.position w.value.store) }) =
      a.mapBases w.onBases := Arena.modify_eq_mapBases ..
  have unfolded : w.act.run a = (a.update w.base w.position w.value.store).toOption := rfl
  rw [unfolded, Arena.update, fits, Arena.size?, changed]
  cases a.buffer? w.base with
  | none => rfl
  | some buffer =>
      by_cases inside : w.position < buffer.size
      · simp [inside, Except.toOption]
      · simp [inside, Except.toOption]

theorem size?_mapBases (w : Write) (a : Arena) (b : BaseId) :
    (a.mapBases w.onBases).size? b = a.size? b := by
  rw [Arena.size?, Arena.buffer?_mapBases, Arena.size?, Arena.buffer?]
  cases a.get? b with
  | none => rfl
  | some base =>
      simp only [Option.bind_some, onBases]
      split
      · cases base.data <;> simp [Buffer.size_change]
      · rfl

/-- A write changes no other element. -/
theorem value?_mapBases (w : Write) (a : Arena) {b : BaseId} {x : Int}
    (other : b = w.base → x ≠ w.position) : (a.mapBases w.onBases).value? b x = a.value? b x := by
  rw [Arena.value?, Arena.buffer?_mapBases, Arena.value?, Arena.buffer?]
  cases a.get? b with
  | none => rfl
  | some base =>
      simp only [Option.bind_some, onBases]
      split
      next same =>
        cases base.data with
        | none => rfl
        | some buffer =>
            obtain ⟨t, cells⟩ := buffer
            simp only [Option.map_some, Option.bind_some, Buffer.change]
            split
            · rfl
            next nonneg =>
              rw [Array.getElem?_modify, if_neg (by have := other same; omega)]
      · rfl

/-- A write leaves the elements where they are. -/
theorem fits_mapBases (u v : Write) (a : Arena) : v.fits (a.mapBases u.onBases) = v.fits a := by
  simp only [fits, size?_mapBases]

/-- A write that is followed by one of the same element leaves no trace. -/
theorem act_mul_of_same {w w' : Write} (base : w.base = w'.base)
    (position : w.position = w'.position) : w.act * w'.act = w'.act := by
  have second_counts : ∀ a : Arena,
      (a.mapBases w.onBases).mapBases w'.onBases = a.mapBases w'.onBases := by
    intro a
    rw [Arena.mapBases_mapBases]
    refine Arena.mapBases_congr fun b base' _ => ?_
    simp only [onBases, base, position]
    split
    · cases base'.data with
      | none => rfl
      | some buffer => simp [Buffer.change_store]
    · rfl
  refine Action.ext fun a => ?_
  have alike : w.fits a = w'.fits a := by rw [fits, fits, base, position]
  have first := w.run_act a
  have second := w'.run_act a
  cases fitsW : w.fits a <;> rw [fitsW] at first <;> rw [← alike, fitsW] at second
  · rw [Action.run_mul_of_none first, second]
    rfl
  · rw [Action.run_mul_of_some first, second, run_act, fits_mapBases, ← alike, fitsW,
      second_counts]

/-- Writes of two elements commute. -/
theorem commute {w w' : Write} (other : w.base = w'.base → w.position ≠ w'.position) :
    Commute w.act w'.act := by
  have swap : ∀ a : Arena, (a.mapBases w.onBases).mapBases w'.onBases =
      (a.mapBases w'.onBases).mapBases w.onBases := by
    refine Arena.mapBases_comm fun b base => ?_
    simp only [onBases]
    split <;> split
    next first second =>
      cases base.data with
      | none => rfl
      | some buffer => simp [Buffer.change_comm buffer (other (first ▸ second))]
    all_goals rfl
  refine Action.ext fun a => ?_
  have first := w.run_act a
  have second := w'.run_act a
  cases fitsW : w.fits a <;> cases fitsW' : w'.fits a <;>
    simp only [fitsW, fitsW', if_true, if_false, Bool.false_eq_true] at first second
  · rw [Action.run_mul_of_none first, Action.run_mul_of_none second]
  · rw [Action.run_mul_of_none first, Action.run_mul_of_some second, run_act, fits_mapBases, fitsW]
    rfl
  · rw [Action.run_mul_of_some first, Action.run_mul_of_none second, run_act, fits_mapBases, fitsW']
    rfl
  · rw [Action.run_mul_of_some first, Action.run_mul_of_some second, run_act, run_act,
      fits_mapBases, fits_mapBases, fitsW, fitsW', swap]

/-- A change of other bases commutes with a write. -/
theorem commute_mapBases {w : Write} {f : BaseId → Base → Base}
    (h : ∀ base, f w.base base = base) : Commute w.act (Action.mapBases f) := by
  have keeps : ∀ a : Arena, w.fits (a.mapBases f) = w.fits a := by
    intro a
    rw [fits, fits, Arena.size?, Arena.size?, Arena.buffer?_mapBases_of_id h]
  have swap : ∀ a : Arena, (a.mapBases w.onBases).mapBases f =
      (a.mapBases f).mapBases w.onBases := by
    refine Arena.mapBases_comm fun b base => ?_
    simp only [onBases]
    split
    next same => rw [same, h, h]
    next => rfl
  refine Action.ext fun a => ?_
  rw [Action.run_mul_of_some (Action.run_mapBases f a), run_act, keeps]
  have here := w.run_act a
  cases fitsW : w.fits a <;> simp only [fitsW, if_true, if_false, Bool.false_eq_true] at here ⊢
  · exact Action.run_mul_of_none here _
  · rw [Action.run_mul_of_some here, Action.run_mapBases, swap]

end Write

/-! ## What an instruction finds -/

theorem toOption_bind {ε α β : Type} (x : Except ε α) (f : α → Except ε β) :
    (x >>= f).toOption = x.toOption.bind fun v => (f v).toOption := by
  cases x <;> rfl

@[simp] theorem toOption_pure {ε α : Type} (x : α) : (pure x : Except ε α).toOption = some x := rfl

@[simp] theorem toOption_throw {ε α : Type} (e : ε) : (throw e : Except ε α).toOption = none := rfl

namespace Instruction

@[simp] theorem toOption_require (i : Instruction) (value : Option Scalar) :
    (i.require value).toOption = value := by
  cases value <;> rfl

/-- An elementwise operation depends on nothing but its inputs. -/
theorem elementValue_congr {i j : Instruction} {a a' : Arena} {ts ts' : Turns}
    (opcode : j.opcode = i.opcode) (count : j.operands.length = i.operands.length)
    (types : ∀ k, j.operandType? k = i.operandType? k)
    (loads : ∀ k, k ≠ 0 → (j.loadAt a' ts' k).toOption = (i.loadAt a ts k).toOption) :
    (j.elementValue a' ts').toOption = (i.elementValue a ts).toOption := by
  rw [elementValue, elementValue, count, opcode]
  split
  · simp only [toOption_bind, loads 1 (by decide), outType, inType, types]
    congr 1
    funext x
    split
    · simp only [toOption_require]
    · rfl
  · simp only [toOption_bind, loads 1 (by decide), loads 2 (by decide), inType, types]
    congr 1
    funext x
    congr 1
    funext y
    split
    · simp only [toOption_bind, toOption_require]
    · rfl

/-- The second instruction finds where it stands what the first one finds where that one stands. -/
structure Finds (i : Instruction) (a : Arena) (ts : Turns) (j : Instruction) (a' : Arena)
    (ts' : Turns) : Prop where
  opcode : j.opcode = i.opcode
  random : i.opcode = .random → j.constant = i.constant
  evaluable : j.isEvaluable = i.isEvaluable
  count : j.operands.length = i.operands.length
  types : ∀ k, j.operandType? k = i.operandType? k
  output : j.outputBase? = i.outputBase?
  offset : j.offset ts' 0 = i.offset ts 0
  starts : ∀ k, i.isIndirect k = true → j.startOf k = i.startOf k
  number : i.isPositionDependent = true → j.flatIndex ts' = i.flatIndex ts
  loads : ∀ k, i.isIndirect k = false →
    (j.loadAt a' ts' k).toOption = (i.loadAt a ts k).toOption
  anywhere : ∀ k, i.isIndirect k = true → ∀ x, (j.load a' k x).toOption = (i.load a k x).toOption
  unswept : i.sweepAxis? = none → j.sweepAxis? = none
  swept : ∀ s, i.sweepAxis? = some s → ∃ s', j.sweepAxis? = some s' ∧
    ts'.isOpening s' = ts.isOpening s ∧
      (i.opcode.isAccumulate = true → ts.isOpening s = false →
        (j.loadAt a' (stepBack ts' s') 0).toOption = (i.loadAt a (stepBack ts s) 0).toOption)

namespace Finds

variable {i j : Instruction} {a a' : Arena} {ts ts' : Turns}

theorem writeTo (h : Finds i a ts j a' ts') (x : Int) (value : Scalar) :
    (j.writeTo x value).toOption = (i.writeTo x value).toOption := by
  rw [Instruction.writeTo, Instruction.writeTo, h.output]
  cases i.outputBase? with
  | none => rfl
  | some b =>
      simp only
      split <;> rfl

theorem sweepValue (h : Finds i a ts j a' ts') (sweep : i.opcode.isSweep = true) (op : Binary) :
    (j.sweepValue op a' ts').toOption = (i.sweepValue op a ts).toOption := by
  have direct : ∀ k, i.isIndirect k = false := by
    intro k
    cases op : i.opcode <;> simp_all [isIndirect, Opcode.isSweep]
  rw [Instruction.sweepValue, Instruction.sweepValue]
  cases axis : i.sweepAxis? with
  | none =>
      rw [h.unswept axis]
      rfl
  | some s =>
      obtain ⟨s', axis', opens, before⟩ := h.swept s axis
      simp only [axis', toOption_bind, h.loads _ (direct _), opens, outType, inType, h.types,
        h.opcode]
      congr 1
      funext input
      cases opening : ts.isOpening s with
      | true =>
          simp only [if_true, toOption_require]
      | false =>
          cases scan : i.opcode.isAccumulate with
          | true =>
              simp only [Bool.false_eq_true, if_false, if_true, toOption_bind, toOption_require,
                before scan opening]
          | false =>
              simp only [Bool.false_eq_true, if_false, toOption_bind, toOption_require,
                h.loads 0 (direct 0)]

theorem elementValue (h : Finds i a ts j a' ts') (direct : ∀ k, i.isIndirect k = false) :
    (j.elementValue a' ts').toOption = (i.elementValue a ts).toOption :=
  elementValue_congr h.opcode h.count h.types fun k _ => h.loads k (direct k)

/-- What an instruction writes depends on nothing but what it finds. -/
theorem effect? (h : Finds i a ts j a' ts') :
    (j.effect? a' ts').toOption = (i.effect? a ts).toOption := by
  rw [Instruction.effect?, Instruction.effect?, h.opcode, h.evaluable]
  cases system : i.opcode.isSystem with
  | true => rfl
  | false =>
  cases evaluable : i.isEvaluable with
  | false => rfl
  | true =>
  simp only [Bool.false_eq_true, if_false, Bool.not_true]
  cases op : i.opcode with
  | reduce f =>
      simp only [toOption_bind, h.offset, h.sweepValue (by rw [op]; rfl), h.writeTo]
  | accumulate f =>
      simp only [toOption_bind, h.offset, h.sweepValue (by rw [op]; rfl), h.writeTo]
  | gather =>
      have indices : i.isIndirect 2 = false := by simp [isIndirect, op]
      have values : i.isIndirect 1 = true := by simp [isIndirect, op]
      simp only [toOption_bind, h.offset, h.loads 2 indices, h.anywhere 1 values, h.writeTo,
        h.starts 1 values]
  | scatter =>
      have target : i.isIndirect 0 = true := by simp [isIndirect, op]
      have direct : ∀ k, k ≠ 0 → i.isIndirect k = false := by simp [isIndirect, op]
      simp only [toOption_bind, h.loads 2 (direct 2 (by decide)), h.loads 1 (direct 1 (by decide)),
        h.writeTo, h.starts 0 target]
  | condScatter =>
      have target : i.isIndirect 0 = true := by simp [isIndirect, op]
      have direct : ∀ k, k ≠ 0 → i.isIndirect k = false := by simp [isIndirect, op]
      simp only [toOption_bind, h.loads 3 (direct 3 (by decide))]
      congr 1
      funext condition
      split
      · rfl
      · simp only [toOption_bind, h.loads 2 (direct 2 (by decide)),
          h.loads 1 (direct 1 (by decide)), h.writeTo, h.starts 0 target]
  | range =>
      simp only [toOption_bind, h.offset, h.number (by rw [isPositionDependent, op]), h.writeTo]
  | random =>
      rw [h.random op]
      simp only [h.offset, h.number (by rw [isPositionDependent, op])]
      split
      · simp only [toOption_bind, h.writeTo]
      · rfl
  | _ =>
      have direct : ∀ k, i.isIndirect k = false := by simp [isIndirect, op]
      simp only [toOption_bind, h.offset, h.elementValue direct, h.writeTo]

end Finds


/-! ## What an instruction touches -/

/-- The instruction reads or writes an element where the loops stand. -/
def Touches (i : Instruction) (ts : Turns) (b : BaseId) (x : Int) : Prop :=
  ∃ k v, i.operands[k]? = some v ∧ v.base = some b ∧
    (i.isIndirect k = true ∨ x = i.offset ts k ∨
      k = 0 ∧ i.opcode.isAccumulate = true ∧ ∃ s, i.sweepAxis? = some s ∧
        ts.isOpening s = false ∧ x = i.offset (stepBack ts s) 0)

/-- The instruction may write an element where the loops stand. -/
def Writes (i : Instruction) (ts : Turns) (b : BaseId) (x : Int) : Prop :=
  ∃ v, i.operands[0]? = some v ∧ v.base = some b ∧ (i.isIndirect 0 = true ∨ x = i.offset ts 0)

variable {i j : Instruction} {ts ts' : Turns} {a a' : Arena}

theorem Writes.touches {b : BaseId} {x : Int} (h : i.Writes ts b x) : i.Touches ts b x := by
  obtain ⟨v, hv, base, place⟩ := h
  exact ⟨0, v, hv, base, place.imp id .inl⟩

/-- An operand of a base is read there, and one without base is the constant, unless the constant
is the axis of a fold or scan. -/
theorem toOption_load (i : Instruction) (a : Arena) (k : Nat) (x : Int) :
    (i.load a k x).toOption = i.operands[k]?.bind fun v =>
      match v.base with
      | some b => a.value? b x
      | none => if i.opcode.isSweep then none else i.constant.map .ofConstant := by
  rw [load]
  cases i.operands[k]? with
  | none => rfl
  | some v =>
      cases base : v.base with
      | none =>
          simp only [base, Option.bind_some]
          cases i.constant <;> cases i.opcode.isSweep <;> rfl
      | some b =>
          simp only [base, Option.bind_some]
          rw [toOption_bind, Arena.buffer, Arena.value?]
          cases a.buffer? b with
          | none => rfl
          | some buffer =>
              simp only [Except.toOption, Option.bind_some]
              cases (if x < 0 then none else buffer.cells[x.toNat]?) <;> rfl

theorem load_congr {k : Nat} {x : Int} (h : ∀ v b, i.operands[k]? = some v → v.base = some b →
    a'.value? b x = a.value? b x) : (i.load a' k x).toOption = (i.load a k x).toOption := by
  rw [toOption_load, toOption_load]
  cases hv : i.operands[k]? with
  | none => rfl
  | some v =>
      cases base : v.base with
      | none => simp only [base, Option.bind_some]
      | some b => simp only [base, Option.bind_some, h v b hv base]

/-- An instruction finds the same where all that it touches is the same. -/
theorem finds_of_touches (h : ∀ b x, i.Touches ts b x → a'.value? b x = a.value? b x) :
    Finds i a ts i a' ts where
  opcode := rfl
  random _ := rfl
  evaluable := rfl
  count := rfl
  types _ := rfl
  output := rfl
  offset := rfl
  starts _ _ := rfl
  number _ := rfl
  loads k _ := load_congr fun v b hv base => h b _ ⟨k, v, hv, base, .inr (.inl rfl)⟩
  anywhere k indirect x := load_congr fun v b hv base => h b x ⟨k, v, hv, base, .inl indirect⟩
  unswept := id
  swept s axis := ⟨s, axis, rfl, fun scan opening => load_congr fun v b hv base =>
    h b _ ⟨0, v, hv, base, .inr (.inr ⟨rfl, scan, s, axis, opening, rfl⟩)⟩⟩

theorem writeTo_eq_some {x : Int} {value : Scalar} {w : Write}
    (h : (i.writeTo x value).toOption = some w) :
    i.outputBase? = some w.base ∧ x = w.position := by
  rw [writeTo] at h
  cases output : i.outputBase? with
  | none =>
      rw [output] at h
      contradiction
  | some b =>
      rw [output] at h
      simp only at h
      split at h
      · contradiction
      · cases h
        exact ⟨rfl, by simp only; omega⟩

theorem writes_of_effect? {w : Write} (h : (i.effect? a ts).toOption = some (some w)) :
    i.Writes ts w.base w.position := by
  have place : ∀ {x : Int}, i.outputBase? = some w.base ∧ x = w.position →
      (i.isIndirect 0 = true ∨ x = i.offset ts 0) → i.Writes ts w.base w.position := by
    intro x ⟨output, position⟩ known
    rw [outputBase?, List.head?_eq_getElem?, Option.bind_eq_some_iff] at output
    obtain ⟨v, hv, base⟩ := output
    exact ⟨v, hv, base, position ▸ known⟩
  rw [effect?] at h
  cases system : i.opcode.isSystem with
  | true =>
      rw [system] at h
      cases h
  | false =>
  cases evaluable : i.isEvaluable with
  | false =>
      rw [system, evaluable] at h
      cases h
  | true =>
  simp only [system, evaluable, Bool.false_eq_true, if_false, Bool.not_true] at h
  cases op : i.opcode with
  | scatter =>
      have indirect : i.isIndirect 0 = true := by simp [isIndirect, op]
      simp only [op, toOption_bind, Option.bind_eq_some_iff, toOption_pure, Option.some.injEq] at h
      obtain ⟨_, _, _, _, w', written, rfl⟩ := h
      exact place (writeTo_eq_some written) (.inl indirect)
  | condScatter =>
      have indirect : i.isIndirect 0 = true := by simp [isIndirect, op]
      simp only [op, toOption_bind, Option.bind_eq_some_iff] at h
      obtain ⟨condition, _, h⟩ := h
      split at h
      · cases h
      · simp only [toOption_bind, Option.bind_eq_some_iff, toOption_pure, Option.some.injEq] at h
        obtain ⟨_, _, _, _, w', written, rfl⟩ := h
        exact place (writeTo_eq_some written) (.inl indirect)
  | gather =>
      simp only [op, toOption_bind, Option.bind_eq_some_iff, toOption_pure, Option.some.injEq] at h
      obtain ⟨_, _, _, _, w', written, rfl⟩ := h
      exact place (writeTo_eq_some written) (.inr rfl)
  | random =>
      simp only [op] at h
      split at h
      · simp only [toOption_bind, Option.bind_eq_some_iff, toOption_pure, Option.some.injEq] at h
        obtain ⟨w', written, rfl⟩ := h
        exact place (writeTo_eq_some written) (.inr rfl)
      · contradiction
  | range =>
      simp only [op, toOption_bind, Option.bind_eq_some_iff, toOption_pure, Option.some.injEq] at h
      obtain ⟨w', written, rfl⟩ := h
      exact place (writeTo_eq_some written) (.inr rfl)
  | _ =>
      simp only [op, toOption_bind, Option.bind_eq_some_iff, toOption_pure, Option.some.injEq] at h
      obtain ⟨_, _, w', written, rfl⟩ := h
      exact place (writeTo_eq_some written) (.inr rfl)

/-! ## Instructions that commute -/

/-- The action of an instruction where the loops stand. -/
def act (i : Instruction) (ts : Turns) : Action := ⟨fun a => (i.step ts a).toOption⟩

/-- The action of a write, if there is one. -/
def writeAct : Option Write → Action
  | none => 1
  | some w => w.act

theorem run_act (i : Instruction) (ts : Turns) (a : Arena) :
    (i.act ts).run a = (i.effect? a ts).toOption.bind fun w => (writeAct w).run a := by
  have unfolded : (i.act ts).run a = (i.step ts a).toOption := rfl
  rw [unfolded, step, toOption_bind]
  congr 1
  funext w
  cases w <;> rfl

/-- Instructions that find the same in every arena act alike. -/
theorem act_eq_of_finds (h : ∀ a, Finds i a ts j a ts') : j.act ts' = i.act ts :=
  Action.ext fun a => by rw [run_act, run_act, (h a).effect?]

theorem value?_of_writeAct {w : Option Write} (h : (writeAct w).run a = some a') {b : BaseId}
    {x : Int} (other : ∀ v ∈ w, b = v.base → x ≠ v.position) : a'.value? b x = a.value? b x := by
  cases w with
  | none =>
      cases h
      rfl
  | some v =>
      rw [writeAct, Write.run_act] at h
      split at h
      · cases h
        exact v.value?_mapBases a (other v rfl)
      · contradiction

/-- If the first instruction writes nothing that the second one touches, both can be evaluated
before anything is written. -/
theorem run_act_mul (apart : ∀ b x, i.Writes ts b x → ¬ j.Touches ts' b x) (a : Arena) :
    (i.act ts * j.act ts').run a = (i.effect? a ts).toOption.bind fun w =>
      (j.effect? a ts').toOption.bind fun w' => (writeAct w * writeAct w').run a := by
  rw [Action.run_mul, run_act, Option.bind_assoc]
  cases first : (i.effect? a ts).toOption with
  | none => rfl
  | some w =>
      simp only [Option.bind_some]
      cases written : (writeAct w).run a with
      | none =>
          simp only [Action.run_mul_of_none written, Option.bind_none, Option.bind_fun_none]
      | some a' =>
          have same : Finds j a ts' j a' ts' := by
            refine finds_of_touches fun b x touched => value?_of_writeAct written ?_
            rintro v rfl rfl rfl
            exact apart _ _ (writes_of_effect? first) touched
          rw [Option.bind_some, run_act, same.effect?]
          congr 1
          funext w'
          rw [Action.run_mul_of_some written]

/-- Two instructions commute if neither writes what the other one touches. -/
theorem commute_of_apart (first : ∀ b x, i.Writes ts b x → ¬ j.Touches ts' b x)
    (second : ∀ b x, j.Writes ts' b x → ¬ i.Touches ts b x) :
    Commute (i.act ts) (j.act ts') := by
  refine Action.ext fun a => ?_
  rw [run_act_mul first, run_act_mul second]
  cases ofI : (i.effect? a ts).toOption with
  | none => cases (j.effect? a ts').toOption <;> rfl
  | some w =>
      cases ofJ : (j.effect? a ts').toOption with
      | none => rfl
      | some w' =>
          simp only [Option.bind_some]
          have swap : Commute (writeAct w) (writeAct w') := by
            cases w with
            | none => exact Commute.one_left _
            | some v =>
                cases w' with
                | none => exact Commute.one_right _
                | some v' =>
                    refine Write.commute fun base position => ?_
                    have touched := (writes_of_effect? ofJ).touches
                    rw [← base, ← position] at touched
                    exact first _ _ (writes_of_effect? ofI) touched
          rw [swap.eq]

theorem touches_base {b : BaseId} {x : Int} (h : i.Touches ts b x) : b ∈ i.bases := by
  obtain ⟨k, v, hv, base, -⟩ := h
  rw [bases, BaseSet.mem_ofList, List.mem_filterMap]
  exact ⟨v, List.mem_of_getElem? hv, base⟩

/-- An instruction commutes with changes of bases that it does not name. -/
theorem commute_mapBases {f : BaseId → Base → Base}
    (h : ∀ b ∈ i.bases, ∀ base, f b base = base) : Commute (i.act ts) (Action.mapBases f) := by
  refine Action.ext fun a => ?_
  have same : Finds i a ts i (a.mapBases f) ts := by
    refine finds_of_touches fun b x touched => ?_
    rw [Arena.value?, Arena.buffer?_mapBases_of_id (h b (touches_base touched)), Arena.value?]
  rw [Action.run_mul_of_some (Action.run_mapBases f a), Action.run_mul, run_act, run_act,
    same.effect?, Option.bind_assoc]
  cases effect : (i.effect? a ts).toOption with
  | none => rfl
  | some w =>
      have swap : Commute (writeAct w) (Action.mapBases f) := by
        cases w with
        | none => exact Commute.one_left _
        | some v =>
            exact Write.commute_mapBases (h _ (touches_base (writes_of_effect? effect).touches))
      rw [Option.bind_some, Option.bind_some, ← Action.run_mul, swap.eq,
        Action.run_mul_of_some (Action.run_mapBases f a)]

end Instruction

end ArrayFusion
