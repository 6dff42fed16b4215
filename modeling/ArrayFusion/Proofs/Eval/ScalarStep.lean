import ArrayFusion.Proofs.Eval.ScalarRun

/-!
# One statement with a scalar in the place of a base

A statement that accesses the base at one element only, and not by values, computes the same with
the scalar, if the scalar is live or not read. If it writes the base, it writes the scalar, and the
scalar is live from there on.
-/

namespace ArrayFusion

/-! ## Views that became a scalar -/

namespace View

variable {b : BaseId} {v : View}

@[simp] theorem base_onScalar : (v.onScalar b).base = v.base := by
  rw [onScalar]
  split <;> rfl

@[simp] theorem dtype_onScalar : (v.onScalar b).dtype = v.dtype := by
  rw [onScalar]
  split <;> rfl

@[simp] theorem shape_onScalar : (v.onScalar b).shape = v.shape := by
  rw [onScalar]
  split
  · simp [shape]
  · rfl

@[simp] theorem ndim_onScalar : (v.onScalar b).ndim = v.ndim := by
  rw [onScalar]
  split
  · simp [ndim]
  · rfl

@[simp] theorem isConstant_onScalar : (v.onScalar b).isConstant = v.isConstant := by
  rw [isConstant, base_onScalar, isConstant]

theorem onScalar_of_ne (h : v.base ≠ some b) : v.onScalar b = v := if_neg h

end View

namespace Instruction

variable {i : Instruction} {b : BaseId} {ts : Turns} {k : Nat} {v : View}

theorem getElem?_onScalar (i : Instruction) (b : BaseId) (k : Nat) :
    (i.onScalar b).operands[k]? = i.operands[k]?.map (View.onScalar b) := List.getElem?_map ..

@[simp] theorem opcode_onScalar : (i.onScalar b).opcode = i.opcode := rfl

@[simp] theorem constant_onScalar : (i.onScalar b).constant = i.constant := rfl

@[simp] theorem sweepAxis?_onScalar : (i.onScalar b).sweepAxis? = i.sweepAxis? := rfl

@[simp] theorem isIndirect_onScalar : (i.onScalar b).isIndirect k = i.isIndirect k := rfl

@[simp] theorem shape_onScalar : (i.onScalar b).shape = i.shape := by
  obtain ⟨opcode, operands, constant, creates⟩ := i
  rcases operands with _ | ⟨out, _ | ⟨input, rest⟩⟩ <;> cases opcode <;>
    simp [shape, onScalar, Opcode.isSystem]

@[simp] theorem ndim_onScalar : (i.onScalar b).ndim = i.ndim := by
  rw [ndim, shape_onScalar, ndim]

@[simp] theorem flatIndex_onScalar : (i.onScalar b).flatIndex ts = i.flatIndex ts := by
  rw [flatIndex, shape_onScalar, flatIndex]

@[simp] theorem operandType?_onScalar : (i.onScalar b).operandType? k = i.operandType? k := by
  rw [operandType?, operandType?, getElem?_onScalar, Option.map_map]
  congr 1
  funext v
  simp

@[simp] theorem outputBase?_onScalar : (i.onScalar b).outputBase? = i.outputBase? := by
  rw [outputBase?, outputBase?, List.head?_eq_getElem?, List.head?_eq_getElem?, getElem?_onScalar]
  cases i.operands[0]? <;> simp

@[simp] theorem isEvaluable_onScalar : (i.onScalar b).isEvaluable = i.isEvaluable := by
  simp [isEvaluable, onScalar, Function.comp_def]

@[simp] theorem operandAxis?_onScalar {axis : Nat} :
    (i.onScalar b).operandAxis? k axis = i.operandAxis? k axis := by
  simp only [operandAxis?, getElem?_onScalar, opcode_onScalar, sweepAxis?_onScalar,
    isIndirect_onScalar, Option.map_map]
  cases i.operands[k]? <;> simp [Function.comp_def]

/-- The scalar has one place, and all other operands are where they were. -/
theorem offset_onScalar (hv : i.operands[k]? = some v) (ts : Turns) :
    (i.onScalar b).offset ts k = if v.base = some b then 0 else i.offset ts k := by
  have here : (i.onScalar b).operands[k]? = some (v.onScalar b) := by
    rw [getElem?_onScalar, hv, Option.map_some]
  rw [offset_eq_foldl here, offset_eq_foldl hv, ndim_onScalar]
  simp only [operandAxis?_onScalar]
  by_cases replaced : v.base = some b
  · have still : ∀ axis, ((((i.operandAxis? k axis).bind ((v.onScalar b).axes[·]?)).map fun a =>
        ts.index axis * a.stride).getD 0) = 0 := by
      intro axis
      simp only [View.onScalar, replaced, if_true, List.getElem?_map]
      cases i.operandAxis? k axis with
      | none => rfl
      | some n => cases h : v.axes[n]? <;> simp [h]
    simp only [still, Int.add_zero, replaced, if_true]
    simp [View.onScalar, replaced]
  · rw [if_neg replaced, View.onScalar_of_ne replaced]

theorem startOf_onScalar (other : ∀ v, i.operands[k]? = some v → v.base ≠ some b) :
    (i.onScalar b).startOf k = i.startOf k := by
  rw [startOf, startOf, getElem?_onScalar]
  cases hv : i.operands[k]? with
  | none => rfl
  | some v => rw [Option.map_some, View.onScalar_of_ne (other v hv)]

/-- A load that finds the same value, in the scalar or in the operand, gives the same. -/
theorem load_onScalar {a a' : Arena} {x y : Int} (value : ∀ v c, i.operands[k]? = some v →
    v.base = some c → a'.value? c y = a.value? c x) :
    ((i.onScalar b).load a' k y).toOption = (i.load a k x).toOption := by
  rw [toOption_load, toOption_load, getElem?_onScalar]
  cases hv : i.operands[k]? with
  | none => rfl
  | some v =>
      simp only [Option.map_some, Option.bind_some, View.base_onScalar, opcode_onScalar,
        constant_onScalar]
      cases base : v.base with
      | none => rfl
      | some c => exact value v c hv base

end Instruction

/-! ## Arenas with and without the scalar -/

theorem Arena.buffer?_eq_some_iff {a : Arena} {b : BaseId} {x : Buffer} :
    a.buffer? b = some x ↔ ∃ base, a.get? b = some base ∧ base.data = some x :=
  Option.bind_eq_some_iff

/-- The second arena has a scalar in the place of a base. It agrees with the first one on all other
bases, and if the scalar is live it holds the element of the given number. Under the condition the
base has all elements that the view addresses. -/
structure Mirrors (b : BaseId) (condition : Prop) (v : View) (live : Prop) (x : Int)
    (a a' : Arena) : Prop where
  others : a.AgreeBut b a'
  cell : ∃ buffer, a.buffer? b = some buffer ∧ ∃ y, a'.buffer? b = some ⟨buffer.dtype, #[y]⟩
  room : condition → ∀ n, a.size? b = some n → ∀ y ∈ v.addresses, 0 ≤ y ∧ y < n
  value : live → a'.value? b 0 = a.value? b x

namespace Arena.AgreeBut

variable {b c : BaseId} {a a' : Arena}

theorem buffer? (h : a.AgreeBut b a') (other : c ≠ b) : a'.buffer? c = a.buffer? c := by
  rw [Arena.buffer?, h c other, Arena.buffer?]

theorem value? (h : a.AgreeBut b a') (other : c ≠ b) (x : Int) :
    a'.value? c x = a.value? c x := by
  rw [Arena.value?, h.buffer? other, Arena.value?]

theorem size? (h : a.AgreeBut b a') (other : c ≠ b) : a'.size? c = a.size? c := by
  rw [Arena.size?, h.buffer? other, Arena.size?]

/-- Changes that differ on one base at most keep the agreement on all others. -/
theorem mapBases (h : a.AgreeBut b a') {f g : BaseId → Base → Base}
    (same : ∀ c, c ≠ b → ∀ base, g c base = f c base) :
    (a.mapBases f).AgreeBut b (a'.mapBases g) := by
  intro c other
  rw [get?_mapBases, get?_mapBases, h c other]
  cases a.get? c with
  | none => rfl
  | some base => exact congrArg some (same c other base)

end Arena.AgreeBut

/-- A stored value does not depend on what was there before. -/
theorem Scalar.ofElem_store (y : Scalar) (t : DType) (e e' : t.Elem) :
    Scalar.ofElem t (y.store t e) = Scalar.ofElem t (y.store t e') := by
  cases t <;> cases y <;> rfl

namespace Mirrors

variable {b : BaseId} {condition live : Prop} {v : View} {x : Int} {a a' : Arena} {w : Write}

theorem weaken {live' : Prop} (h : Mirrors b condition v live x a a') (less : live' → live) :
    Mirrors b condition v live' x a a' :=
  ⟨h.others, h.cell, h.room, fun isLive => h.value (less isLive)⟩

/-- A scalar that is not live may stand for any element. -/
theorem forget (h : Mirrors b condition v live x a a') (y : Int) :
    Mirrors b condition v False y a a' :=
  ⟨h.others, h.cell, h.room, False.elim⟩

/-- A write of another base. -/
theorem write_other (h : Mirrors b condition v live x a a') (other : w.base ≠ b) :
    Mirrors b condition v live x (a.mapBases w.onBases) (a'.mapBases w.onBases) := by
  have alone : ∀ base, w.onBases b base = base := fun base => if_neg other.symm
  refine ⟨h.others.mapBases fun c _ base => rfl, ?_, ?_, ?_⟩
  · rw [Arena.buffer?_mapBases_of_id alone, Arena.buffer?_mapBases_of_id alone]
    exact h.cell
  · rw [Write.size?_mapBases]
    exact h.room
  · intro isLive
    rw [w.value?_mapBases a fun same => absurd same.symm other,
      w.value?_mapBases a' fun same => absurd same.symm other]
    exact h.value isLive

/-- After a write of the element, the scalar that was written as well is live. -/
theorem write (h : Mirrors b condition v live x a a') {position : Nat} {y : Scalar}
    (here : x = position) (fits : (Write.mk b position y).fits a = true) :
    (Write.mk b 0 y).fits a' = true ∧ Mirrors b condition v True x
      (a.mapBases (Write.mk b position y).onBases) (a'.mapBases (Write.mk b 0 y).onBases) := by
  obtain ⟨⟨t, cells⟩, found, e, found'⟩ := h.cell
  have inside : position < cells.size := by
    simpa [Write.fits, Arena.size?, found, Buffer.size] using fits
  have after : (a.mapBases (Write.mk b position y).onBases).buffer? b =
      some ⟨t, cells.modify position (y.store t)⟩ := by
    obtain ⟨base, exists_b, data⟩ := Arena.buffer?_eq_some_iff.mp found
    simp [Arena.buffer?_mapBases, exists_b, Write.onBases, data, Buffer.change]
  have after' : (a'.mapBases (Write.mk b 0 y).onBases).buffer? b = some ⟨t, #[y.store t e]⟩ := by
    obtain ⟨base, exists_b, data⟩ := Arena.buffer?_eq_some_iff.mp found'
    simp [Arena.buffer?_mapBases, exists_b, Write.onBases, data, Buffer.change]
  refine ⟨by simp [Write.fits, Arena.size?, found', Buffer.size], ?_, ?_, ?_, fun _ => ?_⟩
  · exact h.others.mapBases fun c other base => by
      simp [Write.onBases, other]
  · exact ⟨_, after, _, after'⟩
  · rw [Write.size?_mapBases]
    exact h.room
  · rw [Arena.value?, after', Arena.value?, after, here]
    simpa [inside, Array.getElem_modify] using Scalar.ofElem_store y t cells[position] e

/-- The scalar can be given any value while it is not live. -/
theorem fill (h : Mirrors b condition v live x a a') (f : (t : DType) → t.Elem) :
    Mirrors b condition v False x a (a'.fill b f) := by
  obtain ⟨buffer, found, e, found'⟩ := h.cell
  refine ⟨fun c other => ?_, ⟨buffer, found, f buffer.dtype, ?_⟩, h.room, False.elim⟩
  · rw [Arena.fill, Arena.get?_modify, if_neg other.symm]
    exact h.others c other
  · obtain ⟨base, exists_b, data⟩ := Arena.buffer?_eq_some_iff.mp found'
    simp [Arena.fill, Arena.buffer?, Arena.get?_modify, exists_b, data, Buffer.change]

/-- The start of the body is the only thing that a run with a scalar does in addition. -/
theorem simulates_declare (x : LocalScalar) (id : Nat) (ts : Turns) (y y' : Int) :
    Exec.Simulates x.base condition (Mirrors x.base condition v False y) (pure ()) (x.declare id ts)
      (Mirrors x.base condition v False y') where
  ok a a' c related ran := by
    cases ran
    rw [LocalScalar.declare]
    split
    · exact ⟨_, Exec.run_change _ a', (related.fill _).forget y'⟩
    · exact ⟨a', rfl, related.forget y'⟩
  error _ a a' f c _ failed := by
    cases failed

end Mirrors

/-! ## One statement -/

namespace Instruction

/-- The instruction accesses the base only at one element, by operands that are not addressed by
values, and not as the output of a fold or scan. -/
structure OnlyAt (i : Instruction) (b : BaseId) (ts : Turns) (x : Int) : Prop where
  direct : ∀ k v, i.operands[k]? = some v → v.base = some b → i.isIndirect k = false
  place : ∀ k v, i.operands[k]? = some v → v.base = some b → i.offset ts k = x
  unswept : i.outputBase? = some b → i.opcode.isSweep = false

variable {i : Instruction} {b : BaseId} {ts : Turns} {x : Int} {k : Nat} {a a' : Arena}
  {condition live : Prop} {v : View}

theorem outputBase?_eq_some_iff :
    i.outputBase? = some b ↔ ∃ v, i.operands[0]? = some v ∧ v.base = some b := by
  rw [outputBase?, List.head?_eq_getElem?, Option.bind_eq_some_iff]

theorem writeTo_of_output (output : i.outputBase? = some b) (x : Int) (y : Scalar) :
    (i.writeTo x y).toOption = if x < 0 then none else some ⟨b, x.toNat, y⟩ := by
  rw [writeTo, output]
  dsimp only
  split <;> rfl

/-- Where the scalar is live or not read, operands have the same values. -/
theorem loadAt_onScalar (h : Mirrors b condition v live x a a') (ts : Turns)
    (here : ∀ w, i.operands[k]? = some w → w.base = some b → live ∧ i.offset ts k = x) :
    ((i.onScalar b).loadAt a' ts k).toOption = (i.loadAt a ts k).toOption := by
  refine load_onScalar fun w c hw base => ?_
  rw [offset_onScalar hw, base]
  by_cases same : c = b
  · subst same
    obtain ⟨isLive, place⟩ := here w hw base
    rw [if_pos rfl, place]
    exact h.value isLive
  · rw [if_neg (by simpa using same)]
    exact h.others.value? same _

/-- An instruction that does not write the scalar finds the same. -/
theorem finds_onScalar (h : Mirrors b condition v live x a a') (only : i.OnlyAt b ts x)
    (reads : ∀ k ≠ 0, ∀ w, i.operands[k]? = some w → w.base = some b → live)
    (output : i.outputBase? ≠ some b) : Finds i a ts (i.onScalar b) a' ts where
  opcode := rfl
  random _ := rfl
  evaluable := isEvaluable_onScalar
  count := List.length_map ..
  types _ := operandType?_onScalar
  output := outputBase?_onScalar
  offset := by
    cases hv : i.operands[0]? with
    | none => simp [offset, getElem?_onScalar, hv]
    | some v =>
        have other : v.base ≠ some b := fun base =>
          output (outputBase?_eq_some_iff.mpr ⟨v, hv, base⟩)
        rw [offset_onScalar hv, if_neg other]
  starts k indirect := startOf_onScalar fun w hw base => by
    rw [only.direct k w hw base] at indirect
    contradiction
  number _ := flatIndex_onScalar
  loads k _ := loadAt_onScalar h ts fun w hw base => by
    have inner : k ≠ 0 := by
      rintro rfl
      exact output (outputBase?_eq_some_iff.mpr ⟨w, hw, base⟩)
    exact ⟨reads k inner w hw base, only.place k w hw base⟩
  anywhere k indirect y := by
    refine load_onScalar fun w c hw base => h.others.value? (fun same => ?_) y
    rw [only.direct k w hw (same ▸ base)] at indirect
    contradiction
  unswept := id
  swept s axis := ⟨s, axis, rfl, fun _ _ => loadAt_onScalar h _ fun w hw base =>
    absurd (outputBase?_eq_some_iff.mpr ⟨w, hw, base⟩) output⟩

/-- An instruction that writes the scalar computes the same value for it. -/
theorem exists_value (h : Mirrors b condition v live x a a') (only : i.OnlyAt b ts x)
    (computes : i.opcode.isSystem = false)
    (reads : ∀ k ≠ 0, ∀ w, i.operands[k]? = some w → w.base = some b → live)
    (output : i.outputBase? = some b) : ∃ value : Option Scalar,
      (i.effect? a ts).toOption =
        value.bind (fun y => (i.writeTo x y).toOption.bind fun w => some (some w)) ∧
      ((i.onScalar b).effect? a' ts).toOption = value.bind fun y =>
        ((i.onScalar b).writeTo 0 y).toOption.bind fun w => some (some w) := by
  obtain ⟨out, hout, base⟩ := outputBase?_eq_some_iff.mp output
  have direct := only.direct 0 out hout base
  have unswept := only.unswept output
  have loads : ∀ k, k ≠ 0 →
      ((i.onScalar b).loadAt a' ts k).toOption = (i.loadAt a ts k).toOption := fun k inner =>
    loadAt_onScalar h ts fun w hw base => ⟨reads k inner w hw base, only.place k w hw base⟩
  have place : i.offset ts 0 = x := only.place 0 out hout base
  have scalar : (i.onScalar b).offset ts 0 = 0 := by rw [offset_onScalar hout, if_pos base]
  rw [effect?, effect?, opcode_onScalar, computes, isEvaluable_onScalar, place, scalar]
  cases evaluable : i.isEvaluable with
  | false => exact ⟨none, rfl, rfl⟩
  | true =>
  simp only [Bool.false_eq_true, if_false, Bool.not_true]
  cases op : i.opcode with
  | reduce f | accumulate f => simp [op, Opcode.isSweep] at unswept
  | scatter | condScatter => simp [op, isIndirect] at direct
  | gather =>
      have other : ∀ w, i.operands[1]? = some w → w.base ≠ some b := by
        intro w hw base
        have := only.direct 1 w hw base
        simp [isIndirect, op] at this
      have values : ∀ y, ((i.onScalar b).load a' 1 y).toOption = (i.load a 1 y).toOption :=
        fun y => load_onScalar fun w c hw base =>
          h.others.value? (fun same => other w hw (same ▸ base)) y
      refine ⟨(i.loadAt a ts 2).toOption.bind fun index =>
        (i.load a 1 (i.startOf 1 + index.toSigned)).toOption, ?_, ?_⟩
      all_goals
        simp only [toOption_bind, loads 2 (by decide), startOf_onScalar other, values,
          toOption_pure, Option.bind_assoc]
  | range =>
      refine ⟨some (.signed (i.flatIndex ts)), ?_, ?_⟩
      all_goals
        simp only [toOption_bind, flatIndex_onScalar, toOption_pure, Option.bind_some]
  | random =>
      by_cases drawn : ∃ start key, i.constant = some (.random start key)
      · obtain ⟨start, key, constant⟩ := drawn
        refine ⟨some (.unsigned (Philox.word start key (UInt64.ofInt (i.flatIndex ts))).toNat),
          ?_, ?_⟩
        all_goals
          simp only [constant_onScalar, flatIndex_onScalar, constant, toOption_bind, toOption_pure,
            Option.bind_some]
      · refine ⟨none, ?_, ?_⟩
        all_goals
          simp only [constant_onScalar]
          split
          next start key constant => exact absurd ⟨start, key, constant⟩ drawn
          next => rfl
  | _ =>
      have value : ((i.onScalar b).elementValue a' ts).toOption = (i.elementValue a ts).toOption :=
        elementValue_congr rfl (List.length_map ..) (fun _ => operandType?_onScalar) loads
      refine ⟨(i.elementValue a ts).toOption, ?_, ?_⟩
      all_goals simp only [toOption_bind, value, toOption_pure]

theorem toOption_step (i : Instruction) (ts : Turns) (a : Arena) :
    (i.step ts a).toOption = (i.effect? a ts).toOption.bind fun w => (writeAct w).run a :=
  run_act i ts a

/-- A statement that does not write the base does the same in both arenas. -/
theorem rel_step_of_other (related : Mirrors b condition v live x a a') (only : i.OnlyAt b ts x)
    (reads : ∀ k ≠ 0, ∀ w, i.operands[k]? = some w → w.base = some b → live)
    (output : i.outputBase? ≠ some b) :
    Option.Rel (Mirrors b condition v (live ∨ i.outputBase? = some b) x)
      (i.step ts a).toOption ((i.onScalar b).step ts a').toOption := by
  rw [toOption_step, toOption_step, (finds_onScalar related only reads output).effect?]
  cases effect : (i.effect? a ts).toOption with
  | none => exact .none
  | some write =>
    rw [Option.bind_some, Option.bind_some]
    cases write with
    | none => exact .some (related.weaken fun either => either.resolve_right output)
    | some w =>
      have other : w.base ≠ b := by
        obtain ⟨out, hout, base, -⟩ := writes_of_effect? effect
        intro same
        exact output (outputBase?_eq_some_iff.mpr ⟨out, hout, same ▸ base⟩)
      have fits : w.fits a' = w.fits a := by
        rw [Write.fits, related.others.size? other, Write.fits]
      simp only [writeAct, Write.run_act, fits]
      split
      · exact .some ((related.write_other other).weaken fun either => either.resolve_right output)
      · exact .none

/-- A statement that writes the base writes the scalar as well, if the element is there. -/
theorem rel_step_of_output (related : Mirrors b condition v live x a a') (only : i.OnlyAt b ts x)
    (computes : i.opcode.isSystem = false)
    (reads : ∀ k ≠ 0, ∀ w, i.operands[k]? = some w → w.base = some b → live)
    (output : i.outputBase? = some b) (inside : x ∈ v.addresses)
    (proceeds : condition ∨ (i.step ts a).toOption ≠ none) :
    Option.Rel (Mirrors b condition v (live ∨ i.outputBase? = some b) x)
      (i.step ts a).toOption ((i.onScalar b).step ts a').toOption := by
  obtain ⟨value, effect, effect'⟩ := exists_value related only computes reads output
  have output' : (i.onScalar b).outputBase? = some b := outputBase?_onScalar.trans output
  rw [toOption_step, effect] at proceeds
  rw [toOption_step, toOption_step, effect, effect']
  cases value with
  | none => exact .none
  | some y =>
    have room : condition → ∃ n, a.size? b = some n ∧ 0 ≤ x ∧ x < n := by
      intro given
      obtain ⟨buffer, found, -⟩ := related.cell
      have size : a.size? b = some buffer.size := by rw [Arena.size?, found, Option.map_some]
      exact ⟨_, size, related.room given _ size x inside⟩
    simp only [Option.bind_some, writeTo_of_output output, writeTo_of_output output'] at proceeds ⊢
    have nonneg : 0 ≤ x := by
      by_contra negative
      rcases proceeds with given | proceeds
      · obtain ⟨n, -, nonneg, -⟩ := room given
        exact negative nonneg
      · simp [not_le.mp negative] at proceeds
    obtain ⟨position, rfl⟩ := Int.eq_ofNat_of_zero_le nonneg
    simp only [not_lt.mpr nonneg, if_false, Option.bind_some, writeAct, Write.run_act,
      Int.toNat_natCast, Int.lt_irrefl, Int.toNat_zero] at proceeds ⊢
    have fits : (Write.mk b position y).fits a = true := by
      rcases proceeds with given | proceeds
      · obtain ⟨n, size, -, less⟩ := room given
        simpa [Write.fits, size] using less
      · by_contra outside
        rw [if_neg outside] at proceeds
        contradiction
    obtain ⟨fits', after⟩ := related.write rfl fits
    rw [if_pos fits, if_pos fits']
    exact .some (after.weaken fun _ => trivial)

/-- A statement keeps the two arenas related. If it reads the scalar, then the scalar is live, and
if it writes the scalar, then the scalar is live from there on. -/
theorem simulates_step (only : i.OnlyAt b ts x) (computes : i.opcode.isSystem = false)
    (reads : ∀ k ≠ 0, ∀ w, i.operands[k]? = some w → w.base = some b → live)
    (inside : i.outputBase? = some b → x ∈ v.addresses) :
    Exec.Simulates b condition (Mirrors b condition v live x) (Exec.change (i.step ts))
      (Exec.change ((i.onScalar b).step ts))
      (Mirrors b condition v (live ∨ i.outputBase? = some b) x) := by
  apply Exec.Simulates.change
  · intro a a' related
    exact related.others
  · intro a a' related proceeds
    by_cases output : i.outputBase? = some b
    · exact rel_step_of_output related only computes reads output (inside output) proceeds
    · exact rel_step_of_other related only reads output

end Instruction

end ArrayFusion
