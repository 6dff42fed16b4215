import ArrayFusion.Proofs.Eval.Filling
import ArrayFusion.Proofs.Eval.InStep
import ArrayFusion.Proofs.Instruction.Transpose

/-!
# Runs of transposed instructions

A transposed instruction runs through the same elements along loops in another order. At each
position it does what the instruction did at the position with the two indices swapped, so both
carry out the same actions, listed differently. If no element is written twice and the output is
read by nobody else, only a scan meets its own results: each position reads the one before it on its
line. Row-major order goes along every line, before and after two axes change places, so these
positions stay in order, and all others may change places.

A range and random numbers are written by the number of the position. Transposing renumbers the
positions, and this is not made up for. So they keep their meaning where the numbers stay.
-/

namespace ArrayFusion

open Shape

namespace Shape

/-- Swapping two axes keeps the numbers of all positions. -/
def KeepsNumbers (shape : List Int) (a b : Nat) : Prop :=
  ∀ p ∈ positions shape, number (swapAt a b shape) (swapAt a b p) = number shape p

instance (shape : List Int) (a b : Nat) : Decidable (KeepsNumbers shape a b) :=
  inferInstanceAs (Decidable (∀ p ∈ positions shape,
    number (swapAt a b shape) (swapAt a b p) = number shape p))

variable {shape p q : List Int} {a b s : Nat}

/-- The step is one along another axis after two axes have changed places. -/
theorem number_swapAt_lt_of_step (hp : InRange shape p) (hq : InRange shape q)
    (both : a < p.length ∧ b < p.length) (inside : s < p.length) (step : q = p.modify s (· - 1)) :
    number (swapAt a b shape) (swapAt a b q) < number (swapAt a b shape) (swapAt a b p) := by
  obtain ⟨ha, hb⟩ := both
  apply number_lt_of_step (hp.swapAt a b) (hq.swapAt a b)
  case inside => exact (length_swapAt a b p).symm ▸ swap_lt ha hb inside
  case step => rw [step, modify_swapAt ha hb]

end Shape

namespace Instruction

variable {i t : Instruction} {a b : Nat} {p q : List Int} {ts ts' : Turns}

/-! ## What happens at a position -/

namespace Transposes

/-- With two indices swapped, operands are accessed where they were. -/
theorem offset_eq (h : Transposes i t a b) (wf : i.WellFormed) (at_p : ts.At p)
    (at_q : ts'.At (swapAt a b p)) (length : p.length = i.ndim) (k : Nat) :
    t.offset ts' k = i.offset ts k := by
  obtain ⟨hv, hw⟩ | ⟨v, w, hv, hw, swapped⟩ := h.operand_cases k
  · rw [offset, offset, hv, hw]
  · have start : w.start = v.start := by
      have starts := h.startOf_eq k
      rwa [startOf, startOf, hv, hw] at starts
    have length' : (swapAt a b p).length = t.ndim := by rw [length_swapAt, length, h.ndim_eq]
    rw [Instruction.offset_eq at_p length hv, Instruction.offset_eq at_q length' hw, start,
      h.seenAxes_eq wf hv hw swapped, View.offsetAt_swapAt (by simpa [seenAxes] using length)]

/-- At a position with two indices swapped, the transposed instruction does what the instruction did,
unless it sees another number. -/
theorem actAt_eq (h : Transposes i t a b) (wf : i.WellFormed) (along : i.SweepsInside)
    (length : p.length = i.ndim) (numbered : i.isPositionDependent = true →
      number (swapAt a b i.shape) (swapAt a b p) = number i.shape p) :
    t.actAt (swapAt a b p) = i.actAt p := by
  obtain ⟨at_p, opening⟩ := i.standsAt_turns p
  obtain ⟨at_q, opening'⟩ := t.standsAt_turns (swapAt a b p)
  have length' : (swapAt a b p).length = t.ndim := by rw [length_swapAt, length, h.ndim_eq]
  refine h.moved.act_eq_of_flatIndex (fun dependent => ?number)
    (h.offset_eq wf at_p at_q length) (fun k _ => h.startOf_eq k) (fun none => ?unswept)
    fun s axis => ⟨Equiv.swap a b s, ?swept, ?opening, ?back⟩
  case number =>
    rw [flatIndex_eq at_p length, flatIndex_eq at_q length', h.shape_eq wf, numbered dependent]
  case unswept => rw [h.sweepAxis?_eq wf along, none, Option.map_none]
  case swept => rw [h.sweepAxis?_eq wf along, axis, Option.map_some]
  all_goals
    have inside := along s axis
    obtain ⟨ha, hb⟩ : a < p.length ∧ b < p.length := length ▸ h.inside_of_lt wf inside
  case opening =>
    have here : p[s]? = some p[s] := List.getElem?_eq_getElem (length ▸ inside)
    have there : (swapAt a b p)[Equiv.swap a b s]? = some p[s] := by
      rw [getElem?_swapAt ha hb, Equiv.swap_apply_self, here]
    have axis' : t.sweepAxis? = some (Equiv.swap a b s) := by
      rw [h.sweepAxis?_eq wf along, axis, Option.map_some]
    rw [opening s _ axis here, opening' _ _ axis' there]
  case back =>
    intro k
    have back := at_q.stepBack (Equiv.swap a b s)
    rw [modify_swapAt ha hb] at back
    exact h.offset_eq wf (at_p.stepBack s) back (by rw [List.length_modify, length]) k

end Transposes

/-! ## Positions that may change places -/

/-- Nothing is read from the base of the output, but what a scan has written. -/
def OutputApart (i : Instruction) : Prop :=
  ∀ v ∈ i.operands.tail, v.isConstant = false → v.base ≠ i.outputBase?

instance (i : Instruction) : Decidable i.OutputApart :=
  inferInstanceAs (Decidable (∀ v ∈ i.operands.tail, v.isConstant = false →
    v.base ≠ i.outputBase?))

/-- What is written at a position is touched there and, by a scan, at the next position of the
line. -/
theorem eq_or_modify_of_writes (sound : i.Sound) (apart : i.OutputApart) (once : i.WritesOnce)
    (direct : i.isIndirect 0 = false) (notFold : i.opcode.isReduction = false)
    (rangeP : InRange i.shape p) (rangeQ : InRange i.shape q) {c : BaseId} {x : Int}
    (written : i.Writes (i.turns p) c x) (touched : i.Touches (i.turns q) c x) :
    p = q ∨ ∃ s, i.sweepAxis? = some s ∧ p = q.modify s (· - 1) := by
  obtain ⟨out, l, v, hout, hv, array, array', base, meet⟩ :=
    meet_of_writes sound sound rangeP rangeQ written touched
  have first : l = 0 := by
    cases l with
    | zero => rfl
    | succ l =>
      have read : v ∈ i.operands.tail := List.mem_of_getElem? (by rwa [List.getElem?_tail])
      refine absurd ?_ (apart v read array')
      rw [outputBase?, List.head?_eq_getElem?, hout, Option.bind_some, base]
  subst first
  obtain rfl : out = v := Option.some.inj (hout.symm.trans hv)
  obtain indirect | indirect | ⟨-, -, r, visits, inOut, same⟩ := meet
  · exact absurd (direct.symm.trans indirect) Bool.false_ne_true
  · exact absurd (direct.symm.trans indirect) Bool.false_ne_true
  have here : ∀ r, i.place 0 out r = r := by
    intro r
    rw [place]
    cases i.sweepAxis? with
    | none => rfl
    | some s => exact if_neg (by simp [notFold])
  have sizes := (sound.views out (List.mem_of_getElem? hout)).sizes
  have met : i.place 0 out p = r :=
    View.eq_of_offsetAt_eq sizes (once out hout direct) inOut visits.1 (by omega)
  rw [here] at met
  obtain at_q | ⟨-, -, s, axis, back⟩ := visits.2
  · exact .inl (met.trans (at_q.trans (here q)))
  · exact .inr ⟨s, axis, met.trans back⟩

/-- Two positions may change places if the scan does not go from either of them to the other one. -/
theorem commute_of_not_modify (sound : i.Sound) (apart : i.OutputApart) (once : i.WritesOnce)
    (direct : i.isIndirect 0 = false) (notFold : i.opcode.isReduction = false)
    (rangeP : InRange i.shape p) (rangeQ : InRange i.shape q) (ne : p ≠ q)
    (forth : ∀ s, i.sweepAxis? = some s → p ≠ q.modify s (· - 1))
    (back : ∀ s, i.sweepAxis? = some s → q ≠ p.modify s (· - 1)) :
    Commute (i.actAt p) (i.actAt q) := by
  apply commute_of_apart
  · intro c x written touched
    obtain same | ⟨s, axis, step⟩ :=
      eq_or_modify_of_writes sound apart once direct notFold rangeP rangeQ written touched
    · exact ne same
    · exact forth s axis step
  · intro c x written touched
    obtain same | ⟨s, axis, step⟩ :=
      eq_or_modify_of_writes sound apart once direct notFold rangeQ rangeP written touched
    · exact ne same.symm
    · exact back s axis step

/-! ## All positions -/

/-- Transposed or not, an instruction does the same at all its positions together. -/
theorem Transposes.prod_actAt_eq (h : Transposes i t a b) (sound : i.Sound)
    (apart : i.OutputApart) (once : i.WritesOnce) (direct : i.isIndirect 0 = false)
    (numbered : i.isPositionDependent = true → KeepsNumbers i.shape a b) :
    ((positions t.shape).map t.actAt).prod = ((positions i.shape).map i.actAt).prod := by
  have along := sound.fit.sweepsInside
  have listed : (positions t.shape).map t.actAt =
      ((positions (swapAt a b i.shape)).map (swapAt a b)).map i.actAt := by
    rw [h.shape_eq sound.views, List.map_map]
    refine List.map_congr_left fun q hq => ?_
    have range : InRange i.shape (swapAt a b q) := (mem_positions.mp hq).unswapAt
    have act := h.actAt_eq sound.views along range.length_eq fun dependent =>
      numbered dependent _ (mem_positions.mpr range)
    rwa [swapAt_swapAt] at act
  rw [listed]
  apply prod_eq_of_perm (perm_positions_swapAt i.shape a b) (pairwise_positions i.shape)
  refine List.pairwise_map.mpr ((pairwise_positions _).imp_of_mem fun {p q} hp hq less later => ?_)
  have rangeP := (mem_positions.mp hp).unswapAt
  have rangeQ := (mem_positions.mp hq).unswapAt
  refine commute_of_not_modify sound apart once direct h.notFold rangeP rangeQ ?ne
    (fun s axis step => ?forth) fun s axis step => ?back
  case ne =>
    intro same
    rw [same] at later
    exact absurd later (Int.lt_irrefl _)
  case forth =>
    have inside : s < (swapAt a b q).length := rangeQ.length_eq ▸ along s axis
    exact Int.lt_asymm (number_lt_of_step rangeQ rangeP inside step) later
  case back =>
    have inside : s < (swapAt a b p).length := rangeP.length_eq ▸ along s axis
    have both : a < (swapAt a b p).length ∧ b < (swapAt a b p).length :=
      rangeP.length_eq ▸ h.inside_of_lt sound.views (along s axis)
    have before := number_swapAt_lt_of_step rangeP rangeQ both inside step
    rw [swapAt_swapAt, swapAt_swapAt] at before
    exact Int.lt_asymm before less

/-! ## Arrays of integers -/

/-- Transposed, an instruction fills the elements that it filled. -/
theorem Transposes.fillsIntegers (h : Transposes i t a b) {type : IntType} {out : View} {c : BaseId}
    (fills : i.FillsIntegers type out c) : t.FillsIntegers type (out.swapAxes a b) c := by
  have views := fills.pointwise.views
  have base : (out.swapAxes a b).base = some c := by
    rw [View.swapAxes_eq]
    exact fills.output
  refine {
    pointwise := ⟨h.opcode ▸ fills.pointwise.elementwise, h.wellFormed views, fun w hw array => ?_⟩
    evaluable := h.moved.isEvaluable.trans fills.evaluable
    operand_zero := ?_
    output := base
    outType := by rw [View.swapAxes_eq]; exact fills.outType }
  · obtain ⟨v, hv, ⟨constant, rfl⟩ | ⟨array', -, -, rfl⟩⟩ := exists_of_forall₂ h.operands hw
    · exact absurd (constant.symm.trans array) (by decide)
    · rw [View.shape_swapAxes, fills.pointwise.whole v hv array', h.shape_eq views]
  · obtain ⟨none, -⟩ | ⟨v, w, hv, hw, ⟨constant, -⟩ | ⟨-, -, -, rfl⟩⟩ := h.operand_cases 0
    · cases none.symm.trans fills.operand_zero
    · obtain rfl : v = out := Option.some.inj (hv.symm.trans fills.operand_zero)
      exact absurd (constant.symm.trans (View.isConstant_of_base fills.output)) (by decide)
    · obtain rfl : v = out := Option.some.inj (hv.symm.trans fills.operand_zero)
      exact hw

end Instruction

namespace Statement

variable {i t : Instruction} {a b : Nat}

/-- A range means something else once it is transposed, if a number of a position changes and the
type of its elements can tell all numbers apart. -/
theorem keepsNumbers_of_range (h : i.Transposes t a b) {type : IntType} {out : View} {c : BaseId}
    (fills : i.FillsIntegers type out c) (range : i.opcode = .range) (once : out.addresses.Nodup)
    (room : elementCount i.shape ≤ type.modulus) {arena : Arena} {old : Array Int}
    (data : arena.buffer? c = some ⟨.integer type, old⟩) (covered : out.Covers old) {n m : Nat}
    (same : (alone (.fresh t) n m).run arena = (alone (.fresh i) n m).run arena) :
    KeepsNumbers i.shape a b := by
  have views := fills.pointwise.views
  have wf := views out (List.mem_of_getElem? fills.operand_zero)
  have names := View.perm_addresses_swapAxes wf.sizes a b
  obtain ⟨new, run, numbers, -⟩ := run_fills_range (s := .fresh i) fills range once data covered n m
  obtain ⟨new', run', numbers', -⟩ := run_fills_range (s := .fresh t) (h.fillsIntegers fills)
    (h.opcode.trans range) (names.nodup_iff.mpr once) data
    (fun x hx => covered x (names.mem_iff.mp hx)) n m
  obtain rfl : new = new' := by
    have known := Arena.isSome_of_buffer? data
    have buffers := congrArg (·.2.buffer? c) (run.symm.trans (same.symm.trans run'))
    simpa [Arena.buffer?_setCells known] using buffers
  intro p hp
  have inside := mem_positions.mp hp
  have inside' : InRange t.shape (swapAt a b p) := h.shape_eq views ▸ inside.swapAt a b
  have length : p.length = out.axes.length := by
    rw [inside.length_eq, ← fills.shape_eq, View.length_shape, View.ndim]
  have element : (out.swapAxes a b).read new (swapAt a b p) = out.read new p := by
    rw [View.read_eq, View.read_eq, View.address, View.address, View.axes_swapAxes,
      View.offsetAt_swapAt length, View.swapAxes_eq]
  have wrapped := (numbers' _ inside').symm.trans (element.trans (numbers p inside))
  have below := number_lt inside
  have below' := number_lt inside'
  rw [fresh, h.shape_eq views] at wrapped
  rw [h.shape_eq views] at inside' below'
  rw [elementCount_swapAt] at below'
  exact IntType.eq_of_wrap_eq wrapped ⟨number_nonneg inside', by omega⟩
    ⟨number_nonneg inside, by omega⟩

/-- No loop carries out a system operation. -/
theorem ofStatements_system (system : i.opcode.isSystem = true) (n : Nat) :
    Nest.ofStatements 0 [] [.fresh i] n = Nest.ofStatements 0 [] [] n := by
  simp [Nest.ofStatements, Nest.ofStatementsSized, fresh, system]

/-- Transposing an instruction does not change what it does. For an instruction that writes to a base
of its own, no element twice and not to places given by values, the kernel of the instruction and
that of the transposed one succeed alike and leave the same arena. Transposing once more gives back
the operands and the axis of a scan.

An instruction that sees the numbers of its positions needs axes that can be swapped without changing
them. For a range whose type can tell all numbers apart there is no way around this. -/
theorem run_kernel_of_transposed (views : i.WellFormed) (fit : i.ShapesFit)
    (apart : i.OutputApart) (once : i.WritesOnce) (direct : i.isIndirect 0 = false)
    (h : i.transposed a b = .ok t) :
    ((i.isPositionDependent = true → KeepsNumbers i.shape a b) →
      ∀ (n m : Nat) (arena arena' : Arena), (alone (.fresh t) n m).run arena = (.ok (), arena') ↔
        (alone (.fresh i) n m).run arena = (.ok (), arena')) ∧
    (∃ j, t.transposed a b = .ok j ∧ j.operands = i.operands ∧ j.sweepAxis? = i.sweepAxis?) ∧
    ∀ (type : IntType) (out : View) (c : BaseId), i.FillsIntegers type out c →
      i.opcode = .range → elementCount i.shape ≤ type.modulus →
      ∀ (arena : Arena) (old : Array Int), arena.buffer? c = some ⟨.integer type, old⟩ →
        out.Covers old → ∀ n m : Nat,
          (alone (.fresh t) n m).run arena = (alone (.fresh i) n m).run arena →
            KeepsNumbers i.shape a b := by
  have swapped := Instruction.transposed_eq_ok_iff.mp h
  have along := fit.sweepsInside
  refine ⟨fun numbered n m arena arena' => ?_, ?_, fun type out c fills range room => ?_⟩
  · apply Exec.eq_ok_iff_of_act_eq
    rw [alone, alone]
    cases system : i.opcode.isSystem with
    | true => rw [ofStatements_system system n, ofStatements_system (swapped.opcode ▸ system) n]
    | false =>
      have sound : i.Sound := ⟨system, views, fit⟩
      have along' : t.SweepsInside := swapped.sweepsInside views along
      have computes' : Computes (.fresh t) := ⟨swapped.opcode ▸ system, swapped.wellFormed views⟩
      rw [act_kernel_of_inside (s := .fresh i) ⟨system, views⟩ along, act_kernel_of_inside computes'
        along', act_eq, act_eq]
      exact swapped.prod_actAt_eq sound apart once direct numbered
  · obtain ⟨j, back, -, -, operands, axis⟩ := swapped.exists_back views along
    exact ⟨j, back, operands, axis⟩
  · intro arena old data covered n m same
    have nodup : out.addresses.Nodup := once out fills.operand_zero direct
    exact keepsNumbers_of_range swapped fills range nodup room data covered same

/-- The rows of a rectangle are added up, along its rows or along the columns of the transposed
one. -/
theorem run_kernel_of_transposed_rows :
    let rows (b : BaseId) : View := { base := some b, dtype := .int64, axes := [⟨2, 3⟩, ⟨3, 1⟩] }
    let columns (b : BaseId) : View := { base := some b, dtype := .int64, axes := [⟨3, 1⟩, ⟨2, 3⟩] }
    let i : Instruction := .sweep (.accumulate .add) (rows 1) (rows 0) 1
    let t : Instruction := .sweep (.accumulate .add) (columns 1) (columns 0) 0
    let arena : Arena := .ofList [.ofBuffer ⟨.int64, (#[1, 2, 3, 4, 5, 6] : Array Int)⟩,
      .ofBuffer ⟨.int64, (#[0, 0, 0, 0, 0, 0] : Array Int)⟩]
    i.transposed 0 1 = .ok t ∧ ∃ sums : Arena,
      (alone (.fresh i) 0 0).run arena = (.ok (), sums) ∧
      (alone (.fresh t) 0 0).run arena = (.ok (), sums) ∧
      (List.range 6).map (fun k => (sums.buffer? 1).bind (·.int? k)) =
        [1, 3, 6, 4, 9, 15].map some := by
  intro rows columns i t arena
  have transposed : i.transposed 0 1 = .ok t := rfl
  have succeeded : ((alone (.fresh i) 0 0).run arena).1 = .ok () :=
    ok_of_toOption (by decide +kernel)
  have values : (List.range 6).map
      (fun k => (((alone (.fresh i) 0 0).run arena).2.buffer? 1).bind (·.int? k)) =
        [1, 3, 6, 4, 9, 15].map some := by decide +kernel
  obtain ⟨sums, run⟩ := Exec.exists_of_ok succeeded
  rw [run] at values
  have same := (run_kernel_of_transposed (by decide) (by decide) (by decide) (by decide) rfl
    transposed).1 (by decide) 0 0 arena sums
  exact ⟨transposed, sums, run, same.mpr run, values⟩

/-- The numbers of the positions of a rectangle change. -/
example : ¬ KeepsNumbers [2, 3] 0 1 := by decide

end Statement

end ArrayFusion
