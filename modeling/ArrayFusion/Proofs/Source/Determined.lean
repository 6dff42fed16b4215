import ArrayFusion.Proofs.Fusion.Isolation
import ArrayFusion.Proofs.Kernel.Described
import ArrayFusion.Proofs.Source.Heading
import ArrayFusion.Proofs.Source.Literal

/-!
# What determines the source

Kernels are named by the hash of their structure text. The text determines the source up to what it
omits, in all dialects and whatever is passed to kernels: two kernels with one text that agree in the
rest are written alike. The rest is needed, so that kernels with one hash can have different sources.
-/

namespace ArrayFusion

namespace Nest

variable {d : Dialect} {passing : Passing} {k k' : Nest}

/-! ## Constants -/

/-- Constants are written alike. -/
theorem MatchesConstant.constantText_eq {c c' : Constant} (same : k.MatchesConstant passing k' c c') :
    d.constantText (Symbols.ofKernel k' passing) c' =
      d.constantText (Symbols.ofKernel k passing) c := by
  rw [Dialect.constantText, Dialect.constantText, Symbols.passing_ofKernel, Symbols.passing_ofKernel]
  cases passed : passing.constants with
  | true => simp only [if_true, same.number passed, same.dtype]
  | false =>
    simp only [Bool.false_eq_true, if_false, same.text passed,
      FortranExpression.literal?_eq same.dtype (same.text passed)]

/-- The constant of a fold or scan is no operand. -/
theorem constantOperand_eq (s : Symbols) (i : Instruction) :
    d.constantOperand s i = ((Symbols.embedded i).map (d.constantText s)).getD "" := by
  rw [Dialect.constantOperand, Symbols.embedded]
  cases i.opcode.isSweep with
  | true => cases i.constant <;> rfl
  | false => cases i.constant <;> rfl

/-- Random states are written alike. -/
theorem randomText?_eq {i j : Instruction} (same : Option.Rel (k.MatchesConstant passing k')
    i.constant j.constant) (position : String) :
    d.randomText? (Symbols.ofKernel k' passing) j position =
      d.randomText? (Symbols.ofKernel k passing) i position := by
  rw [Dialect.randomText?, Dialect.randomText?, Symbols.passing_ofKernel, Symbols.passing_ofKernel]
  generalize i.constant = c at same
  generalize j.constant = c' at same
  cases same with
  | none => rfl
  | @some c c' same =>
    have type := same.dtype
    cases c with
    | random start key =>
      cases c' with
      | random start' key' =>
        cases passed : passing.constants with
        | true => simp only [same.number passed]; rfl
        | false =>
          obtain ⟨rfl, rfl⟩ := Constant.random.inj (Constant.random_of_text (same.text passed))
          rfl
      | _ => cases type
    | _ =>
      cases c' with
      | random => cases type
      | _ => rfl

namespace Described

variable (h : k.Described d passing k')

include h

/-- Corresponding operands are shown alike. -/
theorem symbols_alike :
    (Symbols.ofKernel k passing).Alike (Symbols.ofKernel k' passing) (k.Matches passing k') where
  passing := rfl
  views v w here := by
    cases base : v.base with
    | none =>
      obtain ⟨start, -, start', -⟩ := h.plain here base
      exact .constant base (here.base_eq_none base) here.shape_eq (start'.trans start.symm)
    | some b =>
      obtain ⟨c, base', same⟩ := here.sameBase base
      refine .array base base' same.number (h.isScalarTemp_eq same) (h.viewNumber_eq here)
        (here.dtype_eq base) here.shape_eq fun strides => ?_
      obtain ⟨start, axes⟩ := here.window_eq strides base
      exact ⟨start, by rw [View.strides, View.strides, axes]⟩
  same _ _ _ _ first second := h.sameAccess_eq first second

/-! ## Instructions -/

section Instructions

variable {a b : Statement} (ha : a ∈ k.statements)
  (same : (Symbols.ofKernel k passing).SameInstr (Symbols.ofKernel k' passing) a.instr b.instr)
  (operands : List.Forall₂ (k.Matches passing k') a.instr.operands b.instr.operands)
  (embedded : Option.Rel (k.MatchesConstant passing k') (Symbols.embedded a.instr)
    (Symbols.embedded b.instr))

include ha same operands embedded

/-- The output and the first input have the same types. -/
theorem operandType?_eq {n : Nat} (early : n < 2) :
    b.instr.operandType? n = a.instr.operandType? n := by
  have operand := forall₂_getElem? operands n
  rw [Instruction.operandType?, Instruction.operandType?]
  cases hv : a.instr.operands[n]? with
  | none =>
    cases hw : b.instr.operands[n]? with
    | none => rfl
    | some w => rw [hv, hw] at operand; cases operand
  | some v =>
    cases hw : b.instr.operands[n]? with
    | none => rw [hv, hw] at operand; cases operand
    | some w =>
      rw [hv, hw, Option.rel_some_some] at operand
      cases base : v.base with
      | some c =>
        obtain ⟨c', base', -⟩ := operand.sameBase base
        simp only [Option.map_some, base, base', operand.dtype_eq base]
      | none =>
        have legible := h.legible.instrs a ha
        have noSweep : a.instr.opcode.isSweep = false := by
          rw [Bool.eq_false_iff]
          intro sweep
          refine legible.arrays sweep v (List.mem_of_getElem? (i := n) ?_) base
          rw [List.getElem?_take_of_lt early, hv]
        obtain ⟨c, constant⟩ := legible.exists_constant (List.mem_of_getElem? hv) base
        rw [Symbols.embedded, Symbols.embedded, same.opcode, noSweep] at embedded
        simp only [Bool.false_eq_true, if_false, constant] at embedded
        simp only [Option.map_some, base, operand.base_eq_none base, constant, same.opcode, noSweep]
        generalize b.instr.constant = c' at embedded
        cases embedded with
        | some matched => simp only [Bool.false_eq_true, if_false, matched.dtype]

/-- Instructions in the same places are shown alike. -/
theorem instr_alike : a.instr.Alike d (Symbols.ofKernel k passing) (Symbols.ofKernel k' passing)
    (k.Matches passing k') b.instr where
  opcode := same.opcode
  operands := operands
  axis := same.axis
  types n early := h.operandType?_eq ha same operands embedded early
  constant := by
    rw [constantOperand_eq, constantOperand_eq]
    generalize Symbols.embedded a.instr = c at embedded
    generalize Symbols.embedded b.instr = c' at embedded
    cases embedded with
    | none => rfl
    | some matched => exact matched.constantText_eq
  random op position := by
    refine randomText?_eq ?_ position
    rw [Symbols.embedded, Symbols.embedded, same.opcode, op] at embedded
    exact embedded
  arrays n v c hv base array := Symbols.isScalarTemp_eq_false passing ha hv base array

end Instructions

/-! ## Loops -/

/-- Heads of loops in the same places are shown alike. -/
theorem heads_alike : List.Forall₂ (fun l l' : Nest => l.head.Alike (Symbols.ofKernel k passing)
    (Symbols.ofKernel k' passing) l'.head) k.toNode.nests k'.toNode.nests := by
  have nests := forall₂_with_mem (Node.Related.nests _ _ h.related)
  refine List.Forall₂.mp ?_ nests h.scalars
  rintro l l' ⟨hl, hl', head, body⟩ scalars
  have statements := Node.BodyRelated.statements _ _ body
  have sweeps : List.Forall₂ (fun a b : Statement => b.instr.opcode = a.instr.opcode)
      l.head.sweeps l'.head.sweeps := by
    rw [h.legible.sweeps l hl, h.legible'.sweeps l' hl', head.rank]
    refine (forall₂_filter statements fun a b same => ?_).imp fun a b same => same.opcode
    rw [sweepsAlong, sweepsAlong, same.axis]
  constructor
  case rank => exact head.rank
  case size => exact head.size
  case sweeps =>
    generalize l.head.sweeps = xs at sweeps
    generalize l'.head.sweeps = ys at sweeps
    cases sweeps <;> rfl
  case scans => exact any_eq_of_forall₂ sweeps fun a b same => by rw [same]
  case scalars =>
    exact map_eq_of_forall₂ scalars fun b c same => by rw [h.dtype_eq same, same.number]

/-- Kernels with the same structure text that agree in the rest are shown alike. -/
theorem nest_alike : k.Alike d (Symbols.ofKernel k passing) (Symbols.ofKernel k' passing)
    (k.Matches passing k') k' := by
  refine Node.Related.upgrade _ _ h.related h.heads_alike ?_
  rw [statements_toNode, statements_toNode]
  have shown := List.Forall₂.mp (fun a b operands embedded => And.intro operands embedded) h.operands
    h.embedded
  refine List.Forall₂.mp ?_ h.statements shown
  rintro a b ⟨ha, -, same, -⟩ ⟨operands, embedded⟩
  exact h.instr_alike ha same operands embedded

/-! ## Headings -/

/-- The parameters for starts and strides have the same names. -/
theorem strideNames_eq :
    (Symbols.ofKernel k' passing).strideNames = (Symbols.ofKernel k passing).strideNames := by
  have chosen := forall₂_filter h.views (p := (Symbols.ofKernel k passing).hasParameters)
    (q := (Symbols.ofKernel k' passing).hasParameters) fun v w here => by
      rw [Symbols.hasParameters, Symbols.hasParameters, Symbols.passing_ofKernel,
        Symbols.passing_ofKernel]
      cases base : v.base with
      | none => rw [here.base_eq_none base]; rfl
      | some b =>
        obtain ⟨c, base', same⟩ := here.sameBase base
        rw [base', Option.any_some, Option.any_some, h.isScalarTemp_eq same]
  refine flatMap_eq_of_forall₂ chosen fun v w here => ?_
  have axes := congrArg List.length here.shape_eq
  rw [View.length_shape, View.length_shape] at axes
  rw [h.viewNumber_eq here, axes]

/-- The headings of kernels with the same structure text that agree in the rest are the same. -/
theorem heading_alike :
    (Symbols.ofKernel k passing).HeadingAlike d (Symbols.ofKernel k' passing) where
  passing := rfl
  params := by
    by_cases fortran : d.isFortran = true
    · have sizes := (forall₂_of_append h.arrayTemps.length_eq h.sizes).2
      rw [if_pos fortran, if_pos fortran] at sizes
      exact sizes.imp fun b c ⟨same, size⟩ => ⟨same.number, h.dtype_eq same, fun _ => size⟩
    · exact h.params.imp fun b c same =>
        ⟨same.number, h.dtype_eq same, fun sized => absurd sized fortran⟩
  arrayTemps := by
    have sizes := (forall₂_of_append h.arrayTemps.length_eq h.sizes).1
    exact sizes.imp fun b c ⟨same, size⟩ => ⟨same.number, h.dtype_eq same, fun _ => size⟩
  strideNames := h.strideNames_eq
  constants := by
    rw [Symbols.passedConstants, Symbols.passedConstants, Symbols.passing_ofKernel,
      Symbols.passing_ofKernel]
    cases passed : passing.constants with
    | true =>
      refine (h.constants passed).imp fun c c' same => ⟨?_, same.dtype⟩
      rw [Symbols.constantName, Symbols.constantName, same.number passed]
    | false => exact .nil
  uses type := by
    have bases : (Symbols.ofKernel k' passing).bases.any
        ((Symbols.ofKernel k' passing).dtype · == type) =
        (Symbols.ofKernel k passing).bases.any ((Symbols.ofKernel k passing).dtype · == type) :=
      any_eq_of_forall₂ h.bases fun b c same => by rw [h.dtype_eq same]
    have constants : (Symbols.ofKernel k' passing).constants.any (·.dtype == type) =
        (Symbols.ofKernel k passing).constants.any (·.dtype == type) := by
      have types := h.mem_constantTypes type
      rw [Bool.eq_iff_iff]
      simpa only [List.mem_map, List.any_eq_true, beq_iff_eq] using types
    rw [Symbols.uses, Symbols.uses, bases, constants]
  constantTypes := h.mem_constantTypes
  usesRandom := h.usesRandom_eq
  hash := by rw [Symbols.hash_ofKernel, Symbols.hash_ofKernel, h.text]

end Described

end Nest

/-! ## Fused kernels -/

/-- An instruction with another shape shows its constant as before. -/
theorem Instruction.ReshapesTo.legible {i j : Instruction} (h : i.ReshapesTo j) (wf : i.WellFormed)
    (legible : i.Legible) : j.Legible := by
  have similar := h.similar wf
  obtain rfl | ⟨-, reshaped⟩ := h
  · exact legible
  obtain ⟨reshapable, -, operands⟩ := operands_of_reshape reshaped
  have elementwise := (Bool.and_eq_true_iff.mp reshapable).1
  constructor
  case constant =>
    rw [similar.constant, ← legible.constant]
    exact any_eq_of_forall₂ similar.operands fun v w same => same.isConstant
  case plain =>
    intro w hw base
    obtain ⟨v, hv, changed, same⟩ := exists_of_forall₂
      (List.Forall₂.mp (fun v w changed same => And.intro changed same) operands similar.operands) hw
    have constant : v.isConstant = true := by
      rw [← same.isConstant, View.isConstant, base]
      rfl
    rw [if_pos constant] at changed
    obtain rfl : v = w := Except.ok.inj changed
    exact legible.plain v hv base
  case arrays =>
    intro sweep
    rw [similar.opcode, not_isSweep_of_isElementwise elementwise] at sweep
    contradiction

/-- A kernel of well laid out loops is legible if its instructions are. -/
theorem Nest.legible_kernel {ls : List Nest} (laidOut : ∀ l ∈ ls, l.toNode.Layout [])
    (instrs : ∀ l ∈ ls, ∀ s ∈ l.statements, s.instr.Legible) (next : Nat) :
    (Nest.kernel (ls.map toNode) next).1.Legible := by
  constructor
  case instrs =>
    intro s hs
    have inside : s ∈ Node.bodyStatements (ls.map toNode) := hs
    rw [Node.bodyStatements_eq_flatMap, List.flatMap_map, List.mem_flatMap] at inside
    obtain ⟨l, hl, hs⟩ := inside
    rw [statements_toNode] at hs
    exact instrs l hl s hs
  case sweeps =>
    rintro l (_ | ⟨_, inner⟩)
    · rfl
    · have inside : l ∈ Node.bodyNests (ls.map toNode) := inner
      rw [Node.bodyNests_eq_flatMap, List.flatMap_map, List.mem_flatMap] at inside
      obtain ⟨m, hm, hl⟩ := inside
      obtain ⟨outer, layout⟩ := layout_of_mem_nests (laidOut m hm) l hl
      cases layout with
      | loop rank size records together nodes => exact records.sweeps
  case level =>
    refine ⟨rfl, Node.bodyOnLevel_iff.mpr fun n hn => ?_⟩
    obtain ⟨l, hl, rfl⟩ := List.mem_map.mp hn
    exact (laidOut l hl).onLevel (.inr rfl)

/-- Kernels of loops that fusion leaves are legible if the instructions of the program are. -/
theorem Fusion.legible_of_fuse {separate : Bool} {ss : List Statement}
    (views : ∀ s ∈ ss, s.instr.WellFormed) (instrs : ∀ s ∈ ss, s.instr.Legible) {n m : Nat}
    {ls chosen : List Nest} (fused : fuse separate ss n = .ok (ls, m)) (left : ∀ l ∈ chosen, l ∈ ls)
    (next : Nat) : (kernel chosen next).1.Legible := by
  have faithful := faithful_of_fuse views fused
  refine Nest.legible_kernel (fun l hl => faithful.laidOut l (left l hl)) (fun l hl t ht => ?_) next
  obtain ⟨s, hs, computes, reshaped⟩ := faithful.source (left l hl) ht
  exact reshaped.instr.legible computes.views (instrs s hs)

/-- The structure text of a kernel, together with what it omits, determines the source in all
dialects and whatever is passed to kernels: of two kernels that agree in both, either each is written
with the same text, or none is written. Both have the same hash. -/
theorem Dialect.write_of_structureText (d : Dialect) {passing : Passing} {k k' : Nest}
    (legible : k.Legible) (legible' : k'.Legible)
    (text : (Symbols.ofKernel k' passing).structureText k' =
      (Symbols.ofKernel k passing).structureText k)
    (omitted : d.omitted k' passing = d.omitted k passing) :
    (d.write k' passing).toOption.map (·.text) = (d.write k passing).toOption.map (·.text) ∧
      (Symbols.ofKernel k' passing).hash = (Symbols.ofKernel k passing).hash := by
  have described : k.Described d passing k' := ⟨legible, legible', text, omitted⟩
  constructor
  · exact write_alike described.symbols_alike described.heading_alike described.nest_alike
  · exact described.heading_alike.hash

/-- A row is copied into a temporary and doubled, and so is a row of other bases at another place. -/
theorem Dialect.write_of_structureText_rows :
    let row (b : BaseId) (start : Int) : View :=
      { base := some b, dtype := .int64, start, axes := [⟨4, 1⟩] }
    let copy (b : BaseId) (start : Int) : Instruction :=
      { opcode := .unary .identity, operands := [row (b + 1) 0, row b start], creates := true }
    let double (b : BaseId) : Instruction :=
      { opcode := .binary .add, operands := [row (b + 2) 0, row (b + 1) 0, row (b + 1) 0] }
    let k (b : BaseId) (start : Int) : Nest :=
      (Fusion.kernel
        [(Nest.ofStatements 0 [b + 1] [.fresh (copy b start), .fresh (double b)] 0).1] 0).1
    let d : Dialect := { target := .openmp }
    (d.write (k 5 3) {}).toOption.map (·.text) = (d.write (k 0 0) {}).toOption.map (·.text) ∧
      (Symbols.ofKernel (k 5 3) {}).hash = (Symbols.ofKernel (k 0 0) {}).hash := by
  intro row copy double k d
  have legible : (k 0 0).Legible := by decide +kernel
  have legible' : (k 5 3).Legible := by decide +kernel
  have text : (Symbols.ofKernel (k 5 3) {}).structureText (k 5 3) =
      (Symbols.ofKernel (k 0 0) {}).structureText (k 0 0) := by decide +kernel
  have omitted : d.omitted (k 5 3) {} = d.omitted (k 0 0) {} := by decide +kernel
  exact write_of_structureText d legible legible' text omitted

-- A base that is created and freed in a loop is a scalar there. The text is that of a kernel that
-- stores into a parameter.
example :
    let row (b : BaseId) : View := { base := some b, dtype := .int64, axes := [⟨4, 1⟩] }
    let double (creates : Bool) : Instruction :=
      { opcode := .binary .add, operands := [row 1, row 0, row 0], creates }
    let k (temps : List BaseId) : Nest :=
      (Fusion.kernel [(Nest.ofStatements 0 temps [.fresh (double !temps.isEmpty)] 0).1] 0).1
    let d : Dialect := { target := .openmp }
    (Symbols.ofKernel (k [1]) {}).structureText (k [1]) =
        (Symbols.ofKernel (k []) {}).structureText (k []) ∧
      (d.write (k [1]) {}).toOption.map (·.text) ≠ (d.write (k []) {}).toOption.map (·.text) := by
  decide +kernel

end ArrayFusion
