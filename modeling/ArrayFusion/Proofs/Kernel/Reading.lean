import ArrayFusion.Proofs.Eval.Strides
import ArrayFusion.Proofs.Instruction.Notation
import ArrayFusion.Proofs.Kernel.Structure
import ArrayFusion.Proofs.Nest.Lines

/-!
# Reading the structure text

What the structure text of a kernel shows can be read back from it: the loops with their sizes, the
operations with their axes, and of every operand its number, type and shape, and its start and
strides where these are no parameters. Two kernels with the same structure text agree in all of this.
-/

namespace ArrayFusion

open Text

/-- An instruction whose constant can be seen in its operands: exactly the operands without base stand
for it, and folds and scans take no constant for their output and input. -/
structure Instruction.Legible (i : Instruction) : Prop where
  constant : i.hasConstant = i.constant.isSome
  plain : ∀ v ∈ i.operands, v.base = none → v.start = 0 ∧ v.axes = []
  arrays : i.opcode.isSweep = true → ∀ v ∈ i.operands.take 2, v.base ≠ none

theorem Instruction.legible_iff {i : Instruction} : i.Legible ↔
    i.hasConstant = i.constant.isSome ∧
      (∀ v ∈ i.operands, v.base = none → v.start = 0 ∧ v.axes = []) ∧
      (i.opcode.isSweep = true → ∀ v ∈ i.operands.take 2, v.base ≠ none) :=
  ⟨fun ⟨constant, plain, arrays⟩ => ⟨constant, plain, arrays⟩,
    fun ⟨constant, plain, arrays⟩ => ⟨constant, plain, arrays⟩⟩

instance (i : Instruction) : Decidable i.Legible := decidable_of_iff' _ Instruction.legible_iff

/-- Two constants of an operation are described alike, by number and type or as literals. -/
structure Symbols.SameConstant (s t : Symbols) (op : Opcode) (c c' : Constant) : Prop where
  passed : (s.passing.constants && !op.isSweep) = true →
    t.constantNumber c' = s.constantNumber c ∧ c'.dtype = c.dtype
  literal : (s.passing.constants && !op.isSweep) = false → c'.text = c.text

/-- Two operands are described alike. -/
inductive Symbols.SameOperand (s t : Symbols) (i j : Instruction) (v w : View) : Prop
  | array {b c : BaseId} (base : v.base = some b) (base' : w.base = some c)
      (name : t.baseNumber c = s.baseNumber b) (dtype : w.dtype = v.dtype)
      (shape : w.shape = v.shape)
      (number : s.passing.strides = true → t.viewNumber w = s.viewNumber v)
      (numbers : s.passing.strides = false → w.start = v.start ∧ w.strides = v.strides)
  | constant {c c' : Constant} (base : v.base = none) (base' : w.base = none)
      (shape : w.shape = v.shape) (start : w.start = v.start)
      (own : i.constant = some c) (own' : j.constant = some c')
      (same : s.SameConstant t i.opcode c c')

/-- Two instructions are described alike. -/
structure Symbols.SameInstr (s t : Symbols) (i j : Instruction) : Prop where
  opcode : j.opcode = i.opcode
  axis : j.sweepAxis? = i.sweepAxis?
  operands : List.Forall₂ (s.SameOperand t i j) i.operands j.operands

/-- Two loops are described alike. -/
structure LoopHead.Same (head head' : LoopHead) : Prop where
  rank : head'.rank = head.rank
  size : head'.size = head.size
  sweeps : head'.sweeps.length = head.sweeps.length

/-- A kernel that can be read from its lines: statements stand below one loop for every axis, heads
list the folds and scans along their loops, and constants can be seen in the operands. -/
structure Nest.Legible (k : Nest) : Prop where
  instrs : ∀ s ∈ k.statements, s.instr.Legible
  sweeps : ∀ l ∈ k.toNode.nests, l.head.sweeps = l.statements.filter (Nest.sweepsAlong l.head.rank)
  level : k.toNode.OnLevel (-1)

theorem Nest.legible_iff {k : Nest} : k.Legible ↔ (∀ s ∈ k.statements, s.instr.Legible) ∧
    (∀ l ∈ k.toNode.nests, l.head.sweeps = l.statements.filter (Nest.sweepsAlong l.head.rank)) ∧
      k.toNode.OnLevel (-1) :=
  ⟨fun ⟨instrs, sweeps, level⟩ => ⟨instrs, sweeps, level⟩,
    fun ⟨instrs, sweeps, level⟩ => ⟨instrs, sweeps, level⟩⟩

instance (k : Nest) : Decidable k.Legible := decidable_of_iff' _ Nest.legible_iff

/-- An operand without base stands for the constant. -/
theorem Instruction.Legible.exists_constant {i : Instruction} (h : i.Legible) {v : View}
    (hv : v ∈ i.operands) (base : v.base = none) : ∃ c, i.constant = some c := by
  rw [← Option.isSome_iff_exists, ← h.constant]
  exact List.any_eq_true.mpr ⟨v, hv, by rw [View.isConstant, base]; rfl⟩

namespace Symbols

variable {s t : Symbols} {i j : Instruction} {v w : View} {rest rest' : List Char}

/-! ## Operands -/

/-- Characters of an operand behind the number and the type of its array. -/
def windowText (s : Symbols) (v : View) : List Char :=
  if s.passing.strides then 'v' :: (Nat.toDigits 10 (s.viewNumber v) ++ (bracketed v.shape).toList)
  else '[' :: ((toString v.start).toList ++ ' ' :: ((bracketed v.shape).toList ++
    ' ' :: ((bracketed v.strides).toList ++ [']'])))

/-- Characters of an operand that is an array. -/
theorem toList_operandStructure_array {b : BaseId} (base : v.base = some b) :
    (s.operandStructure i v).toList =
      ' ' :: 'a' :: (Nat.toDigits 10 (s.baseNumber b) ++
        ':' :: (v.dtype.text.toList ++ s.windowText v)) := by
  rw [operandStructure, base, windowText]
  dsimp only
  split <;>
  · simp only [String.toList_append, toList_toString_nat, toList_toString_int, List.append_assoc]
    rfl

/-- Characters of a constant as an operand. -/
def constantText (s : Symbols) (op : Opcode) (c : Constant) : List Char :=
  if s.passing.constants && !op.isSweep then
    'c' :: (Nat.toDigits 10 (s.constantNumber c) ++ ':' :: c.dtype.text.toList)
  else c.text.toList

/-- Characters of an operand that stands for a constant. -/
theorem toList_operandStructure_constant {c : Constant} (base : v.base = none)
    (constant : i.constant = some c) :
    (s.operandStructure i v).toList = ' ' :: s.constantText i.opcode c := by
  rw [operandStructure, base, constant, constantText]
  dsimp only
  split
  · simp only [String.toList_append, toList_toString_nat, List.append_assoc]
    rfl
  · rw [String.toList_append]
    rfl

theorem windowText_append_inj (passing : t.passing = s.passing)
    (same : s.windowText v ++ rest = t.windowText w ++ rest') : w.shape = v.shape ∧
      (s.passing.strides = true → t.viewNumber w = s.viewNumber v) ∧
      (s.passing.strides = false → w.start = v.start ∧ w.strides = v.strides) ∧ rest = rest' := by
  rw [windowText, windowText, passing] at same
  cases strides : s.passing.strides with
  | true =>
    have bracket : ∀ (xs : List Int) (u : List Char),
        Stops Char.isDigit ((bracketed xs).toList ++ u) := by
      intro xs u
      cases xs with
      | nil => exact stops_cons.mpr rfl
      | cons x xs => rw [toList_bracketed_cons]; exact stops_cons.mpr rfl
    simp only [strides, if_true, List.cons_append, List.append_assoc] at same
    obtain ⟨number, more⟩ := digits_append_inj (bracket _ _) (bracket _ _) (List.cons.inj same).2
    obtain ⟨shape, after⟩ := bracketed_append_inj more
    exact ⟨shape.symm, fun _ => number.symm, nofun, after⟩
  | false =>
    simp only [strides, Bool.false_eq_true, if_false, List.cons_append, List.append_assoc] at same
    obtain ⟨start, more⟩ := int_append_inj (stops_cons.mpr rfl) (stops_cons.mpr rfl)
      (List.cons.inj same).2
    obtain ⟨shape, more⟩ := bracketed_append_inj (List.cons.inj more).2
    obtain ⟨strides, more⟩ := bracketed_append_inj (List.cons.inj more).2
    exact ⟨shape.symm, nofun, fun _ => ⟨start.symm, strides.symm⟩, (List.cons.inj more).2⟩

/-- A constant is not taken for an array. -/
theorem constantText_append_ne {op : Opcode} {c : Constant} (ends : EndsWord rest) :
    s.constantText op c ++ rest ≠ 'a' :: rest' := by
  rw [constantText]
  split
  · intro same
    exact absurd (List.cons.inj same).1 (by decide)
  · exact Constant.text_append_ne ends

/-- A constant is read from the text in one way. -/
theorem constantText_append_inj (passing : t.passing = s.passing) {op : Opcode} {c c' : Constant}
    (ends : EndsWord rest) (ends' : EndsWord rest')
    (same : s.constantText op c ++ rest = t.constantText op c' ++ rest') :
    s.SameConstant t op c c' ∧ rest = rest' := by
  rw [constantText, constantText, passing] at same
  cases passed : s.passing.constants && !op.isSweep with
  | true =>
    simp only [passed, if_true, List.cons_append, List.append_assoc] at same
    obtain ⟨number, more⟩ := digits_append_inj (stops_cons.mpr rfl) (stops_cons.mpr rfl)
      (List.cons.inj same).2
    obtain ⟨dtype, after⟩ := DType.text_append_inj (ends.stops rfl rfl) (ends'.stops rfl rfl)
      (List.cons.inj more).2
    exact ⟨⟨fun _ => ⟨number.symm, dtype.symm⟩,
      fun literal => absurd (passed.symm.trans literal) nofun⟩, after⟩
  | false =>
    simp only [passed, Bool.false_eq_true, if_false] at same
    obtain ⟨text, after⟩ := Constant.text_append_inj ends ends' same
    exact ⟨⟨fun number => absurd (passed.symm.trans number) nofun, fun _ => text.symm⟩, after⟩

/-- An array is read from the text in one way. -/
theorem array_append_inj (passing : t.passing = s.passing) {b c : BaseId} (base : v.base = some b)
    (base' : w.base = some c) (same : (s.operandStructure i v).toList ++ rest =
      (t.operandStructure j w).toList ++ rest') : s.SameOperand t i j v w ∧ rest = rest' := by
  have window : ∀ (s : Symbols) (v : View) (u : List Char),
      Stops isTypeChar (s.windowText v ++ u) := by
    intro s v u
    rw [windowText]
    split <;> exact stops_cons.mpr rfl
  rw [toList_operandStructure_array base, toList_operandStructure_array base'] at same
  simp only [List.cons_append, List.append_assoc] at same
  obtain ⟨name, more⟩ := digits_append_inj (stops_cons.mpr rfl) (stops_cons.mpr rfl)
    (List.cons.inj (List.cons.inj same).2).2
  obtain ⟨dtype, more⟩ := DType.text_append_inj (window _ _ _) (window _ _ _) (List.cons.inj more).2
  obtain ⟨shape, number, numbers, after⟩ := windowText_append_inj passing more
  exact ⟨.array base base' name.symm dtype.symm shape number numbers, after⟩

/-- An operand is read from the text in one way. -/
theorem operandStructure_append_inj (passing : t.passing = s.passing) (opcode : j.opcode = i.opcode)
    (legible : i.Legible) (legible' : j.Legible) (hv : v ∈ i.operands) (hw : w ∈ j.operands)
    (ends : EndsWord rest) (ends' : EndsWord rest') (same : (s.operandStructure i v).toList ++ rest =
      (t.operandStructure j w).toList ++ rest') : s.SameOperand t i j v w ∧ rest = rest' := by
  cases base : v.base with
  | none =>
    obtain ⟨c, constant⟩ := legible.exists_constant hv base
    rw [toList_operandStructure_constant base constant] at same
    cases base' : w.base with
    | none =>
      obtain ⟨c', constant'⟩ := legible'.exists_constant hw base'
      rw [toList_operandStructure_constant base' constant', opcode] at same
      obtain ⟨start, axes⟩ := legible.plain v hv base
      obtain ⟨start', axes'⟩ := legible'.plain w hw base'
      have shape : w.shape = v.shape := by rw [View.shape, View.shape, axes, axes']
      obtain ⟨constants, after⟩ :=
        constantText_append_inj passing ends ends' (List.cons.inj same).2
      exact ⟨.constant base base' shape (start'.trans start.symm) constant constant' constants, after⟩
    | some b =>
      rw [toList_operandStructure_array base'] at same
      exact absurd (List.cons.inj same).2 (constantText_append_ne ends)
  | some b =>
    cases base' : w.base with
    | none =>
      obtain ⟨c', constant'⟩ := legible'.exists_constant hw base'
      rw [toList_operandStructure_array base, toList_operandStructure_constant base' constant'] at same
      exact absurd (List.cons.inj same).2.symm (constantText_append_ne ends')
    | some b' => exact array_append_inj passing base base' same

/-- An operand comes after a blank. -/
theorem endsWord_operandStructure (s : Symbols) (i : Instruction) (v : View) (ends : EndsWord rest) :
    EndsWord ((s.operandStructure i v).toList ++ rest) := by
  cases base : v.base with
  | some b => rw [toList_operandStructure_array base]; exact .inl rfl
  | none =>
    cases constant : i.constant with
    | some c => rw [toList_operandStructure_constant base constant]; exact .inl rfl
    | none =>
      rw [operandStructure, base, constant]
      exact ends

/-- The end of a line is not taken for an operand. -/
theorem newline_ne_operandStructure (s : Symbols) (legible : i.Legible) (hv : v ∈ i.operands)
    (more : List Char) : '\n' :: rest ≠ (s.operandStructure i v).toList ++ more := by
  intro same
  cases base : v.base with
  | some b =>
    rw [toList_operandStructure_array base] at same
    exact absurd (List.cons.inj same).1 (by decide)
  | none =>
    obtain ⟨c, constant⟩ := legible.exists_constant hv base
    rw [toList_operandStructure_constant base constant] at same
    exact absurd (List.cons.inj same).1 (by decide)

/-! ## Lines -/

theorem toList_instrStructure (s : Symbols) (i : Instruction) : (s.instrStructure i).toList =
    i.opcode.name.toList ++ (parameterText i.parameter? ++
      (i.operands.flatMap (fun v => (s.operandStructure i v).toList) ++ ['\n'])) := by
  have operation : i.opcode.text.toList ++
      ((i.sweepAxis?.map fun a => s!"({a})").getD "").toList =
      i.opcode.name.toList ++ parameterText i.parameter? := by
    have axis : ∀ a : Option Nat, ((a.map fun a => s!"({a})").getD "").toList = parameterText a := by
      intro a
      cases a with
      | none => rfl
      | some a =>
        simp only [Option.map_some, Option.getD_some, String.toList_append, toList_toString_nat]
        rfl
    rw [axis, Instruction.parameter?, Instruction.sweepAxis?]
    cases i.opcode with
    | extension id =>
      have noSweep : (Opcode.extension id).isSweep = false := rfl
      have opened : "EXT_METHOD(".toList = "EXT_METHOD".toList ++ ['('] := by decide
      rw [Opcode.text, if_neg (ne_true_of_eq_false noSweep)]
      simp only [String.toList_append, toList_toString_nat, List.append_assoc, opened]
      rfl
    | _ => rfl
  rw [instrStructure]
  simp only [String.toList_append, String.toList_join, List.flatMap_map]
  rw [operation, List.append_assoc, List.append_assoc]
  rfl

/-- The operands of an instruction are read from the text in one way. -/
theorem operands_append_inj (passing : t.passing = s.passing) (opcode : j.opcode = i.opcode)
    (legible : i.Legible) (legible' : j.Legible)
    (same : i.operands.flatMap (fun v => (s.operandStructure i v).toList) ++ '\n' :: rest =
      j.operands.flatMap (fun v => (t.operandStructure j v).toList) ++ '\n' :: rest') :
    List.Forall₂ (s.SameOperand t i j) i.operands j.operands ∧ rest = rest' := by
  obtain ⟨operands, after⟩ := forall₂_of_flatMap (E := EndsWord)
    (fun v _ ends => endsWord_operandStructure s i v ends)
    (fun v _ ends => endsWord_operandStructure t j v ends)
    (fun v hv u same => newline_ne_operandStructure t legible' hv u same)
    (fun v hv u same => newline_ne_operandStructure s legible hv u same)
    (.inr rfl) (.inr rfl)
    (fun v hv w hw u u' ends ends' same =>
      operandStructure_append_inj passing opcode legible legible' hv hw ends ends' same) same
  exact ⟨operands, (List.cons.inj after).2⟩

/-- The line of an instruction is read in one way. -/
theorem instrStructure_append_inj (passing : t.passing = s.passing) (legible : i.Legible)
    (legible' : j.Legible)
    (same : (s.instrStructure i).toList ++ rest = (t.instrStructure j).toList ++ rest') :
    s.SameInstr t i j ∧ rest = rest' := by
  rw [toList_instrStructure, toList_instrStructure] at same
  simp only [List.append_assoc] at same
  have operands : ∀ (s : Symbols) (i : Instruction) (u : List Char),
      EndsWord (i.operands.flatMap (fun v => (s.operandStructure i v).toList) ++ '\n' :: u) := by
    intro s i u
    induction i.operands with
    | nil => exact .inr rfl
    | cons v vs ih =>
      rw [List.flatMap_cons, List.append_assoc]
      exact endsWord_operandStructure s i v ih
  have parameter : ∀ (n : Option Nat) {u : List Char}, EndsWord u →
      Stops isNameChar (parameterText n ++ u) := by
    intro n u ends
    cases n with
    | none => exact ends.stops rfl rfl
    | some n => exact stops_cons.mpr rfl
  obtain ⟨names, more⟩ := append_inj_of_stops i.opcode.isNameChar_name j.opcode.isNameChar_name
    (parameter _ (operands s i _)) (parameter _ (operands t j _)) same
  obtain ⟨parameters, more⟩ := parameterText_append_inj (operands s i _) (operands t j _) more
  obtain ⟨opcode, axis⟩ :=
    Instruction.sameOperation (String.toList_inj.mp names).symm parameters.symm
  obtain ⟨same, after⟩ := operands_append_inj passing opcode legible legible' more
  exact ⟨⟨opcode, axis, same⟩, after⟩

theorem toList_headStructure (head : LoopHead) : (headStructure head).toList =
    'L' :: ((toString head.rank).toList ++ ' ' :: ((toString head.size).toList ++
      ' ' :: (Nat.toDigits 10 head.sweeps.length ++ ['\n']))) := by
  rw [headStructure]
  simp only [String.toList_append, toList_toString_nat, List.append_assoc]
  rfl

/-- The line of a loop is read in one way. -/
theorem headStructure_append_inj {head head' : LoopHead}
    (same : (headStructure head).toList ++ rest = (headStructure head').toList ++ rest') :
    head.Same head' ∧ rest = rest' := by
  rw [toList_headStructure, toList_headStructure] at same
  simp only [List.cons_append, List.append_assoc] at same
  obtain ⟨rank, more⟩ := int_append_inj (stops_cons.mpr rfl) (stops_cons.mpr rfl)
    (List.cons.inj same).2
  obtain ⟨size, more⟩ := int_append_inj (stops_cons.mpr rfl) (stops_cons.mpr rfl)
    (List.cons.inj more).2
  obtain ⟨sweeps, more⟩ := digits_append_inj (stops_cons.mpr rfl) (stops_cons.mpr rfl)
    (List.cons.inj more).2
  exact ⟨⟨rank.symm, size.symm, sweeps.symm⟩, (List.cons.inj more).2⟩

/-- A loop is not taken for an instruction. -/
theorem headStructure_append_ne {head : LoopHead} :
    (s.instrStructure i).toList ++ rest ≠ (headStructure head).toList ++ rest' := by
  intro same
  rw [toList_instrStructure, toList_headStructure, List.append_assoc, List.cons_append] at same
  simp only [List.append_assoc] at same
  exact i.opcode.name_append_ne same

/-- Description of a loop without its body, or of an instruction. -/
def lineStructure (s : Symbols) : LoopHead ⊕ Instruction → String :=
  Sum.elim headStructure s.instrStructure

mutual

/-- The text of a node is that of its lines. -/
theorem toList_nodeStructure (s : Symbols) : (n : Node) →
    (s.nodeStructure n).toList = n.lines.flatMap fun e => (s.lineStructure e).toList
  | .leaf _ _ => (List.flatMap_singleton _ _).symm
  | .loop head body => by
      rw [nodeStructure, String.toList_append, toList_bodyStructure s body, Node.lines,
        List.flatMap_cons]
      rfl

/-- The text of a body is that of its lines. -/
theorem toList_bodyStructure (s : Symbols) : (body : List Node) →
    (s.bodyStructure body).toList = (Node.bodyLines body).flatMap fun e => (s.lineStructure e).toList
  | [] => rfl
  | n :: body => by
      rw [bodyStructure, String.toList_append, toList_nodeStructure s n, toList_bodyStructure s body,
        Node.bodyLines, List.flatMap_append]

end

/-- Equal texts have lines that are described alike. -/
theorem lines_of_nodeStructure {s t : Symbols} (passing : t.passing = s.passing) {n n' : Node}
    (legible : ∀ i, .inr i ∈ n.lines → i.Legible) (legible' : ∀ i, .inr i ∈ n'.lines → i.Legible)
    (same : s.nodeStructure n = t.nodeStructure n') :
    List.Forall₂ (Sum.LiftRel LoopHead.Same (s.SameInstr t)) n.lines n'.lines := by
  have chars := congrArg String.toList same
  rw [toList_nodeStructure, toList_nodeStructure, ← List.append_nil (List.flatMap _ n.lines),
    ← List.append_nil (List.flatMap _ n'.lines)] at chars
  have nonempty : ∀ (s : Symbols) (e : LoopHead ⊕ Instruction) (u : List Char),
      [] ≠ (s.lineStructure e).toList ++ u := by
    rintro s (head | i) u same
    · rw [lineStructure, Sum.elim_inl, toList_headStructure] at same
      contradiction
    · rw [lineStructure, Sum.elim_inr, toList_instrStructure] at same
      simp at same
  refine (forall₂_of_flatMap (E := fun _ => True) (fun _ _ _ => trivial) (fun _ _ _ => trivial)
    (fun e _ u => nonempty t e u) (fun e _ u => nonempty s e u) trivial trivial ?_ chars).1
  rintro (head | i) here (head' | j) here' u u' - - same
  · obtain ⟨heads, after⟩ := headStructure_append_inj same
    exact ⟨.inl heads, after⟩
  · exact absurd same.symm headStructure_append_ne
  · exact absurd same headStructure_append_ne
  · obtain ⟨instrs, after⟩ :=
      instrStructure_append_inj passing (legible i here) (legible' j here') same
    exact ⟨.inr instrs, after⟩

/-! ## Kernels -/

theorem SameOperand.shape_eq (h : s.SameOperand t i j v w) : w.shape = v.shape := by
  cases h with
  | array _ _ _ _ shape _ _ => exact shape
  | constant _ _ shape => exact shape

theorem SameInstr.ndim_eq (h : s.SameInstr t i j) : j.ndim = i.ndim := by
  refine Instruction.ndim_congr h.opcode (h.operands.imp fun v w same => ?_)
  have lengths := congrArg List.length same.shape_eq
  rwa [View.length_shape, View.length_shape] at lengths

/-- Instructions that are described alike have constants that are, or none. -/
theorem SameInstr.constant (h : s.SameInstr t i j) (legible : i.Legible) (legible' : j.Legible) :
    Option.Rel (s.SameConstant t i.opcode) i.constant j.constant := by
  have standing : j.hasConstant = i.hasConstant := by
    refine any_eq_of_forall₂ h.operands fun v w same => ?_
    cases same with
    | array base base' => rw [View.isConstant, View.isConstant, base, base']; rfl
    | constant base base' => rw [View.isConstant, View.isConstant, base, base']
  cases constant : i.constant with
  | none =>
    rw [legible.constant, legible'.constant, constant] at standing
    rw [Option.isSome_eq_false_iff.mp standing |> Option.isNone_iff_eq_none.mp]
    exact .none
  | some c =>
    have shown : i.hasConstant = true := by rw [legible.constant, constant]; rfl
    obtain ⟨v, hv, plain⟩ := List.any_eq_true.mp shown
    obtain ⟨w, -, same⟩ := exists_of_forall₂ h.operands.flip hv
    cases same with
    | array base => rw [View.isConstant, base] at plain; contradiction
    | constant _ _ _ _ own own' same =>
      obtain rfl := Option.some.inj (own.symm.trans constant)
      rw [own']
      exact .some same

/-- Kernels with the same structure text have one form, and their loops and instructions are described
alike. -/
theorem related_of_structureText {k k' : Nest} (passing : t.passing = s.passing)
    (legible : k.Legible) (legible' : k'.Legible)
    (same : t.structureText k' = s.structureText k) :
    k.toNode.Related LoopHead.Same (s.SameInstr t) k'.toNode := by
  have instrs : ∀ {k : Nest}, k.Legible → ∀ i, .inr i ∈ k.toNode.lines → i.Legible := by
    intro k legible i here
    obtain ⟨a, ha, rfl⟩ := Node.exists_of_mem_lines _ here
    rw [Nest.statements_toNode] at ha
    exact legible.instrs a ha
  have lines := lines_of_nodeStructure passing (instrs legible) (instrs legible') same.symm
  rw [← List.append_nil (Node.lines _), ← List.append_nil (Node.lines k'.toNode)] at lines
  have levels := Node.lineLevel_eq (H := LoopHead.Same) (I := s.SameInstr t)
    (fun _ _ head => head.rank) fun _ _ instr => instr.ndim_eq
  exact (Node.related_of_lines levels (Node.above_nil _) (Node.above_nil _) _ _ legible.level
    legible'.level lines).1

end Symbols

end ArrayFusion
