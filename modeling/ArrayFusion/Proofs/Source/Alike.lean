import ArrayFusion.Proofs.Eval.Strides
import ArrayFusion.Proofs.Instruction.Reshape
import ArrayFusion.Proofs.Lists
import ArrayFusion.Source.Kernel

/-!
# Instructions that are written alike

The source of a kernel shows bases, views and constants by their numbers, and of a view only its
type, its shape, and where starts and strides are no parameters, these. Two instructions that agree
in what is shown become the same statement, in scopes that agree in what is shown. The relation `R`
says which operands of two kernels correspond.
-/

namespace ArrayFusion

/-- Two views are shown alike: constants, or windows of one shape under the same names. -/
inductive View.Alike (s t : Symbols) (v w : View) : Prop
  | constant (base : v.base = none) (base' : w.base = none) (shape : w.shape = v.shape)
      (start : w.start = v.start)
  | array {b c : BaseId} (base : v.base = some b) (base' : w.base = some c)
      (name : t.baseNumber c = s.baseNumber b) (scalar : t.isScalarTemp c = s.isScalarTemp b)
      (number : t.viewNumber w = s.viewNumber v) (dtype : w.dtype = v.dtype)
      (shape : w.shape = v.shape)
      (numbers : s.passing.strides = false → w.start = v.start ∧ w.strides = v.strides)

/-- Corresponding views are shown alike, and are the same access in one kernel exactly if they are
in the other. -/
structure Symbols.Alike (s t : Symbols) (R : View → View → Prop) : Prop where
  passing : t.passing = s.passing
  views : ∀ v w, R v w → v.Alike s t w
  same : ∀ v w v' w', R v w → R v' w' → w.sameAccess w' = v.sameAccess v'

/-- The constant of an instruction as an operand. -/
def Dialect.constantOperand (d : Dialect) (s : Symbols) (i : Instruction) : String :=
  match i.constant with
  | some c => if i.opcode.isSweep then "" else d.constantText s c
  | none => ""

/-- Two instructions are shown alike. Arrays that are addressed by value, and the outputs of folds
and scans, are no scalars. -/
structure Instruction.Alike (d : Dialect) (s t : Symbols) (R : View → View → Prop)
    (i j : Instruction) : Prop where
  opcode : j.opcode = i.opcode
  operands : List.Forall₂ R i.operands j.operands
  axis : j.sweepAxis? = i.sweepAxis?
  types : ∀ k < 2, j.operandType? k = i.operandType? k
  constant : d.constantOperand t j = d.constantOperand s i
  random : i.opcode = .random →
    ∀ position, d.randomText? t j position = d.randomText? s i position
  arrays : ∀ k v b, i.operands[k]? = some v → v.base = some b →
    (i.isIndirect k || (k == 0 && i.opcode.isSweep)) = true → s.isScalarTemp b = false

/-- Two loop bodies have the same names. -/
structure Frame.Alike (R : View → View → Prop) (f g : Frame) : Prop where
  rank : g.rank = f.rank
  replaced : List.Forall₂ R f.replaced g.replaced
  indexVars : g.indexVars = f.indexVars
  guarded : List.Forall₂ (fun p q => R p.1 q.1 ∧ q.2 = p.2) f.guarded g.guarded
  openingAxis : g.openingAxis = f.openingAxis

/-- Two scopes have the same names. -/
structure Scope.Alike (s t : Symbols) (R : View → View → Prop) (x y : Scope) : Prop where
  symbols : x.symbols = s
  symbols' : y.symbols = t
  threadedRanks : y.threadedRanks = x.threadedRanks
  frame : x.frame.Alike R y.frame
  outer : List.Forall₂ (Frame.Alike R) x.outer y.outer

namespace View.Alike

variable {s t : Symbols} {v w : View}

theorem shape_eq (h : v.Alike s t w) : w.shape = v.shape := by
  cases h with
  | constant _ _ shape _ => exact shape
  | array _ _ _ _ _ _ shape _ => exact shape

theorem ndim_eq (h : v.Alike s t w) : w.ndim = v.ndim := by
  have lengths := congrArg List.length h.shape_eq
  rwa [View.length_shape, View.length_shape] at lengths

theorem isConstant_eq (h : v.Alike s t w) : w.isConstant = v.isConstant := by
  cases h with
  | constant base base' _ _ => rw [View.isConstant, View.isConstant, base, base']
  | array base base' => rw [View.isConstant, View.isConstant, base, base']; rfl

end View.Alike

namespace Instruction

/-- The types of the operands stand in their places. -/
theorem getElem?_operandTypes (i : Instruction) (k : Nat) :
    i.operandTypes[k]? = i.operandType? k := by
  have all : ∀ k ∈ List.range i.operands.length, i.operandType? k ≠ none := by
    intro k hk
    rw [operandType?, List.getElem?_eq_getElem (List.mem_range.mp hk)]
    exact Option.some_ne_none _
  have types : i.operandTypes.map some = (List.range i.operands.length).map i.operandType? := by
    rw [operandTypes]
    generalize List.range i.operands.length = ks at all
    induction ks with
    | nil => rfl
    | cons k ks ih =>
      obtain ⟨own, others⟩ := List.forall_mem_cons.mp all
      obtain ⟨type, found⟩ := Option.ne_none_iff_exists'.mp own
      rw [List.filterMap_cons, found, List.map_cons, List.map_cons, ih others, found]
  have here := congrArg (·[k]?) types
  simp only [List.getElem?_map] at here
  by_cases inside : k < i.operands.length
  · rw [List.getElem?_range inside] at here
    cases found : i.operandTypes[k]? <;> simp_all
  · rw [List.getElem?_eq_none (l := List.range _) (by simpa using inside)] at here
    rw [operandType?, List.getElem?_eq_none (Nat.le_of_not_lt inside)]
    simpa using here

namespace Alike

variable {d : Dialect} {s t : Symbols} {R : View → View → Prop} {i j : Instruction}

theorem isIndirect (h : i.Alike d s t R j) (k : Nat) : j.isIndirect k = i.isIndirect k := by
  rw [Instruction.isIndirect, h.opcode, Instruction.isIndirect]

theorem operandAxis? (symbols : s.Alike t R) (h : i.Alike d s t R j) (k axis : Nat) :
    j.operandAxis? k axis = i.operandAxis? k axis := by
  refine operandAxis?_congr h.opcode h.axis (h.operands.imp fun v w related => ?_) k axis
  exact ⟨(symbols.views v w related).isConstant_eq, (symbols.views v w related).ndim_eq⟩

/-- Both are carried out at positions of the same shape. -/
theorem shape (symbols : s.Alike t R) (h : i.Alike d s t R j) : j.shape = i.shape := by
  have shapes : List.Forall₂ (fun v w : View => w.shape = v.shape) i.operands j.operands :=
    h.operands.imp fun v w related => (symbols.views v w related).shape_eq
  have opcode := h.opcode
  obtain ⟨op, vs, constant, creates⟩ := i
  obtain ⟨op', ws, constant', creates'⟩ := j
  obtain rfl : op' = op := opcode
  simp only at shapes
  rw [Instruction.shape, Instruction.shape]
  cases shapes with
  | nil => rfl
  | cons first rest =>
    cases rest with
    | nil => cases op' <;> simp [first, Opcode.isSystem]
    | cons second rest => cases op' <;> simp [first, second, Opcode.isSystem]

theorem ndim (symbols : s.Alike t R) (h : i.Alike d s t R j) : j.ndim = i.ndim :=
  congrArg List.length (h.shape symbols)

theorem outputIsScalar (symbols : s.Alike t R) (h : i.Alike d s t R j) :
    j.outputBase?.map t.isScalarTemp = i.outputBase?.map s.isScalarTemp := by
  rw [outputBase?, outputBase?, List.head?_eq_getElem?, List.head?_eq_getElem?]
  have output := forall₂_getElem? h.operands 0
  generalize i.operands[0]? = v at output
  generalize j.operands[0]? = w at output
  cases output with
  | none => rfl
  | @some v w related =>
    cases symbols.views v w related with
    | constant base base' => simp [base, base']
    | array base base' name scalar => simp [base, base', scalar]

end Alike

end Instruction

namespace Scope.Alike

variable {s t : Symbols} {R : View → View → Prop} {x y : Scope} {v w : View}

theorem frames (h : x.Alike s t R y) : List.Forall₂ (Frame.Alike R) x.frames y.frames :=
  .cons h.frame h.outer

theorem isReplaced (symbols : s.Alike t R) (h : x.Alike s t R y) (related : R v w) :
    y.isReplaced w = x.isReplaced v := by
  refine any_eq_of_forall₂ h.frames fun f g frame => ?_
  exact any_eq_of_forall₂ frame.replaced fun v' w' other => symbols.same _ _ _ _ other related

theorem protection? (symbols : s.Alike t R) (h : x.Alike s t R y) (related : R v w) :
    y.protection? w = x.protection? v := by
  refine findSome?_eq_of_forall₂ h.frames fun f g frame => ?_
  have guarded := frame.guarded
  generalize f.guarded = ps at guarded
  generalize g.guarded = qs at guarded
  induction guarded with
  | nil => rfl
  | @cons p q _ _ first _ ih =>
    have same := symbols.same _ _ _ _ first.1 related
    rw [List.find?_cons, List.find?_cons, same]
    cases p.1.sameAccess v with
    | true => exact congrArg some first.2
    | false => exact ih

theorem isOpening (h : x.Alike s t R y) (axis : Nat) : y.isOpening axis = x.isOpening axis :=
  any_eq_of_forall₂ h.frames fun f g frame => by rw [frame.openingAxis]

theorem indexVar? (h : x.Alike s t R y) (e : String) : y.indexVar? e = x.indexVar? e := by
  rw [Scope.indexVar?, Scope.indexVar?, h.frame.indexVars]

/-! ## Scopes that grow alike -/

theorem root (s t : Symbols) (R : View → View → Prop) (ranks : Nat) :
    (Scope.root s ranks).Alike s t R (Scope.root t ranks) :=
  ⟨rfl, rfl, rfl, ⟨rfl, .nil, rfl, .nil, rfl⟩, .nil⟩

theorem child (h : x.Alike s t R y) (rank : Int) : (x.child rank).Alike s t R (y.child rank) :=
  ⟨h.symbols, h.symbols', h.threadedRanks, ⟨rfl, .nil, rfl, .nil, rfl⟩, .cons h.frame h.outer⟩

theorem replace (h : x.Alike s t R y) (related : R v w) :
    (x.replace v).Alike s t R (y.replace w) where
  symbols := h.symbols
  symbols' := h.symbols'
  threadedRanks := h.threadedRanks
  frame := { h.frame with replaced := .cons related h.frame.replaced }
  outer := h.outer

theorem guard (h : x.Alike s t R y) (related : R v w) (p : Protection) :
    (x.guard v p).Alike s t R (y.guard w p) where
  symbols := h.symbols
  symbols' := h.symbols'
  threadedRanks := h.threadedRanks
  frame := { h.frame with guarded := .cons ⟨related, rfl⟩ h.frame.guarded }
  outer := h.outer

theorem openAxis (h : x.Alike s t R y) (axis : Nat) :
    (x.openAxis axis).Alike s t R (y.openAxis axis) where
  symbols := h.symbols
  symbols' := h.symbols'
  threadedRanks := h.threadedRanks
  frame := { h.frame with openingAxis := rfl }
  outer := h.outer

/-- Both scopes get the same variable for an index expression. -/
theorem addIndexVar (h : x.Alike s t R y) (e : String) :
    (x.addIndexVar e).1.Alike s t R (y.addIndexVar e).1 ∧
      (y.addIndexVar e).2 = (x.addIndexVar e).2 := by
  rw [Scope.addIndexVar, Scope.addIndexVar, h.indexVar? e, h.frame.rank, h.frame.indexVars]
  cases x.indexVar? e with
  | some name => exact ⟨h, rfl⟩
  | none =>
    refine ⟨⟨h.symbols, h.symbols', h.threadedRanks, ?_, h.outer⟩, rfl⟩
    exact { h.frame with indexVars := rfl }

end Scope.Alike

section Statements

variable {d : Dialect} {s t : Symbols} {R : View → View → Prop} {x y : Scope} {i j : Instruction}
  {v w : View} {b : BaseId} {k : Nat}

/-- A window that no scalar stands for has the same index. -/
theorem IndexExpr.ofOperand_alike (symbols : s.Alike t R) (h : i.Alike d s t R j)
    (related : R v w) (base : v.base = some b) (array : s.isScalarTemp b = false)
    (shift : Option (Nat × Int)) :
    ofOperand t j k w shift = ofOperand s i k v shift := by
  cases symbols.views v w related with
  | constant none => exact absurd (base.symm.trans none) nofun
  | @array b' c base' other name scalar number dtype shape numbers =>
    obtain rfl : b = b' := Option.some.inj (base.symm.trans base')
    have parameters : s.hasParameters v = s.passing.strides := by
      simp [Symbols.hasParameters, base, array]
    have parameters' : t.hasParameters w = s.passing.strides := by
      simp [Symbols.hasParameters, other, scalar, array, symbols.passing]
    simp only [ofOperand, parameters, parameters', number, h.operandAxis? symbols, h.ndim symbols]
    cases passed : s.passing.strides with
    | true => simp
    | false => rw [(numbers passed).1, (numbers passed).2]

namespace Dialect

theorem operandText_alike (symbols : s.Alike t R) (scope : x.Alike s t R y)
    (h : i.Alike d s t R j) (related : R v w) (k : Nat) :
    d.operandText y j k w = d.operandText x i k v := by
  have shown := symbols.views v w related
  cases shown with
  | constant base base' =>
    have constant := h.constant
    rw [constantOperand, constantOperand] at constant
    rw [operandText, operandText, base, base', scope.symbols, scope.symbols']
    exact constant
  | @array b c base base' name scalar number =>
    rw [operandText, operandText, base, base']
    dsimp only
    rw [Scope.isScalarTemp, Scope.isScalarTemp, scope.symbols, scope.symbols', scalar,
      Symbols.tempName, Symbols.tempName, name, scope.isReplaced symbols related,
      Symbols.scalarName, Symbols.scalarName, number, Symbols.arrayName, Symbols.arrayName, name,
      h.isIndirect]
    cases array : s.isScalarTemp b with
    | true => rfl
    | false =>
      rw [IndexExpr.ofOperand_alike symbols h related base array, scope.indexVar?]

theorem operandTexts_alike (symbols : s.Alike t R) (scope : x.Alike s t R y)
    (h : i.Alike d s t R j) : d.operandTexts y j = d.operandTexts x i := by
  apply List.ext_getElem?
  intro k
  rw [operandTexts, operandTexts, List.getElem?_mapIdx, List.getElem?_mapIdx]
  have operand := forall₂_getElem? h.operands k
  generalize i.operands[k]? = v at operand
  generalize j.operands[k]? = w at operand
  cases operand with
  | none => rfl
  | some related => exact congrArg some (operandText_alike symbols scope h related k)

theorem isElement_alike (symbols : s.Alike t R) (scope : x.Alike s t R y)
    (h : i.Alike d s t R j) (related : R v w) (k : Nat) :
    y.isElement j k w = x.isElement i k v := by
  have shown := symbols.views v w related
  cases shown with
  | constant base base' => rw [Scope.isElement, Scope.isElement, base, base']
  | @array b c base base' name scalar =>
    rw [Scope.isElement, Scope.isElement, base, base']
    dsimp only
    rw [Scope.isScalarTemp, Scope.isScalarTemp, scope.symbols, scope.symbols', scalar,
      scope.isReplaced symbols related, h.isIndirect]

/-- The result so far of a fold or scan is the same. -/
theorem resultText_alike (symbols : s.Alike t R) (scope : x.Alike s t R y)
    (h : i.Alike d s t R j) (axis : Nat) :
    (d.resultText y j axis).toOption = (d.resultText x i axis).toOption := by
  have arrays := h.arrays 0
  rw [resultText, resultText, h.opcode]
  have operands := h.operands
  generalize hvs : i.operands = vs at operands
  generalize hws : j.operands = ws at operands
  cases operands with
  | nil => rfl
  | @cons v w vs ws first rest =>
    dsimp only
    split
    next scan =>
      have sweep : i.opcode.isSweep = true := by
        revert scan
        cases i.opcode <;> simp [Opcode.isAccumulate, Opcode.isSweep]
      have shown := symbols.views v w first
      cases shown with
      | constant base base' => rw [base, base']; rfl
      | @array b c base base' name =>
        have array := arrays v b (by rw [hvs]; rfl) base (by simp [sweep])
        have array' : t.arrayName c = s.arrayName b := by
          rw [Symbols.arrayName, name, Symbols.arrayName]
        rw [base, base', scope.symbols, scope.symbols']
        dsimp only
        rw [IndexExpr.ofOperand_alike symbols h first base array, array']
    next => rw [operandText_alike symbols scope h first]

/-- An operation shows the types of its output and its first input. -/
theorem operation_congr {op : Opcode} {types types' : List DType} {texts : List String}
    (same : ∀ k < 2, types'[k]? = types[k]?) :
    d.operation op types' texts = d.operation op types texts := by
  have out : types'.head? = types.head? := by
    rw [List.head?_eq_getElem?, List.head?_eq_getElem?, same 0 (by decide)]
  rw [operation, operation, out, same 1 (by decide)]

theorem types_alike (h : i.Alike d s t R j) : ∀ k < 2, j.operandTypes[k]? = i.operandTypes[k]? := by
  intro k hk
  rw [Instruction.getElem?_operandTypes, Instruction.getElem?_operandTypes, h.types k hk]

theorem sweepText_alike (symbols : s.Alike t R) (scope : x.Alike s t R y)
    (h : i.Alike d s t R j) (op : Binary) (axis : Nat) :
    (d.sweepText y j op axis).toOption = (d.sweepText x i op axis).toOption := by
  have types := types_alike h
  have result := resultText_alike symbols scope h axis
  rw [sweepText, sweepText, operandTexts_alike symbols scope h, scope.isOpening]
  generalize d.operandTexts x i = texts
  generalize i.operandTypes = ts at types
  generalize j.operandTypes = ts' at types
  have out := types 0 (by decide)
  have input := types 1 (by decide)
  match texts, ts, ts' with
  | [], _, _ | [_], _, _ | _ :: _ :: _, [], [] | _ :: _ :: _, [_], [_] =>
    cases x.isOpening axis with
    | true => rfl
    | false => simp [toOption_bind, result]
  | _ :: _ :: _, a :: a' :: _, b :: b' :: _ =>
    obtain rfl : b = a := Option.some.inj out
    obtain rfl : b' = a' := Option.some.inj input
    cases x.isOpening axis with
    | true => rfl
    | false => simp [-bind_pure_comp, toOption_bind, result]
  | _ :: _ :: _, [], _ :: _ | _ :: _ :: _, _ :: _, [] => simp at out
  | _ :: _ :: _, [_], _ :: _ :: _ | _ :: _ :: _, _ :: _ :: _, [_] => simp at input

/-- The start of an array that is addressed by value is the same. -/
theorem startText_alike (symbols : s.Alike t R) (h : i.Alike d s t R j)
    (hv : i.operands[k]? = some v) (related : R v w) (indirect : i.isIndirect k = true) :
    t.startText w = s.startText v := by
  cases symbols.views v w related with
  | constant base base' shape start =>
    simp [Symbols.startText, Symbols.hasParameters, base, base', start]
  | @array b c base base' name scalar number dtype shape numbers =>
    have array := h.arrays k v b hv base (by simp [indirect])
    simp only [Symbols.startText, Symbols.hasParameters, symbols.passing, base, base', number]
    cases passed : s.passing.strides with
    | true => simp [scalar, array]
    | false => simp [(numbers passed).1]

theorem indirectText_alike (symbols : s.Alike t R) (scope : x.Alike s t R y)
    (h : i.Alike d s t R j) (hv : i.operands[k]? = some v) (related : R v w)
    (indirect : i.isIndirect k = true) (name index : String) :
    d.indirectText y w name index = d.indirectText x v name index := by
  rw [indirectText, indirectText, scope.symbols, scope.symbols',
    startText_alike symbols h hv related indirect]

theorem positionText_alike (symbols : s.Alike t R) (h : i.Alike d s t R j) :
    positionText j = positionText i := by
  rw [positionText, positionText, h.shape symbols]

/-- What an instruction computes is written alike. -/
theorem computation_alike (symbols : s.Alike t R) (scope : x.Alike s t R y)
    (h : i.Alike d s t R j) :
    (d.computation y j).toOption = (d.computation x i).toOption := by
  have indirect := fun k v w hv related =>
    indirectText_alike (k := k) (v := v) (w := w) symbols scope h hv related
  have types : d.operation i.opcode j.operandTypes (d.operandTexts x i) =
      d.operation i.opcode i.operandTypes (d.operandTexts x i) := operation_congr (types_alike h)
  have operands := h.operands
  rw [computation, computation, h.opcode, h.axis, operandTexts_alike symbols scope h,
    positionText_alike symbols h, scope.symbols, scope.symbols']
  generalize d.operandTexts x i = texts at types
  cases op : i.opcode with
  | reduce | accumulate =>
    cases i.sweepAxis? with
    | none => rfl
    | some axis => exact sweepText_alike symbols scope h _ axis
  | gather =>
    have second : i.isIndirect 1 = true := by rw [Instruction.isIndirect, op]; rfl
    generalize hvs : i.operands = vs at operands
    generalize hws : j.operands = ws at operands
    cases operands with
    | nil => rfl
    | cons _ rest =>
      cases rest with
      | nil => rfl
      | cons related _ =>
        have start := indirect 1 _ _ (by rw [hvs]; rfl) related second
        rcases texts with _ | ⟨_, _ | ⟨_, _ | ⟨_, _⟩⟩⟩
        · rfl
        · rfl
        · rfl
        · simp [start]
  | scatter | condScatter =>
    have first : i.isIndirect 0 = true := by rw [Instruction.isIndirect, op]; rfl
    generalize hvs : i.operands = vs at operands
    generalize hws : j.operands = ws at operands
    cases operands with
    | nil => rfl
    | cons related _ =>
      have start := indirect 0 _ _ (by rw [hvs]; rfl) related first
      rcases texts with _ | ⟨_, _ | ⟨_, _ | ⟨_, _ | ⟨_, _⟩⟩⟩⟩
      · rfl
      · rfl
      · rfl
      · simp [start]
      · simp [start]
  | binary | unary | free | none | sync | extension =>
    rw [op] at types
    exact congrArg some types
  | range => rfl
  | random => simp only [h.random op]

/-- The updates of a fold are protected alike. -/
theorem protection?_alike (symbols : s.Alike t R) (scope : x.Alike s t R y)
    (h : i.Alike d s t R j) : Dialect.protection? y j = Dialect.protection? x i := by
  rw [protection?, protection?, h.opcode, List.head?_eq_getElem?, List.head?_eq_getElem?]
  have output := forall₂_getElem? h.operands 0
  generalize i.operands[0]? = v at output
  generalize j.operands[0]? = w at output
  cases output with
  | none => rfl
  | some related => simp [scope.protection? symbols related]

/-- Instructions that are shown alike become the same code. -/
theorem statement_alike (symbols : s.Alike t R) (scope : x.Alike s t R y)
    (h : i.Alike d s t R j) :
    (d.statement y j).toOption = (d.statement x i).toOption := by
  rw [statement, statement, h.opcode]
  split
  · rfl
  · rw [toOption_bind, toOption_bind, computation_alike symbols scope h,
      protection?_alike symbols scope h]
    refine congrArg (Option.bind _) (funext fun text => ?_)
    cases text with
    | none => rfl
    | some text => rfl

end Dialect

end Statements

end ArrayFusion
