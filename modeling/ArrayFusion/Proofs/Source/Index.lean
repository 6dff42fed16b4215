import ArrayFusion.Proofs.Eval.Strides
import ArrayFusion.Proofs.Eval.Visits
import ArrayFusion.Proofs.Kernel.Numbers
import ArrayFusion.Proofs.Kernel.Symbols
import ArrayFusion.Proofs.Source.Expression
import ArrayFusion.Source.Kernel

/-!
# Array indices denote offsets

A kernel gets the starts and strides of its views by position: the names in its head and the values
that the launcher passes are two lists in the same order. With these values the index of an operand
has the value of the offset at which the operand is accessed, whether starts and strides are numbers
or parameters.
-/

namespace ArrayFusion

open Expression Text

/-! ## Names -/

theorem indexName_injective {m n : Nat} (same : indexName m = indexName n) : m = n := by
  have lists := congrArg String.toList same
  rw [toList_indexName, toList_indexName] at lists
  exact digits_injective (List.tail_eq_of_cons_eq lists)

namespace Coefficient

theorem start_text_injective {m n : Nat} (same : (start m).text = (start n).text) : m = n := by
  have lists := congrArg String.toList same
  rw [toList_start, toList_start] at lists
  exact digits_injective (List.tail_eq_of_cons_eq (List.tail_eq_of_cons_eq lists))

theorem start_text_ne_stride (m n a : Nat) : (start m).text ≠ (stride n a).text := by
  intro same
  have lists := congrArg String.toList same
  rw [toList_start, toList_stride] at lists
  exact absurd (List.head_eq_of_cons_eq (List.tail_eq_of_cons_eq lists)) (by decide)

/-- No parameter has the name of the index of a loop. -/
theorem indexName_ne_start (axis n : Nat) : indexName axis ≠ (start n).text := by
  intro same
  have lists := congrArg String.toList same
  rw [toList_indexName, toList_start] at lists
  exact absurd (List.head_eq_of_cons_eq lists) (by decide)

theorem indexName_ne_stride (axis n a : Nat) : indexName axis ≠ (stride n a).text := by
  intro same
  have lists := congrArg String.toList same
  rw [toList_indexName, toList_stride] at lists
  exact absurd (List.head_eq_of_cons_eq lists) (by decide)

theorem stride_text_injective {m n a b : Nat} (same : (stride m a).text = (stride n b).text) :
    m = n ∧ a = b := by
  have lists := congrArg String.toList same
  rw [toList_stride, toList_stride] at lists
  obtain ⟨views, rest⟩ := digits_append_inj (stops_cons.mpr (by decide))
    (stops_cons.mpr (by decide)) (List.tail_eq_of_cons_eq (List.tail_eq_of_cons_eq lists))
  exact ⟨views, digits_injective (List.tail_eq_of_cons_eq rest)⟩

end Coefficient

/-! ## Values in binding order -/

/-- A key with one value only is found with this value. -/
theorem lookup_eq_some {α β : Type} [BEq α] [LawfulBEq α] {l : List (α × β)} {k : α} {x : β}
    (member : (k, x) ∈ l) (only : ∀ y, (k, y) ∈ l → y = x) : l.lookup k = some x := by
  induction l with
  | nil => contradiction
  | cons p l ih =>
    obtain ⟨k', y⟩ := p
    rw [List.lookup_cons]
    split
    next same =>
      obtain rfl := eq_of_beq same
      exact congrArg some (only y List.mem_cons_self)
    next apart =>
      refine ih ?_ fun z hz => only z (List.mem_cons_of_mem _ hz)
      rcases List.mem_cons.mp member with own | later
      · cases own
        simp at apart
      · exact later

theorem zip_flatMap {α β γ : Type} {f : α → List β} {g : α → List γ} {l : List α}
    (length : ∀ x ∈ l, (f x).length = (g x).length) :
    (l.flatMap f).zip (l.flatMap g) = l.flatMap fun x => (f x).zip (g x) := by
  induction l with
  | nil => rfl
  | cons x l ih =>
    obtain ⟨own, others⟩ := List.forall_mem_cons.mp length
    rw [List.flatMap_cons, List.flatMap_cons, List.flatMap_cons, List.zip_append own, ih others]

namespace Symbols

/-- What the names in a kernel stand for: the indices of the loops, and the values that the launcher
passes for the names of starts and strides. -/
def binding (s : Symbols) (ts : Turns) : List (String × Int) :=
  ts.mapIdx (fun axis t => (indexName axis, t.index)) ++ s.strideNames.zip s.parameterValues

variable {s : Symbols} {ts : Turns} {v w : View} {name : String} {x : Int}

/-- Names of the start and the strides of a view with their values. -/
def namedNumbers (s : Symbols) (v : View) : List (String × Int) :=
  ((Coefficient.start (s.viewNumber v)).text, v.start) ::
    v.strides.mapIdx fun axis stride => ((Coefficient.stride (s.viewNumber v) axis).text, stride)

/-- Names and values belong to the same views. -/
theorem zip_parameterValues (s : Symbols) :
    s.strideNames.zip s.parameterValues = s.parameterViews.flatMap s.namedNumbers := by
  have length : ∀ v : View, v.ndim = v.strides.length := fun v => by
    rw [View.ndim, View.strides, List.length_map]
  rw [strideNames, parameterValues, zip_flatMap fun v _ => by simp [length]]
  refine congrArg (List.flatMap · _) (funext fun v => ?_)
  rw [List.zip_cons_cons, namedNumbers]
  refine congrArg (_ :: ·) (List.ext_getElem ?_ fun axis inside inside' => ?_)
  · simp [length]
  · simp only [List.getElem_zip, List.getElem_map, List.getElem_range, List.getElem_mapIdx]
    rfl

theorem mem_namedNumbers : (name, x) ∈ s.namedNumbers v ↔
    ((Coefficient.start (s.viewNumber v)).text = name ∧ v.start = x) ∨
    ∃ axis, v.strides[axis]? = some x ∧ (Coefficient.stride (s.viewNumber v) axis).text = name := by
  simp only [namedNumbers, List.mem_cons, List.mem_mapIdx, Prod.mk.injEq, eq_comm (a := name)]
  refine or_congr ?_ ⟨?_, ?_⟩
  · exact and_congr_right fun _ => eq_comm
  · rintro ⟨axis, inside, rfl, rfl⟩
    exact ⟨axis, List.getElem?_eq_getElem inside, rfl⟩
  · rintro ⟨axis, found, rfl⟩
    obtain ⟨inside, rfl⟩ := List.getElem?_eq_some_iff.mp found
    exact ⟨axis, inside, rfl, rfl⟩

theorem mem_binding : (name, x) ∈ s.binding ts ↔
    (∃ axis t, ts[axis]? = some t ∧ indexName axis = name ∧ t.index = x) ∨
    ∃ v ∈ s.parameterViews, (name, x) ∈ s.namedNumbers v := by
  rw [binding, zip_parameterValues, List.mem_append, List.mem_flatMap]
  refine or_congr_left ?_
  simp only [List.mem_mapIdx, Prod.mk.injEq]
  constructor
  · rintro ⟨axis, inside, same, rfl⟩
    exact ⟨axis, _, List.getElem?_eq_getElem inside, same, rfl⟩
  · rintro ⟨axis, t, found, same, rfl⟩
    obtain ⟨inside, rfl⟩ := List.getElem?_eq_some_iff.mp found
    exact ⟨axis, inside, same, rfl⟩

/-- The index of a loop has its value. -/
theorem lookup_indexName {axis : Nat} (inside : axis < ts.length) :
    (s.binding ts).lookup (indexName axis) = some (ts.index axis) := by
  have here : ts[axis]? = some ts[axis] := List.getElem?_eq_getElem inside
  have value : ts.index axis = ts[axis].index := by rw [Turns.index, here]; rfl
  rw [value]
  refine lookup_eq_some (mem_binding.mpr (.inl ⟨axis, _, here, rfl, rfl⟩)) fun y hy => ?_
  rcases mem_binding.mp hy with ⟨axis', t, found, same, rfl⟩ | ⟨v, -, named⟩
  · obtain rfl := indexName_injective same
    rw [here] at found
    cases found
    rfl
  · rcases mem_namedNumbers.mp named with ⟨same, -⟩ | ⟨axis', -, same⟩
    · exact (Coefficient.indexName_ne_start _ _ same.symm).elim
    · exact (Coefficient.indexName_ne_stride _ _ _ same.symm).elim

/-- Two views with one number are one access. -/
def Numbered (s : Symbols) : Prop :=
  ∀ v w, v ∈ s.parameterViews → w ∈ s.parameterViews → s.viewNumber v = s.viewNumber w →
    v.sameAccess w = true

/-- The name of a start has the start of the view as its value. -/
theorem lookup_start (numbered : s.Numbered) (hv : v ∈ s.parameterViews) :
    (s.binding ts).lookup (Coefficient.start (s.viewNumber v)).text = some v.start := by
  refine lookup_eq_some (mem_binding.mpr (.inr ⟨v, hv, mem_namedNumbers.mpr (.inl ⟨rfl, rfl⟩)⟩))
    fun y hy => ?_
  rcases mem_binding.mp hy with ⟨axis, t, -, same, -⟩ | ⟨w, hw, named⟩
  · exact (Coefficient.indexName_ne_start _ _ same).elim
  · rcases mem_namedNumbers.mp named with ⟨same, rfl⟩ | ⟨axis, -, same⟩
    · have number := Coefficient.start_text_injective same
      exact (View.sameAccess_iff.mp (numbered w v hw hv number)).2.1
    · exact (Coefficient.start_text_ne_stride _ _ _ same.symm).elim

/-- The name of a stride has the stride of the view as its value. -/
theorem lookup_stride (numbered : s.Numbered) (hv : v ∈ s.parameterViews) {axis : Nat}
    (stride : v.strides[axis]? = some x) :
    (s.binding ts).lookup (Coefficient.stride (s.viewNumber v) axis).text = some x := by
  refine lookup_eq_some
    (mem_binding.mpr (.inr ⟨v, hv, mem_namedNumbers.mpr (.inr ⟨axis, stride, rfl⟩)⟩)) fun y hy => ?_
  rcases mem_binding.mp hy with ⟨axis', t, -, same, -⟩ | ⟨w, hw, named⟩
  · exact (Coefficient.indexName_ne_stride _ _ _ same).elim
  · rcases mem_namedNumbers.mp named with ⟨same, -⟩ | ⟨axis', found, same⟩
    · exact (Coefficient.start_text_ne_stride _ _ _ same).elim
    · obtain ⟨number, rfl⟩ := Coefficient.stride_text_injective same
      have axes := (View.sameAccess_iff.mp (numbered w v hw hv number)).2.2
      rw [View.strides, axes] at found
      exact Option.some.inj (found.symm.trans stride)

variable {kernel : Nest} {passing : Passing} {st : Statement} {k : Nat} {b : BaseId}

theorem numbered_ofKernel (kernel : Nest) (passing : Passing) :
    (ofKernel kernel passing).Numbered := by
  intro v w hv hw same
  have known : ∀ u ∈ (ofKernel kernel passing).parameterViews,
      ∃ z ∈ (ofKernel kernel passing).views, z.sameAccess u = true := fun u hu =>
    ⟨u, (List.mem_filter.mp hu).1, View.sameAccess_equivalence.refl u⟩
  exact (position_eq_iff View.sameAccess_equivalence (known v hv) (known w hw)).mp same

/-- The start and the strides of an operand are passed under the number of its view. -/
theorem exists_parameterView (hs : st ∈ kernel.statements) (hv : st.instr.operands[k]? = some v)
    (base : v.base = some b) (parameters : (ofKernel kernel passing).hasParameters v = true) :
    ∃ w ∈ (ofKernel kernel passing).parameterViews,
      (ofKernel kernel passing).viewNumber w = (ofKernel kernel passing).viewNumber v ∧
        w.start = v.start ∧ w.axes = v.axes := by
  obtain ⟨a, access, rfl⟩ := exists_access passing hs hv base
  obtain ⟨w, hw, same⟩ := exists_mem_firstOfEach View.sameAccess_equivalence
    (List.mem_map_of_mem (f := fun x : BaseId × Access => x.2.view) access)
  obtain ⟨bases, starts, axes⟩ := View.sameAccess_iff.mp same
  refine ⟨w, List.mem_filter.mpr ⟨hw, ?_⟩, ?_, starts, axes⟩
  · rw [hasParameters, bases]
    exact parameters
  · exact (position_eq_iff View.sameAccess_equivalence
      ⟨w, hw, View.sameAccess_equivalence.refl w⟩ ⟨w, hw, same⟩).mpr same

end Symbols

/-! ## The sum that an index denotes -/

namespace Instruction

variable {i : Instruction} {k axis own : Nat} {v : View}

/-- The axis of an operand that a loop runs along is one of its axes. -/
theorem operandAxis?_lt (hv : i.operands[k]? = some v) (inside : axis < i.ndim)
    (follows : i.operandAxis? k axis = some own) : own < v.ndim := by
  have direct : ∀ axis, (if axis < v.ndim then some axis else none) = some own → own < v.ndim := by
    intro axis h
    split at h <;> simp_all
  rw [operandAxis?, hv] at follows
  dsimp only at follows
  split at follows
  · contradiction
  · split at follows
    next fold =>
      split at follows
      · contradiction
      next s along =>
        split at follows
        · contradiction
        · split at follows
          next earlier =>
            -- The output of the fold has one axis less than the input, whose axes are the positions.
            cases hinput : i.operands[1]? with
            | none => simp [hinput] at earlier
            | some input =>
              have shape := shape_of_isSweep (isSweep_of_isReduction fold.2) hinput
              have axes : i.ndim = input.ndim := by
                rw [Instruction.ndim, shape, View.length_shape]
              simp only [hinput, Option.map_some, Option.getD_some] at earlier
              cases follows
              omega
          · exact direct axis follows
    · exact direct axis follows

theorem strideAt_of_follows (hv : i.operands[k]? = some v)
    (follows : i.operandAxis? k axis = some own) :
    i.strideAt k axis = v.strides[own]?.getD 0 := by
  simp [strideAt, hv, follows, View.strides]

theorem strideAt_of_stands (stands : i.operandAxis? k axis = none) : i.strideAt k axis = 0 := by
  rw [strideAt]
  cases i.operands[k]? <;> simp [stands]

/-- One step back along an axis moves the index of its loop. -/
theorem index_stepBack {ts : Turns} (inside : axis < ts.length) (a : Nat) :
    Turns.index (stepBack ts a) axis = ts.index axis + if a = axis then -1 else 0 := by
  rw [Turns.index, Turns.index, stepBack, List.getElem?_modify, List.getElem?_eq_getElem inside]
  split <;> simp_all [Int.sub_eq_add_neg]

end Instruction

namespace IndexExpr

variable {s : Symbols} {i : Instruction} {k : Nat} {v : View} {shift : Option (Nat × Int)}
  {coefficient : Coefficient → Int} {index : Nat → Int}

/-- Term of an axis, if the operand moves along it. -/
def axisTerm (s : Symbols) (i : Instruction) (k : Nat) (v : View) (shift : Option (Nat × Int))
    (axis : Nat) : Option IndexTerm := do
  let own ← i.operandAxis? k axis
  let stride := v.strides[own]?.getD 0
  if !s.hasParameters v && stride == 0 then none
  else
    some {
      axis
      shift := shift.bind fun (a, x) => if a = axis then some x else none
      factor := if s.hasParameters v then .stride (s.viewNumber v) own else .literal stride }

theorem terms_ofOperand (s : Symbols) (i : Instruction) (k : Nat) (v : View)
    (shift : Option (Nat × Int)) : (ofOperand s i k v shift).terms =
      (List.range i.ndim).filterMap (axisTerm s i k v shift) := rfl

/-- The index of a loop is moved along one axis. -/
def shiftAt (shift : Option (Nat × Int)) (axis : Nat) : Int :=
  (shift.bind fun (a, x) => if a = axis then some x else none).getD 0

theorem shiftAt_some (a axis : Nat) (x : Int) :
    shiftAt (some (a, x)) axis = if a = axis then x else 0 := by
  change (if a = axis then some x else none).getD 0 = _
  split <;> rfl

theorem axisTerm_eq_some {t : IndexTerm} {axis : Nat} (h : axisTerm s i k v shift axis = some t) :
    ∃ own, i.operandAxis? k axis = some own ∧ t.axis = axis ∧
      t.shift.getD 0 = shiftAt shift axis ∧
      t.factor = if s.hasParameters v then .stride (s.viewNumber v) own
        else .literal (v.strides[own]?.getD 0) := by
  obtain ⟨own, follows, h⟩ := Option.bind_eq_some_iff.mp h
  dsimp only at h
  split at h
  · contradiction
  · cases h
    exact ⟨own, follows, rfl, rfl, rfl⟩

/-- An operand has no term for an axis along which it stands still. -/
theorem strideAt_of_axisTerm_eq_none {axis : Nat} (hv : i.operands[k]? = some v)
    (h : axisTerm s i k v shift axis = none) : i.strideAt k axis = 0 := by
  cases follows : i.operandAxis? k axis with
  | none => exact Instruction.strideAt_of_stands follows
  | some own =>
    rw [axisTerm, follows, Option.bind_eq_bind, Option.bind_some] at h
    dsimp only at h
    split at h
    next still =>
      rw [Instruction.strideAt_of_follows hv follows]
      simp_all
    next => contradiction

theorem sum_filterMap {α β : Type} {f : β → Int} {g : α → Int} {term : α → Option β} {xs : List α}
    (none : ∀ x ∈ xs, term x = none → g x = 0)
    (some : ∀ x ∈ xs, ∀ y, term x = some y → f y = g x) :
    (xs.filterMap term).foldr (fun y sum => f y + sum) 0 = (xs.map g).sum := by
  induction xs with
  | nil => rfl
  | cons x xs ih =>
    obtain ⟨still, stills⟩ := List.forall_mem_cons.mp none
    obtain ⟨own, others⟩ := List.forall_mem_cons.mp some
    rw [List.filterMap_cons, List.map_cons, List.sum_cons]
    cases found : term x with
    | none => rw [still found, ih stills others, Int.zero_add]
    | some y => rw [List.foldr_cons, own y found, ih stills others]

end IndexExpr

section Kernel

variable {kernel : Nest} {passing : Passing} {st : Statement} {k : Nat} {v : View} {b : BaseId}
  {shift : Option (Nat × Int)} {ts : Turns}

namespace Symbols

/-- Numbers of an operand have their values in the source. -/
theorem value?_start (hs : st ∈ kernel.statements) (hv : st.instr.operands[k]? = some v)
    (base : v.base = some b) :
    (IndexExpr.ofOperand (ofKernel kernel passing) st.instr k v shift).start.value?
      (((ofKernel kernel passing).binding ts).lookup ·) = some v.start := by
  rw [IndexExpr.ofOperand]
  dsimp only
  split
  next parameters =>
    obtain ⟨w, hw, number, start, -⟩ := exists_parameterView hs hv base parameters
    rw [← number, ← start]
    exact lookup_start (numbered_ofKernel kernel passing) hw
  next => rfl

theorem value?_factor (hs : st ∈ kernel.statements) (hv : st.instr.operands[k]? = some v)
    (base : v.base = some b) {t : IndexTerm} {axis : Nat} (inside : axis < st.instr.ndim)
    (term : IndexExpr.axisTerm (ofKernel kernel passing) st.instr k v shift axis = some t) :
    t.factor.value? (((ofKernel kernel passing).binding ts).lookup ·) =
      some (st.instr.strideAt k axis) := by
  obtain ⟨own, follows, -, -, factor⟩ := IndexExpr.axisTerm_eq_some term
  have stride := Instruction.strideAt_of_follows hv follows
  rw [factor, stride]
  split
  next parameters =>
    obtain ⟨w, hw, number, -, axes⟩ := exists_parameterView hs hv base parameters
    have own_lt : own < v.strides.length := by
      rw [View.strides, List.length_map]
      exact Instruction.operandAxis?_lt hv inside follows
    have here : w.strides[own]? = some v.strides[own] := by
      rw [View.strides, axes]
      exact List.getElem?_eq_getElem own_lt
    rw [← number, List.getElem?_eq_getElem own_lt, Option.getD_some]
    exact lookup_stride (numbered_ofKernel kernel passing) hw here
  next => rfl

end Symbols

/-- The index of an operand denotes its start plus index times stride over the loops. -/
theorem IndexExpr.eval?_ofOperand (passing : Passing) (hs : st ∈ kernel.statements)
    (hv : st.instr.operands[k]? = some v) (base : v.base = some b)
    (loops : st.instr.ndim ≤ ts.length) (shift : Option (Nat × Int)) :
    eval? (((Symbols.ofKernel kernel passing).binding ts).lookup ·)
        (ofOperand (Symbols.ofKernel kernel passing) st.instr k v shift).text =
      some (st.instr.startOf k + ((List.range st.instr.ndim).map fun axis =>
        (ts.index axis + shiftAt shift axis) * st.instr.strideAt k axis).sum) := by
  let s := Symbols.ofKernel kernel passing
  let env : Names := ((s.binding ts).lookup ·)
  let coefficient (c : Coefficient) : Int := (c.value? env).getD 0
  have start : (ofOperand s st.instr k v shift).start.value? env = some v.start :=
    Symbols.value?_start hs hv base
  have terms : ∀ t ∈ (ofOperand s st.instr k v shift).terms, ∃ axis < st.instr.ndim,
      axisTerm s st.instr k v shift axis = some t := by
    intro t ht
    obtain ⟨axis, inside, term⟩ := List.mem_filterMap.mp (terms_ofOperand s .. ▸ ht)
    exact ⟨axis, List.mem_range.mp inside, term⟩
  have values : (ofOperand s st.instr k v shift).HasValues env coefficient ts.index := by
    refine ⟨?_, fun t ht => ?_, fun t ht => ?_⟩
    · simp [coefficient, start]
    · obtain ⟨axis, inside, term⟩ := terms t ht
      have factor : t.factor.value? env = _ := Symbols.value?_factor hs hv base inside term
      simp [coefficient, factor]
    · obtain ⟨axis, inside, term⟩ := terms t ht
      obtain ⟨own, -, same, -⟩ := axisTerm_eq_some term
      rw [same]
      exact Symbols.lookup_indexName (Nat.lt_of_lt_of_le inside loops)
  have first : coefficient (ofOperand s st.instr k v shift).start = st.instr.startOf k := by
    simp [coefficient, start, Instruction.startOf, hv]
  refine (eval?_text values).trans (congrArg some ?_)
  rw [eval, first, terms_ofOperand]
  refine congrArg (st.instr.startOf k + ·) (sum_filterMap (fun axis _ still => ?_)
    fun axis inside t term => ?_)
  · rw [strideAt_of_axisTerm_eq_none hv still, Int.mul_zero]
  · have factor : t.factor.value? env = _ :=
      Symbols.value?_factor hs hv base (List.mem_range.mp inside) term
    obtain ⟨own, -, same, moved, -⟩ := axisTerm_eq_some term
    simp [coefficient, factor, same, moved]

end Kernel

namespace Fusion

/-- Both ways to write an array index denote the offset at which the operand is accessed. In a kernel
of fused nests, take any statement, any of its operands with a base, and any indices of the loops
around the statement. The expression that is written for the operand has the offset of the operand
as its value, where the names of starts and strides have the values that the launcher passes for
them, or where starts and strides are numbers in the expression. One step back along an axis, it has
the offset one step back. -/
theorem fuse_index {separate : Bool} {ss : List Statement}
    (views : ∀ s ∈ ss, s.instr.WellFormed) {n m : Nat} {ls : List Nest}
    (fused : fuse separate ss n = .ok (ls, m)) {ks : List Nest} (chosen : ∀ l ∈ ks, l ∈ ls)
    (next : Nat) (passing : Passing) {l : Nest} (hl : l ∈ ks) {x : Placement}
    (placed : x ∈ l.toNode.placements) {ts : Turns} (loops : ts.length = x.loops.length)
    {k : Nat} {v : View} (hv : x.stmt.instr.operands[k]? = some v) {b : BaseId}
    (base : v.base = some b) :
    let s := Symbols.ofKernel (kernel ks next).1 passing
    let value? (e : IndexExpr) : Option Int := eval? ((s.binding ts).lookup ·) e.text
    value? (.ofOperand s x.stmt.instr k v) = some (x.stmt.instr.offset ts k) ∧
    ∀ axis, value? (.ofOperand s x.stmt.instr k v (some (axis, -1))) =
      some (x.stmt.instr.offset (Instruction.stepBack ts axis) k) := by
  intro s value?
  have faithful := faithful_of_fuse views fused
  have fits := (faithful.laidOut l (chosen l hl)).fits_placements x placed
  have depth : x.stmt.instr.ndim ≤ ts.length := by simpa [loops] using fits.depth
  have stmt : x.stmt ∈ (kernel ks next).1.statements := by
    have inside : x.stmt ∈ l.toNode.statements := by
      rw [← Node.map_stmt_placements]
      exact List.mem_map_of_mem placed
    exact (Node.statements_sublist (List.mem_map_of_mem hl)).subset inside
  have sum := IndexExpr.eval?_ofOperand passing stmt hv base depth
  refine ⟨?_, fun axis => ?_⟩
  · refine (sum none).trans ?_
    rw [Instruction.offset_eq_sum]
    simp [IndexExpr.shiftAt]
  · refine (sum (some (axis, -1))).trans ?_
    rw [Instruction.offset_eq_sum]
    refine congrArg (fun xs => some (x.stmt.instr.startOf k + List.sum xs))
      (List.map_congr_left fun a inside => ?_)
    rw [Instruction.index_stepBack (Nat.lt_of_lt_of_le (List.mem_range.mp inside) depth),
      IndexExpr.shiftAt_some]

/-- The sums of a reversed row are kept in order, with starts and strides in the source and apart. -/
theorem fuse_index_reversed :
    let input : View := { base := some 0, dtype := .int64, start := 2, axes := [⟨3, -1⟩] }
    let i : Instruction := .sweep (.accumulate .add) (.whole 1 .int64 3) input 0
    let ss := Statement.number [i] 0
    ∃ l m, fuse false ss 0 = .ok ([l], m) ∧ ∀ (strides : Bool) (index : Int),
      let s := Symbols.ofKernel (kernel [l] 0).1 { strides }
      let value? (e : IndexExpr) : Option Int :=
        eval? ((s.binding [⟨index, false⟩]).lookup ·) e.text
      value? (.ofOperand s i 1 input) = some (2 - index) ∧
        value? (.ofOperand s i 0 (.whole 1 .int64 3) (some (0, -1))) = some (index - 1) := by
  intro input i ss
  let found := (fuse false ss 0).toOption.getD default
  let l := found.1.headD default
  have fused : fuse false ss 0 = .ok ([l], found.2) := rfl
  refine ⟨l, found.2, fused, fun strides index => ?_⟩
  obtain ⟨x, placed, stmt, loops⟩ : ∃ x ∈ l.toNode.placements, x.stmt.instr = i ∧
      x.loops.length = 1 := ⟨_, List.mem_cons_self, rfl, rfl⟩
  let ts : Turns := [⟨index, false⟩]
  have around : ts.length = x.loops.length := loops.symm
  have denotes := fun k v => fuse_index (by decide : ∀ s ∈ ss, s.instr.WellFormed) fused
    (fun l hl => hl) 0 { strides } (List.mem_singleton_self l) placed around (k := k) (v := v)
  rw [stmt] at denotes
  have element := (denotes 1 input rfl (b := 0) rfl).1
  have before := (denotes 0 (.whole 1 .int64 3) rfl (b := 1) rfl).2 0
  rw [Instruction.offset_eq_sum] at element before
  have reversed : (2 : Int) + (index * -1 + 0) = 2 - index := by omega
  have previous : (0 : Int) + ((index - 1) * 1 + 0) = index - 1 := by omega
  exact ⟨element.trans (congrArg some reversed), before.trans (congrArg some previous)⟩

end Fusion

end ArrayFusion
