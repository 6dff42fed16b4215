import ArrayFusion.Backend.Host
import ArrayFusion.Proofs.Eval.Visits
import ArrayFusion.Proofs.Kernel.Symbols

/-!
# Kernels that are launched stay within their arrays

The host backend compares the range of every bound base with its data before it launches a kernel.
The range covers the addresses of all views, and an operand whose view has the shape that its
instruction asks for is accessed at these addresses only, wherever the loops stand.
-/

namespace ArrayFusion

open Shape

/-- Wherever the loops of a nest visit a statement, they stand at one of its positions. -/
theorem Nest.at_of_visit {l : Nest} (layout : l.toNode.Layout []) {v : Visit}
    (visited : v ∈ l.toNode.visits []) :
    ∃ p, InRange v.stmt.instr.shape p ∧ v.turns.At p := by
  obtain ⟨x, placed, path, stmt⟩ := Node.exists_placement_of_visit _ visited
  have full := Nest.inFull_of_layout layout x placed
  have inside : v.indices.take v.stmt.instr.ndim ∈ positions v.stmt.instr.shape := by
    rw [← stmt, ← full.visited]
    exact List.mem_map.mpr ⟨v, List.mem_filter.mpr ⟨visited, by simp [path]⟩, rfl⟩
  refine ⟨_, mem_positions.mp inside, ⟨by simp [Visit.indices], fun axis k hk => ?_⟩⟩
  rw [List.getElem?_take] at hk
  split at hk
  · rw [Visit.indices, List.getElem?_map] at hk
    rw [Turns.index, hk, Option.getD_some]
  · contradiction

theorem Node.exists_visit_of_bodyVisit {ts : Turns} {first : Nat} {body : List Node} {v : Visit}
    (visited : v ∈ bodyVisits ts first body) :
    ∃ n ∈ body, ∃ w ∈ n.visits ts, w.stmt = v.stmt ∧ w.turns = v.turns := by
  induction body generalizing first with
  | nil => contradiction
  | cons n body ih =>
    rcases List.mem_append.mp visited with here | later
    · obtain ⟨w, hw, rfl⟩ := List.mem_map.mp here
      exact ⟨n, List.mem_cons_self, w, hw, rfl, rfl⟩
    · obtain ⟨m, hm, found⟩ := ih later
      exact ⟨m, List.mem_cons_of_mem n hm, found⟩

/-- The loops of a kernel stand at positions of the statements that they visit. -/
theorem Nest.at_of_visit_kernel {ls : List Nest} (layouts : ∀ l ∈ ls, l.toNode.Layout []) {n : Nat}
    {v : Visit} (visited : v ∈ Node.bodyVisits [] 0 (Fusion.kernel ls n).1.body) :
    v.stmt ∈ (Fusion.kernel ls n).1.statements ∧
      ∃ p, InRange v.stmt.instr.shape p ∧ v.turns.At p := by
  obtain ⟨m, hm, w, hw, stmt, turns⟩ := Node.exists_visit_of_bodyVisit visited
  obtain ⟨l, hl, rfl⟩ := List.mem_map.mp hm
  rw [← stmt, ← turns]
  refine ⟨?_, Nest.at_of_visit (layouts l hl) hw⟩
  obtain ⟨x, placed, -, same⟩ := Node.exists_placement_of_visit _ hw
  have inside : w.stmt ∈ l.toNode.statements := by
    rw [← same, ← Node.map_stmt_placements]
    exact List.mem_map_of_mem placed
  exact (Node.statements_sublist (List.mem_map_of_mem hl)).subset inside

namespace Instruction

variable {i : Instruction} {ts : Turns} {p : List Int} {k : Nat} {v : View}

/-- An operand that is not addressed by values is accessed at an address of its view. -/
theorem exists_offset_eq (fit : i.ShapesFit) (range : InRange i.shape p) (at_p : ts.At p)
    (hv : i.operands[k]? = some v) (array : v.isConstant = false)
    (direct : i.isIndirect k = false) :
    ∃ r, InRange v.shape r ∧ i.offset ts k = v.start + View.offsetAt v.axes r := by
  obtain ⟨offset, inside⟩ := offsetAt_seenAxes fit hv array direct range
  exact ⟨_, inside, by rw [offset_eq at_p range.length_eq hv, offset]⟩

/-- The result so far of a scan is read at an address of its view. -/
theorem exists_offset_stepBack_eq (fit : i.ShapesFit) (range : InRange i.shape p) (at_p : ts.At p)
    (hv : i.operands[0]? = some v) (array : v.isConstant = false)
    (scan : i.opcode.isAccumulate = true) {s : Nat} (axis : i.sweepAxis? = some s)
    (later : 0 < ts.index s) :
    ∃ r, InRange v.shape r ∧ i.offset (stepBack ts s) 0 = v.start + View.offsetAt v.axes r := by
  have sweep := isSweep_of_sweepAxis? axis
  have notFold : ¬ (0 = 0 ∧ i.opcode.isReduction = true) := by
    simp [not_isReduction_of_isAccumulate scan]
  have direct := isIndirect_of_isSweep sweep 0
  have shape := fit.direct (v, 0) (List.mem_zipIdx_iff_getElem?.mpr hv) array direct notFold
  have first : p[s]? ≠ some 0 := by
    intro first
    rw [at_p.index s 0 first] at later
    omega
  have seen := seenAxes_direct hv array direct notFold shape
  refine ⟨_, shape ▸ range.modify_pred first, ?_⟩
  rw [offset_eq (at_p.stepBack s) (by rw [List.length_modify]; exact range.length_eq) hv, seen]

end Instruction

namespace Host

/-- An element of a base exists in a launched kernel: in the data that is bound to the base, or in
the array that the kernel allocates for it. -/
def HasElement (s : Symbols) (a : Arena) (b : BaseId) (offset : Int) : Prop :=
  0 ≤ offset ∧
    if b ∈ s.params then ∃ x ∈ a.buffer? b, offset < x.size
    else b ∈ s.arrayTemps ∧ offset < s.tempSize b

variable {s : Symbols} {a : Arena}

theorem checkArgument_of_forM {bs : List BaseId} (checked : bs.forM (checkArgument s a) = .ok ()) :
    ∀ b ∈ bs, checkArgument s a b = .ok () := by
  induction bs with
  | nil => simp
  | cons c bs ih =>
    rw [List.forM_eq_forM, List.forM_cons] at checked
    cases first : checkArgument s a c with
    | error e => rw [first] at checked; contradiction
    | ok done =>
      rw [first] at checked
      exact List.forall_mem_cons.mpr ⟨first, ih checked⟩

/-- Binding checks every parameter. -/
theorem checkArgument_of_bind {arguments : Arguments} (bound : bind s a = .ok arguments)
    {b : BaseId} (member : b ∈ s.params) : checkArgument s a b = .ok () := by
  cases checked : s.params.forM (checkArgument s a) with
  | error e => rw [bind, checked] at bound; contradiction
  | ok done => exact checkArgument_of_forM checked b member

/-- What a passed check says. -/
theorem bounds_of_checkArgument {b : BaseId} (checked : checkArgument s a b = .ok ()) :
    0 ≤ s.lowest b ∧ ∃ x ∈ a.buffer? b, s.extent b ≤ x.size := by
  rw [checkArgument] at checked
  split at checked
  · contradiction
  next x found =>
    split at checked
    · contradiction
    split at checked
    · contradiction
    next below =>
      split at checked
      · contradiction
      next beyond => exact ⟨by omega, x, found, by omega⟩

theorem symbols_of_write {d : Dialect} {kernel : Nest} {passing : Passing} {source : KernelSource}
    (written : d.write kernel passing = .ok source) :
    source.symbols = Symbols.ofKernel kernel passing := by
  rw [Dialect.write] at written
  cases text : d.kernelText (Symbols.ofKernel kernel passing) kernel with
  | error e => rw [text] at written; contradiction
  | ok text' => rw [text] at written; cases written; rfl

/-- A kernel is launched with arguments that passed all checks. -/
theorem exists_bind_of_execute {target : Target} {tools : Toolchain σ μ} {kernel : Nest}
    {source : KernelSource} {state state' : Session (Workshop σ μ)}
    (launched : (Backend.host target tools).execute { kernel, source := some source } state =
      (.ok (), state')) : ∃ arguments, bind source.symbols state.arena = .ok arguments := by
  cases found : bind source.symbols state.arena with
  | ok arguments => exact ⟨arguments, rfl⟩
  | error e =>
    change ((liftM (bind source.symbols state.arena) : Run (Workshop σ μ) Arguments) >>= _) state =
      _ at launched
    rw [found] at launched
    exact absurd (congrArg Prod.fst launched) nofun

variable {kernel : Nest} {passing : Passing} {t : Statement} {k : Nat} {x : View} {b : BaseId}

/-- A kernel that is launched has all elements at the addresses of its operands, if no temporary
array begins below its first element. -/
theorem hasElement_of_inRange {arguments : Arguments}
    (bound : bind (Symbols.ofKernel kernel passing) a = .ok arguments)
    (ht : t ∈ kernel.statements) (hx : t.instr.operands[k]? = some x) (base : x.base = some b)
    (array : (Symbols.ofKernel kernel passing).isScalarTemp b = false)
    (above : b ∈ (Symbols.ofKernel kernel passing).arrayTemps →
      0 ≤ (Symbols.ofKernel kernel passing).lowest b) {r : List Int} (range : InRange x.shape r) :
    HasElement (Symbols.ofKernel kernel passing) a b (x.start + View.offsetAt x.axes r) := by
  obtain ⟨low, high⟩ := Symbols.bounds_of_inRange passing ht hx base range
  by_cases param : b ∈ (Symbols.ofKernel kernel passing).params
  · obtain ⟨nonneg, data, found, enough⟩ :=
      bounds_of_checkArgument (checkArgument_of_bind bound param)
    rw [HasElement, if_pos param]
    exact ⟨by omega, data, found, by omega⟩
  · have temp := (Symbols.mem_params_or_mem_arrayTemps passing ht hx base array).resolve_left param
    have nonneg := above temp
    rw [HasElement, if_neg param, Symbols.tempSize]
    exact ⟨by omega, temp, by omega⟩

end Host

end ArrayFusion
