import ArrayFusion.Proofs.Kernel.Numbers
import ArrayFusion.Proofs.Kernel.Reading
import ArrayFusion.Proofs.Kernel.Symbols
import ArrayFusion.Source.Kernel

/-!
# Kernels that are described alike

Two kernels with the same structure text use bases, views and constants of the same numbers in the
same places. The structure text does not say everything on which their sources depend: which bases are
temporaries and in which order a loop declares its scalars, how large arrays are whose strides are
parameters, and of which types literals are. `Omitted` lists the rest.
-/

namespace ArrayFusion

/-- What the source of a kernel depends on besides its structure text. -/
structure Omitted where
  /-- Numbers of the scalars that the loops declare. -/
  scalars : List (List Nat)
  /-- Numbers of the arrays that the kernel allocates. -/
  arrays : List Nat
  /-- Sizes of arrays, where they do not follow from starts and strides in the text: of those that
  the kernel allocates, and in Fortran of its parameters. -/
  sizes : List Int
  /-- Types of the constants that are written as literals. -/
  literals : List (Option DType)
  deriving DecidableEq, Repr

/-- What the structure text of a kernel does not say. -/
def Dialect.omitted (d : Dialect) (kernel : Nest) (passing : Passing) : Omitted :=
  let s := Symbols.ofKernel kernel passing
  { scalars := kernel.toNode.nests.map fun l => (s.scalarTempsOf l.head.id).map s.baseNumber
    arrays := s.arrayTemps.map s.baseNumber
    sizes :=
      if passing.strides then (s.arrayTemps ++ if d.isFortran then s.params else []).map s.tempSize
      else []
    literals :=
      if passing.constants then []
      else kernel.instrs.map fun i => (Symbols.embedded i).map (·.dtype) }

theorem beq_equivalence {α : Type} [BEq α] [LawfulBEq α] :
    Equivalence fun x y : α => (x == y) = true where
  refl _ := beq_self_eq_true _
  symm same := beq_iff_eq.mpr (eq_of_beq same).symm
  trans same same' := beq_iff_eq.mpr ((eq_of_beq same).trans (eq_of_beq same'))

namespace Symbols

section Numbers

variable {k : Nest} {passing : Passing} {b c : BaseId} {v w : View}

/-- Bases of a kernel are known by their numbers. -/
theorem baseNumber_inj (hb : b ∈ (ofKernel k passing).bases) (hc : c ∈ (ofKernel k passing).bases) :
    (ofKernel k passing).baseNumber b = (ofKernel k passing).baseNumber c ↔ b = c := by
  rw [baseNumber, baseNumber, ← beq_iff_eq (a := b)]
  exact position_eq_iff beq_equivalence ⟨b, hb, beq_self_eq_true b⟩ ⟨c, hc, beq_self_eq_true c⟩

/-- Views of a kernel are known by their numbers. -/
theorem viewNumber_inj (hv : v ∈ (ofKernel k passing).accesses.map (·.2.view))
    (hw : w ∈ (ofKernel k passing).accesses.map (·.2.view)) :
    (ofKernel k passing).viewNumber v = (ofKernel k passing).viewNumber w ↔
      v.sameAccess w = true :=
  position_eq_iff View.sameAccess_equivalence
    (exists_mem_firstOfEach View.sameAccess_equivalence hv)
    (exists_mem_firstOfEach View.sameAccess_equivalence hw)

/-- Constants of a kernel are known by their numbers. -/
theorem constantNumber_inj {c c' : Constant} (hc : c ∈ (ofKernel k passing).constants)
    (hc' : c' ∈ (ofKernel k passing).constants) :
    (ofKernel k passing).constantNumber c = (ofKernel k passing).constantNumber c' ↔ c = c' := by
  rw [constantNumber, constantNumber, ← beq_iff_eq (a := c)]
  exact position_eq_iff beq_equivalence ⟨c, hc, beq_self_eq_true c⟩ ⟨c', hc', beq_self_eq_true c'⟩

end Numbers

/-- The instructions of the sites are those of the statements. -/
theorem map_snd_sites (k : Nest) : k.sites.map (·.2) = k.statements.map (·.instr) :=
  Node.map_snd_bodySites k.head.id k.body

/-- Constants that are embedded or passed, in the order of their uses. -/
theorem constants_eq (k : Nest) (passing : Passing) : (ofKernel k passing).constants =
    firstOfEach (· == ·) (k.statements.filterMap fun a => embedded a.instr) := by
  have listed : (ofKernel k passing).constants =
      firstOfEach (· == ·) (k.sites.filterMap fun p => embedded p.2) := rfl
  have instrs := congrArg (List.filterMap embedded) (map_snd_sites k)
  rw [List.filterMap_map, List.filterMap_map] at instrs
  exact listed.trans (congrArg (firstOfEach (· == ·)) instrs)

theorem usesRandom_eq (k : Nest) (passing : Passing) : (ofKernel k passing).usesRandom =
    k.statements.any fun a => a.instr.opcode == .random := by
  have listed : (ofKernel k passing).usesRandom = k.sites.any fun p => p.2.opcode == .random := rfl
  have instrs := congrArg (List.any · fun i : Instruction => i.opcode == .random) (map_snd_sites k)
  rw [List.any_map, List.any_map] at instrs
  exact listed.trans instrs

/-- The base of an operand is a base of the kernel, and its view is one of the accesses. -/
theorem used_of_mem_operands {k : Nest} (passing : Passing) {a : Statement} (ha : a ∈ k.statements)
    {v : View} (hv : v ∈ a.instr.operands) {b : BaseId} (base : v.base = some b) :
    b ∈ (ofKernel k passing).bases ∧ v ∈ (ofKernel k passing).accesses.map (·.2.view) := by
  obtain ⟨n, inside⟩ := List.mem_iff_getElem?.mp hv
  obtain ⟨x, access, rfl⟩ := exists_access passing ha inside base
  exact ⟨mem_firstOfEach.mpr (List.mem_map.mpr ⟨_, access, rfl⟩),
    List.mem_map.mpr ⟨_, access, rfl⟩⟩

/-- The scalars are those that the loops of the kernel declare. -/
theorem isScalarTemp_eq_any (k : Nest) (passing : Passing) (b : BaseId) :
    (ofKernel k passing).isScalarTemp b =
      k.toNode.nests.any fun l => ((ofKernel k passing).scalarTempsOf l.head.id).any (· == b) := by
  rw [Bool.eq_iff_iff, isScalarTemp_iff, List.any_eq_true]
  simp only [List.any_beq', List.contains_iff_mem]
  constructor
  · rintro ⟨loop, declared⟩
    obtain ⟨-, first, access, rfl, -⟩ := exists_first_of_mem_scalarTempsOf declared
    obtain ⟨⟨id, i⟩, site, own⟩ := List.mem_flatMap.mp (mem_accessesOf.mp access)
    obtain ⟨n, v, -, -, rfl⟩ := Access.mem_ofSite.mp own
    obtain ⟨l, hl, number, -⟩ := Node.leaf_of_mem_sites k.toNode rfl 0 _ site
    exact ⟨l, hl, number ▸ declared⟩
  · rintro ⟨l, hl, declared⟩
    exact ⟨l.head.id, declared⟩

/-- The parameters are the bases that are neither scalars nor allocated. -/
theorem params_eq (k : Nest) (passing : Passing) : (ofKernel k passing).params =
    (ofKernel k passing).bases.filter fun b =>
      !(ofKernel k passing).isScalarTemp b && !(ofKernel k passing).arrayTemps.any (· == b) := by
  rw [params_ofKernel]
  refine List.filter_congr fun b hb => ?_
  have allocated : (ofKernel k passing).arrayTemps.any (· == b) =
      (!passing.temporaries && (k.allTemps.contains b && !(ofKernel k passing).isScalarTemp b)) := by
    rw [Bool.eq_iff_iff, List.any_beq', List.contains_iff_mem, mem_arrayTemps]
    simp [hb, and_left_comm]
  have temporary : (ofKernel k passing).isScalarTemp b = true → k.allTemps.contains b = true := by
    intro scalar
    obtain ⟨loop, declared⟩ := isScalarTemp_iff.mp scalar
    exact List.contains_iff_mem.mpr (of_mem_scalarTempsOf declared).1
  rw [allocated]
  generalize (ofKernel k passing).isScalarTemp b = scalar at temporary
  generalize k.allTemps.contains b = temp at temporary
  revert temporary
  cases scalar <;> cases temp <;> cases passing.temporaries <;> decide

end Symbols

namespace Nest

/-- Two kernels with the same structure text that agree in what this text omits. -/
structure Described (d : Dialect) (passing : Passing) (k k' : Nest) : Prop where
  legible : k.Legible
  legible' : k'.Legible
  text : (Symbols.ofKernel k' passing).structureText k' =
    (Symbols.ofKernel k passing).structureText k
  omitted : d.omitted k' passing = d.omitted k passing

/-- Operands of two kernels that are described alike. -/
def Matches (passing : Passing) (k k' : Nest) (v w : View) : Prop :=
  ∃ a ∈ k.statements, ∃ b ∈ k'.statements, v ∈ a.instr.operands ∧ w ∈ b.instr.operands ∧
    (Symbols.ofKernel k passing).SameOperand (Symbols.ofKernel k' passing) a.instr b.instr v w

/-- Bases of two kernels with the same number. -/
structure SameBase (passing : Passing) (k k' : Nest) (b c : BaseId) : Prop where
  used : b ∈ (Symbols.ofKernel k passing).bases
  used' : c ∈ (Symbols.ofKernel k' passing).bases
  number : (Symbols.ofKernel k' passing).baseNumber c = (Symbols.ofKernel k passing).baseNumber b

/-- Constants of two kernels that are described alike and have the same type. -/
structure MatchesConstant (passing : Passing) (k k' : Nest) (c c' : Constant) : Prop where
  dtype : c'.dtype = c.dtype
  text : passing.constants = false → c'.text = c.text
  number : passing.constants = true → (Symbols.ofKernel k' passing).constantNumber c' =
    (Symbols.ofKernel k passing).constantNumber c

section Matches

variable {passing : Passing} {k k' : Nest} {v w : View} {b c : BaseId}

/-- An operand with a base corresponds to one with a base of the same number. -/
theorem Matches.sameBase (here : k.Matches passing k' v w) (base : v.base = some b) :
    ∃ c, w.base = some c ∧ k.SameBase passing k' b c := by
  obtain ⟨s, hs, s', hs', hv, hw, same⟩ := here
  cases same with
  | constant none => exact absurd (base.symm.trans none) nofun
  | @array b' c own own' name =>
    obtain rfl := Option.some.inj (own.symm.trans base)
    exact ⟨c, own', (Symbols.used_of_mem_operands passing hs hv own).1,
      (Symbols.used_of_mem_operands passing hs' hw own').1, name⟩

/-- An operand without base corresponds to one without base. -/
theorem Matches.base_eq_none (here : k.Matches passing k' v w) (base : v.base = none) :
    w.base = none := by
  obtain ⟨s, hs, s', hs', hv, hw, same⟩ := here
  cases same with
  | constant _ base' => exact base'
  | array some => exact absurd (base.symm.trans some) nofun

theorem Matches.dtype_eq (here : k.Matches passing k' v w) (base : v.base = some b) :
    w.dtype = v.dtype := by
  obtain ⟨s, hs, s', hs', hv, hw, same⟩ := here
  cases same with
  | array _ _ _ dtype => exact dtype
  | constant none => exact absurd (base.symm.trans none) nofun

theorem Matches.shape_eq (here : k.Matches passing k' v w) : w.shape = v.shape := by
  obtain ⟨s, hs, s', hs', hv, hw, same⟩ := here
  exact same.shape_eq

/-- Views whose starts and strides are parameters have the same numbers. -/
theorem Matches.parameters_eq (here : k.Matches passing k' v w) (strides : passing.strides = true)
    (base : v.base = some b) :
    v ∈ (Symbols.ofKernel k passing).accesses.map (·.2.view) ∧
      w ∈ (Symbols.ofKernel k' passing).accesses.map (·.2.view) ∧
      (Symbols.ofKernel k' passing).viewNumber w = (Symbols.ofKernel k passing).viewNumber v := by
  obtain ⟨s, hs, s', hs', hv, hw, same⟩ := here
  cases same with
  | array own own' _ _ _ number =>
    exact ⟨(Symbols.used_of_mem_operands passing hs hv own).2,
      (Symbols.used_of_mem_operands passing hs' hw own').2, number strides⟩
  | constant none => exact absurd (base.symm.trans none) nofun

/-- Starts and strides that are no parameters are the same. -/
theorem Matches.window_eq (here : k.Matches passing k' v w) (strides : passing.strides = false)
    (base : v.base = some b) : w.start = v.start ∧ w.axes = v.axes := by
  obtain ⟨s, hs, s', hs', hv, hw, same⟩ := here
  cases same with
  | array _ _ _ _ shape _ numbers =>
    obtain ⟨start, strides⟩ := numbers strides
    exact ⟨start, View.axes_eq shape strides⟩
  | constant none => exact absurd (base.symm.trans none) nofun

/-- Bases of the same number are the same exactly if they are in the other kernel. -/
theorem SameBase.beq_eq {b' c' : BaseId} (first : k.SameBase passing k' b c)
    (second : k.SameBase passing k' b' c') : (c == c') = (b == b') := by
  rw [Bool.eq_iff_iff, beq_iff_eq, beq_iff_eq, ← Symbols.baseNumber_inj first.used second.used,
    ← Symbols.baseNumber_inj first.used' second.used', first.number, second.number]

end Matches

namespace Described

variable {d : Dialect} {passing : Passing} {k k' : Nest} (h : k.Described d passing k')

include h

theorem related : k.toNode.Related LoopHead.Same
    ((Symbols.ofKernel k passing).SameInstr (Symbols.ofKernel k' passing)) k'.toNode :=
  Symbols.related_of_structureText rfl h.legible h.legible' h.text

/-- Statements in the same places are described alike, and so are the types of their literals. -/
theorem statements : List.Forall₂ (fun a b : Statement => a ∈ k.statements ∧ b ∈ k'.statements ∧
      (Symbols.ofKernel k passing).SameInstr (Symbols.ofKernel k' passing) a.instr b.instr ∧
      (passing.constants = false → (Symbols.embedded b.instr).map (·.dtype) =
        (Symbols.embedded a.instr).map (·.dtype)))
    k.statements k'.statements := by
  have same := Node.Related.statements _ _ h.related
  rw [statements_toNode, statements_toNode] at same
  apply forall₂_with_mem
  cases passed : passing.constants with
  | true => exact same.imp fun a b instr => ⟨instr, nofun⟩
  | false =>
    have literals := congrArg Omitted.literals h.omitted
    simp only [Dialect.omitted, passed, Bool.false_eq_true, if_false, instrs, List.map_map] at literals
    refine List.Forall₂.mp (fun a b instr types => ⟨instr, fun _ => types⟩) same
      (forall₂_of_map_eq literals)

/-- Operands in the same places are described alike. -/
theorem operands : List.Forall₂ (fun a b : Statement =>
      List.Forall₂ (k.Matches passing k') a.instr.operands b.instr.operands)
    k.statements k'.statements :=
  h.statements.imp fun a b ⟨ha, hb, instr, _⟩ =>
    (forall₂_with_mem instr.operands).imp fun _ _ ⟨hv, hw, same⟩ => ⟨a, ha, b, hb, hv, hw, same⟩

/-- Accesses in the same places are described alike. -/
theorem accesses : List.Forall₂ (fun p q : BaseId × Access =>
      k.Matches passing k' p.2.view q.2.view ∧ p.2.view.base = some p.1 ∧
        k.SameBase passing k' p.1 q.1)
    (Symbols.ofKernel k passing).accesses (Symbols.ofKernel k' passing).accesses := by
  have sites : List.Forall₂ (fun i j : Instruction =>
      List.Forall₂ (k.Matches passing k') i.operands j.operands)
      (k.sites.map (·.2)) (k'.sites.map (·.2)) := by
    rw [Symbols.map_snd_sites, Symbols.map_snd_sites]
    exact List.forall₂_map_left_iff.mpr (List.forall₂_map_right_iff.mpr h.operands)
  apply List.rel_flatMap (List.forall₂_map_left_iff.mp (List.forall₂_map_right_iff.mp sites))
  rintro ⟨loop, i⟩ ⟨loop', j⟩ operands
  refine List.rel_filterMap ?_ (forall₂_zipIdx operands 0)
  rintro ⟨v, n⟩ ⟨w, n'⟩ ⟨here, rfl⟩
  dsimp only
  cases base : v.base with
  | none => rw [here.base_eq_none base]; exact .none
  | some b =>
    obtain ⟨c, base', same⟩ := here.sameBase base
    rw [base']
    exact .some ⟨here, base, same⟩

/-! ## Bases -/

theorem bases : List.Forall₂ (k.SameBase passing k') (Symbols.ofKernel k passing).bases
    (Symbols.ofKernel k' passing).bases := by
  apply forall₂_firstOfEach
  · intro b c first b' c' second
    exact (first.beq_eq second).symm
  · exact List.rel_map (fun p q same => same.2.2) h.accesses

/-- Accesses of bases with the same number correspond. -/
theorem accessesOf {b c : BaseId} (same : k.SameBase passing k' b c) :
    List.Forall₂ (fun a a' : Access =>
        k.Matches passing k' a.view a'.view ∧ ∃ b, a.view.base = some b)
      ((Symbols.ofKernel k passing).accessesOf b) ((Symbols.ofKernel k' passing).accessesOf c) := by
  have own := forall₂_filter h.accesses (p := (·.1 == b)) (q := (·.1 == c))
    fun p q other => other.2.2.beq_eq same
  exact List.rel_map (fun p q same => ⟨same.1, p.1, same.2.1⟩) own

theorem dtype_eq {b c : BaseId} (same : k.SameBase passing k' b c) :
    (Symbols.ofKernel k' passing).dtype c = (Symbols.ofKernel k passing).dtype b := by
  have uses := h.accessesOf same
  rw [Symbols.dtype, Symbols.dtype]
  generalize (Symbols.ofKernel k passing).accessesOf b = as at uses
  generalize (Symbols.ofKernel k' passing).accessesOf c = as' at uses
  cases uses with
  | nil => rfl
  | cons first _ =>
    obtain ⟨here, b, base⟩ := first
    exact here.dtype_eq base

/-- Where starts and strides are no parameters, arrays have the same sizes. -/
theorem tempSize_eq (strides : passing.strides = false) {b c : BaseId}
    (same : k.SameBase passing k' b c) :
    (Symbols.ofKernel k' passing).tempSize c = (Symbols.ofKernel k passing).tempSize b := by
  have uses := h.accessesOf same
  have range : Access.range? ((Symbols.ofKernel k' passing).accessesOf c) =
      Access.range? ((Symbols.ofKernel k passing).accessesOf b) := by
    generalize (Symbols.ofKernel k passing).accessesOf b = as at uses
    generalize (Symbols.ofKernel k' passing).accessesOf c = as' at uses
    induction uses with
    | nil => rfl
    | cons first _ ih =>
      obtain ⟨here, b, base⟩ := first
      obtain ⟨start, axes⟩ := here.window_eq strides base
      rw [Access.range?, Access.range?, ih, View.elements, here.shape_eq, View.extent, start, axes,
        View.elements, View.extent]
  rw [Symbols.tempSize, Symbols.tempSize, Symbols.extent, Symbols.extent, range]

/-! ## Temporaries -/

/-- Scalars of the same loops have the same numbers, in the order of their declarations. -/
theorem scalars : List.Forall₂ (fun l l' : Nest =>
      List.Forall₂ (k.SameBase passing k') ((Symbols.ofKernel k passing).scalarTempsOf l.head.id)
        ((Symbols.ofKernel k' passing).scalarTempsOf l'.head.id))
    k.toNode.nests k'.toNode.nests := by
  have numbers := forall₂_of_map_eq (congrArg Omitted.scalars h.omitted)
  refine numbers.imp fun l l' same => (forall₂_with_mem (forall₂_of_map_eq same)).imp ?_
  rintro b c ⟨hb, hc, number⟩
  exact ⟨Symbols.mem_bases_of_mem_scalarTempsOf hb, Symbols.mem_bases_of_mem_scalarTempsOf hc, number⟩

/-- A scalar takes the place of a base exactly if one takes the place of the base of this number. -/
theorem isScalarTemp_eq {b c : BaseId} (same : k.SameBase passing k' b c) :
    (Symbols.ofKernel k' passing).isScalarTemp c = (Symbols.ofKernel k passing).isScalarTemp b := by
  rw [Symbols.isScalarTemp_eq_any, Symbols.isScalarTemp_eq_any]
  refine any_eq_of_forall₂ h.scalars fun l l' declared => ?_
  exact any_eq_of_forall₂ declared fun b' c' other => other.beq_eq same

/-- The same arrays are allocated. -/
theorem arrayTemps : List.Forall₂ (k.SameBase passing k') (Symbols.ofKernel k passing).arrayTemps
    (Symbols.ofKernel k' passing).arrayTemps := by
  have numbers := forall₂_of_map_eq (congrArg Omitted.arrays h.omitted)
  refine (forall₂_with_mem numbers).imp ?_
  rintro b c ⟨hb, hc, number⟩
  exact ⟨(Symbols.mem_arrayTemps.mp hb).1, (Symbols.mem_arrayTemps.mp hc).1, number⟩

theorem params : List.Forall₂ (k.SameBase passing k') (Symbols.ofKernel k passing).params
    (Symbols.ofKernel k' passing).params := by
  rw [Symbols.params_eq, Symbols.params_eq]
  refine forall₂_filter h.bases fun b c same => ?_
  have allocated : (Symbols.ofKernel k' passing).arrayTemps.any (· == c) =
      (Symbols.ofKernel k passing).arrayTemps.any (· == b) :=
    any_eq_of_forall₂ h.arrayTemps fun b' c' other => other.beq_eq same
  rw [h.isScalarTemp_eq same, allocated]

/-- Arrays whose sizes are written have the same sizes: those that the kernel allocates, and in
Fortran the parameters. -/
theorem sizes : List.Forall₂ (fun b c => k.SameBase passing k' b c ∧
      (Symbols.ofKernel k' passing).tempSize c = (Symbols.ofKernel k passing).tempSize b)
    ((Symbols.ofKernel k passing).arrayTemps ++
      if d.isFortran then (Symbols.ofKernel k passing).params else [])
    ((Symbols.ofKernel k' passing).arrayTemps ++
      if d.isFortran then (Symbols.ofKernel k' passing).params else []) := by
  have arrays : List.Forall₂ (k.SameBase passing k')
      ((Symbols.ofKernel k passing).arrayTemps ++
        if d.isFortran then (Symbols.ofKernel k passing).params else [])
      ((Symbols.ofKernel k' passing).arrayTemps ++
        if d.isFortran then (Symbols.ofKernel k' passing).params else []) := by
    apply List.rel_append h.arrayTemps
    split
    · exact h.params
    · exact .nil
  cases strides : passing.strides with
  | false => exact arrays.imp fun b c same => ⟨same, h.tempSize_eq strides same⟩
  | true =>
    have sizes := congrArg Omitted.sizes h.omitted
    simp only [Dialect.omitted, strides, if_true] at sizes
    exact List.Forall₂.mp (fun b c same size => ⟨same, size⟩) arrays (forall₂_of_map_eq sizes)

/-! ## Views -/

/-- An operand without base has no start and no axes, and it corresponds to another one. -/
theorem plain {v w : View} (here : k.Matches passing k' v w) (base : v.base = none) :
    v.start = 0 ∧ v.axes = [] ∧ w.start = 0 ∧ w.axes = [] := by
  have base' := here.base_eq_none base
  obtain ⟨s, hs, s', hs', hv, hw, -⟩ := here
  obtain ⟨start, axes⟩ := (h.legible.instrs s hs).plain v hv base
  obtain ⟨start', axes'⟩ := (h.legible'.instrs s' hs').plain w hw base'
  exact ⟨start, axes, start', axes'⟩

/-- Operands are the same access exactly if they are in the other kernel. -/
theorem sameAccess_eq {v v' w w' : View} (first : k.Matches passing k' v w)
    (second : k.Matches passing k' v' w') : w.sameAccess w' = v.sameAccess v' := by
  have apart : ∀ {v v' : View}, v.base ≠ v'.base → v.sameAccess v' = false := by
    intro v v' different
    rw [Bool.eq_false_iff]
    exact fun same => different (View.sameAccess_iff.mp same).1
  cases base : v.base with
  | none =>
    have none := first.base_eq_none base
    cases base' : v'.base with
    | none =>
      obtain ⟨start, axes, startW, axesW⟩ := h.plain first base
      obtain ⟨start', axes', startW', axesW'⟩ := h.plain second base'
      rw [View.sameAccess, View.sameAccess, base, base', none, second.base_eq_none base', start, axes,
        startW, axesW, start', axes', startW', axesW']
    | some b' =>
      obtain ⟨c', some, -⟩ := second.sameBase base'
      rw [apart (by simp [none, some]), apart (by simp [base, base'])]
  | some b =>
    obtain ⟨c, some, same⟩ := first.sameBase base
    cases base' : v'.base with
    | none =>
      have none := second.base_eq_none base'
      rw [apart (by simp [none, some]), apart (by simp [base, base'])]
    | some b' =>
      obtain ⟨c', some', same'⟩ := second.sameBase base'
      cases strides : passing.strides with
      | true =>
        obtain ⟨hv, hw, number⟩ := first.parameters_eq strides base
        obtain ⟨hv', hw', number'⟩ := second.parameters_eq strides base'
        rw [Bool.eq_iff_iff, ← Symbols.viewNumber_inj hv hv', ← Symbols.viewNumber_inj hw hw',
          number, number']
      | false =>
        obtain ⟨start, axes⟩ := first.window_eq strides base
        obtain ⟨start', axes'⟩ := second.window_eq strides base'
        rw [View.sameAccess, View.sameAccess, base, base', some, some', Option.some_beq_some,
          Option.some_beq_some, same.beq_eq same', start, start', axes, axes']

theorem views : List.Forall₂ (k.Matches passing k') (Symbols.ofKernel k passing).views
    (Symbols.ofKernel k' passing).views := by
  apply forall₂_firstOfEach
  · intro v w first v' w' second
    exact (h.sameAccess_eq first second).symm
  · exact List.rel_map (fun p q same => same.1) h.accesses

theorem viewNumber_eq {v w : View} (here : k.Matches passing k' v w) :
    (Symbols.ofKernel k' passing).viewNumber w = (Symbols.ofKernel k passing).viewNumber v := by
  refine (Symbols.position_congr ?_ h.views).symm
  intro v' w' other
  exact (h.sameAccess_eq other here).symm

/-! ## Constants -/

/-- Constants that are embedded or passed in the same places are described alike. -/
theorem embedded : List.Forall₂ (fun a b : Statement =>
      Option.Rel (k.MatchesConstant passing k') (Symbols.embedded a.instr) (Symbols.embedded b.instr))
    k.statements k'.statements := by
  refine h.statements.imp ?_
  rintro a b ⟨ha, hb, same, types⟩
  have constant := same.constant (h.legible.instrs a ha) (h.legible'.instrs b hb)
  rw [Symbols.embedded, Symbols.embedded, same.opcode] at types ⊢
  cases sweep : a.instr.opcode.isSweep with
  | true => exact .none
  | false =>
    simp only [sweep, Bool.false_eq_true, if_false] at types ⊢
    generalize a.instr.constant = c at constant types
    generalize b.instr.constant = c' at constant types
    cases constant with
    | none => exact .none
    | some shown =>
      obtain ⟨byNumber, literal⟩ := shown
      rw [sweep, Bool.not_false, Bool.and_true] at byNumber literal
      refine .some ⟨?_, literal, fun passed => (byNumber passed).1⟩
      cases passed : passing.constants with
      | true => exact (byNumber passed).2
      | false => exact Option.some.inj (types passed)

/-- Constants in the order of their uses. -/
theorem embeddedConstants : List.Forall₂ (k.MatchesConstant passing k')
    (k.statements.filterMap fun a => Symbols.embedded a.instr)
    (k'.statements.filterMap fun a => Symbols.embedded a.instr) :=
  List.rel_filterMap (fun _ _ same => same) h.embedded

/-- Where constants are parameters, the parameters are described alike. -/
theorem constants (passed : passing.constants = true) : List.Forall₂ (k.MatchesConstant passing k')
    (Symbols.ofKernel k passing).constants (Symbols.ofKernel k' passing).constants := by
  have known : ∀ {k : Nest} {c : Constant},
      c ∈ k.statements.filterMap (fun a => Symbols.embedded a.instr) →
        c ∈ (Symbols.ofKernel k passing).constants := by
    intro k c here
    rw [Symbols.constants_eq]
    exact Symbols.mem_firstOfEach.mpr here
  rw [Symbols.constants_eq, Symbols.constants_eq]
  refine List.Forall₂.imp (fun _ _ same => same.2.2)
    (forall₂_firstOfEach ?_ (forall₂_with_mem h.embeddedConstants))
  rintro c c' ⟨hc, hc', same⟩ d d' ⟨hd, hd', same'⟩
  rw [Bool.eq_iff_iff, beq_iff_eq, beq_iff_eq, ← Symbols.constantNumber_inj (known hc) (known hd),
    ← Symbols.constantNumber_inj (known hc') (known hd'), same.number passed, same'.number passed]

/-- Constants of the same types are used. -/
theorem mem_constantTypes (type : DType) :
    type ∈ (Symbols.ofKernel k' passing).constants.map (·.dtype) ↔
      type ∈ (Symbols.ofKernel k passing).constants.map (·.dtype) := by
  have types := map_eq_of_forall₂ h.embeddedConstants (f := (·.dtype)) (g := (·.dtype))
    fun c c' same => same.dtype
  have listed : ∀ k : Nest, type ∈ (Symbols.ofKernel k passing).constants.map (·.dtype) ↔
      type ∈ (k.statements.filterMap fun a => Symbols.embedded a.instr).map (·.dtype) := by
    intro k
    rw [Symbols.constants_eq]
    simp only [List.mem_map, Symbols.mem_firstOfEach]
  rw [listed, listed, types]

theorem usesRandom_eq :
    (Symbols.ofKernel k' passing).usesRandom = (Symbols.ofKernel k passing).usesRandom := by
  rw [Symbols.usesRandom_eq, Symbols.usesRandom_eq]
  exact any_eq_of_forall₂ h.statements fun a b same => by rw [same.2.2.1.opcode]

end Described

end Nest

end ArrayFusion
