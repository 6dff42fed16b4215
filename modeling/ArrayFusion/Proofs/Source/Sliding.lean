import ArrayFusion.Fusion.Passes
import ArrayFusion.Proofs.Kernel.Numbers
import ArrayFusion.Proofs.Kernel.Structure
import ArrayFusion.Proofs.Kernel.Symbols
import ArrayFusion.Proofs.Source.Heading

/-!
# Sliding kernels

The windows of a sliding program move from one repeat to the next, and its kernels are otherwise the
same. Where starts and strides are parameters, none of them is written into the source: numbers of
views follow their first uses, and whatever is looked up by view is found in both kernels or in none.
So all repeats have one source and one hash.
-/

namespace ArrayFusion

/-- Two operands that differ in start and strides at most. An operand without base has no place that
could differ. -/
structure View.Slid (v w : View) : Prop where
  base : w.base = v.base
  dtype : w.dtype = v.dtype
  shape : w.shape = v.shape
  index : w.index = v.index
  constant : v.base = none → w.start = v.start

/-- Two instructions that differ in starts and strides of operands at most. -/
structure Instruction.Slid (i j : Instruction) : Prop where
  opcode : j.opcode = i.opcode
  constant : j.constant = i.constant
  creates : j.creates = i.creates
  operands : List.Forall₂ View.Slid i.operands j.operands

/-- Two loops of which the same is recorded, up to starts and strides. -/
structure LoopHead.Slid (head head' : LoopHead) : Prop where
  id : head'.id = head.id
  rank : head'.rank = head.rank
  size : head'.size = head.size
  sweeps : List.Forall₂ (fun s t : Statement => s.instr.Slid t.instr) head.sweeps head'.sweeps
  news : head'.news = head.news
  frees : head'.frees = head.frees

/-- Operands that stand in the same place of two kernels. -/
def Nest.Corresponds (k k' : Nest) (v w : View) : Prop := (v, w) ∈ k.operands.zip k'.operands

/-- Two kernels that differ in starts and strides at most, where any two operands are the same access
in one kernel exactly if they are in the other. -/
structure Nest.Slid (k k' : Nest) : Prop where
  tree : k.toNode.Related LoopHead.Slid Instruction.Slid k'.toNode
  accesses : ∀ v w v' w', k.Corresponds k' v w → k.Corresponds k' v' w' →
    w.sameAccess w' = v.sameAccess v'

namespace Instruction.Slid

variable {i j : Instruction}

theorem sweepAxis? (h : i.Slid j) : j.sweepAxis? = i.sweepAxis? := by
  rw [Instruction.sweepAxis?, Instruction.sweepAxis?, h.opcode, h.constant]

theorem indexBases (h : i.Slid j) : j.indexBases = i.indexBases := by
  rw [Instruction.indexBases, Instruction.indexBases]
  refine congrArg BaseSet.ofList (flatMap_eq_of_forall₂ h.operands fun v w slid => ?_)
  rw [View.indexBases, View.indexBases, slid.index]

theorem operandType? (h : i.Slid j) (k : Nat) : j.operandType? k = i.operandType? k := by
  rw [Instruction.operandType?, Instruction.operandType?, h.constant, h.opcode]
  have operand := forall₂_getElem? h.operands k
  generalize i.operands[k]? = v at operand
  generalize j.operands[k]? = w at operand
  cases operand with
  | none => rfl
  | some slid => rw [Option.map_some, Option.map_some, slid.base, slid.dtype]

end Instruction.Slid

namespace Nest.Slid

variable {k k' : Nest} (h : k.Slid k') (passing : Passing)

include h

/-! ## Symbols -/

theorem instrs : List.Forall₂ Instruction.Slid k.instrs k'.instrs :=
  List.forall₂_map_left_iff.mpr (List.forall₂_map_right_iff.mpr
    (Node.BodyRelated.statements _ _ (And.right h.tree)))

/-- Every operand corresponds to the one in its place. -/
theorem withPlaces : k.toNode.Related LoopHead.Slid (fun i j => i.Slid j ∧
    List.Forall₂ (k.Corresponds k') i.operands j.operands) k'.toNode := by
  have places := Instruction.forall₂_zip_operands (h.instrs.imp fun i j slid =>
    slid.operands.length_eq)
  have both : List.Forall₂ (fun i j : Instruction => i.Slid j ∧
      List.Forall₂ (k.Corresponds k') i.operands j.operands) k.instrs k'.instrs :=
    List.Forall₂.mp (fun i j slid operands => ⟨slid, operands⟩) h.instrs places
  have heads := (Node.Related.nests _ _ h.tree).imp fun l l' inner => And.left inner
  refine Node.Related.upgrade _ _ h.tree heads ?_
  rw [statements_toNode, statements_toNode]
  exact List.forall₂_map_left_iff.mp (List.forall₂_map_right_iff.mp both)

theorem sites : List.Forall₂ (fun p q : Nat × Instruction => q.1 = p.1 ∧ p.2.Slid q.2 ∧
    List.Forall₂ (k.Corresponds k') p.2.operands q.2.operands) k.sites k'.sites := by
  rw [Nest.sites, Nest.sites, (And.left h.tree).id]
  exact Node.BodyRelated.sites (fun _ _ head => head.id) k.head.id _ _ (And.right h.withPlaces)

/-- The same bases are accessed in the same loops by corresponding views. -/
theorem accesses_alike : List.Forall₂ (fun p q : BaseId × Access => q.1 = p.1 ∧
      q.2.loop = p.2.loop ∧ q.2.direct = p.2.direct ∧ p.2.view.Slid q.2.view ∧
      k.Corresponds k' p.2.view q.2.view)
    (Symbols.ofKernel k passing).accesses (Symbols.ofKernel k' passing).accesses := by
  apply List.rel_flatMap h.sites
  rintro ⟨loop, i⟩ ⟨loop', j⟩ ⟨rfl, slid, operands⟩
  have both := List.Forall₂.mp (S := fun v w => View.Slid v w ∧ k.Corresponds k' v w)
    (fun v w own place => ⟨own, place⟩) slid.operands operands
  refine List.rel_filterMap ?_ (forall₂_zipIdx both 0)
  rintro ⟨v, n⟩ ⟨w, n'⟩ ⟨⟨own, place⟩, rfl⟩
  dsimp only
  rw [own.base]
  cases base : v.base with
  | none => exact .none
  | some b =>
    have opcode : j.opcode = i.opcode := slid.opcode
    have indexBases : j.indexBases = i.indexBases := slid.indexBases
    refine .some ⟨rfl, rfl, ?_, own, place⟩
    simp only [Instruction.isIndirect, opcode, indexBases]

theorem bases_eq : (Symbols.ofKernel k' passing).bases = (Symbols.ofKernel k passing).bases :=
  congrArg (firstOfEach (· == ·)) (map_eq_of_forall₂ (h.accesses_alike passing) fun _ _ a => a.1)

theorem allTemps_eq : k'.allTemps = k.allTemps := by
  have nests := Node.Related.nests _ _ h.tree
  rw [nests_toNode, nests_toNode] at nests
  have news : k'.allNews = k.allNews :=
    congrArg BaseSet.unions (map_eq_of_forall₂ nests fun _ _ l => (And.left l).news)
  have frees : k'.allFrees = k.allFrees :=
    congrArg BaseSet.unions (map_eq_of_forall₂ nests fun _ _ l => (And.left l).frees)
  rw [allTemps, allTemps, news, frees]

theorem accessesOf_alike (b : BaseId) : List.Forall₂ (fun a a' : Access => a'.loop = a.loop ∧
      a'.direct = a.direct ∧ a.view.Slid a'.view ∧ k.Corresponds k' a.view a'.view)
    ((Symbols.ofKernel k passing).accessesOf b) ((Symbols.ofKernel k' passing).accessesOf b) := by
  have own := forall₂_filter (h.accesses_alike passing) (p := (·.1 == b)) (q := (·.1 == b))
    fun p q same => by rw [same.1]
  exact List.rel_map (fun p q same => same.2) own

/-- The same temporaries are scalars, of the same loops. -/
theorem scalarTemps_eq :
    (Symbols.ofKernel k' passing).scalarTemps = (Symbols.ofKernel k passing).scalarTemps := by
  rw [Symbols.scalarTemps_ofKernel, Symbols.scalarTemps_ofKernel, h.allTemps_eq]
  refine congrArg (List.filterMap · _) (funext fun b => ?_)
  have uses := h.accessesOf_alike passing b
  generalize (Symbols.ofKernel k passing).accessesOf b = as at uses
  generalize (Symbols.ofKernel k' passing).accessesOf b = as' at uses
  cases uses with
  | nil => rfl
  | @cons a a' as as' first rest =>
    have scalar : Access.allScalar (a' :: as') = Access.allScalar (a :: as) :=
      all_eq_of_forall₂ (.cons first rest) fun c c' other => by
        rw [other.1, other.2.1, first.1, h.accesses _ _ _ _ other.2.2.2 first.2.2.2]
    rw [scalar, List.head?_cons, List.head?_cons, Option.map_some, Option.map_some, first.1]

theorem params_eq : (Symbols.ofKernel k' passing).params = (Symbols.ofKernel k passing).params := by
  rw [Symbols.params_ofKernel, Symbols.params_ofKernel]
  simp only [Symbols.isScalarTemp, h.bases_eq, h.allTemps_eq, h.scalarTemps_eq]

theorem arrayTemps_eq :
    (Symbols.ofKernel k' passing).arrayTemps = (Symbols.ofKernel k passing).arrayTemps := by
  rw [Symbols.arrayTemps_ofKernel, Symbols.arrayTemps_ofKernel]
  simp only [Symbols.isScalarTemp, h.bases_eq, h.allTemps_eq, h.scalarTemps_eq]

theorem constants_eq :
    (Symbols.ofKernel k' passing).constants = (Symbols.ofKernel k passing).constants := by
  have embedded : ∀ i j : Instruction, i.Slid j → Symbols.embedded j = Symbols.embedded i :=
    fun i j slid => by rw [Symbols.embedded, Symbols.embedded, slid.opcode, slid.constant]
  exact congrArg (firstOfEach (· == ·))
    (filterMap_eq_of_forall₂ h.sites fun p q same => embedded p.2 q.2 same.2.1)

theorem usesRandom_eq :
    (Symbols.ofKernel k' passing).usesRandom = (Symbols.ofKernel k passing).usesRandom :=
  any_eq_of_forall₂ h.sites fun p q same => by dsimp only; rw [same.2.1.opcode]

/-- Views get their numbers in corresponding places. -/
theorem views_alike : List.Forall₂ (k.Corresponds k') (Symbols.ofKernel k passing).views
    (Symbols.ofKernel k' passing).views := by
  apply forall₂_firstOfEach
  · intro v w here v' w' here'
    exact (h.accesses v w v' w' here here').symm
  · exact List.rel_map (fun p q same => same.2.2.2.2) (h.accesses_alike passing)

theorem viewNumber_eq {v w : View} (here : k.Corresponds k' v w) :
    (Symbols.ofKernel k' passing).viewNumber w = (Symbols.ofKernel k passing).viewNumber v := by
  refine (Symbols.position_congr ?_ (h.views_alike passing)).symm
  intro v' w' here'
  exact (h.accesses v' w' v w here' here).symm

theorem dtype_eq (b : BaseId) :
    (Symbols.ofKernel k' passing).dtype b = (Symbols.ofKernel k passing).dtype b := by
  have uses := h.accessesOf_alike passing b
  rw [Symbols.dtype, Symbols.dtype]
  generalize (Symbols.ofKernel k passing).accessesOf b = as at uses
  generalize (Symbols.ofKernel k' passing).accessesOf b = as' at uses
  cases uses with
  | nil => rfl
  | cons first _ => exact first.2.2.1.dtype

theorem slid_of_corresponds {v w : View} (here : k.Corresponds k' v w) : v.Slid w := by
  have operands : List.Forall₂ View.Slid k.operands k'.operands :=
    List.rel_flatMap h.instrs fun i j slid => slid.operands
  exact List.forall₂_zip operands here

theorem baseNumber_eq (b : BaseId) :
    (Symbols.ofKernel k' passing).baseNumber b = (Symbols.ofKernel k passing).baseNumber b := by
  rw [Symbols.baseNumber, Symbols.baseNumber, h.bases_eq]

theorem isScalarTemp_eq (b : BaseId) :
    (Symbols.ofKernel k' passing).isScalarTemp b = (Symbols.ofKernel k passing).isScalarTemp b := by
  rw [Symbols.isScalarTemp, Symbols.isScalarTemp, h.scalarTemps_eq]

theorem constantNumber_eq (c : Constant) : (Symbols.ofKernel k' passing).constantNumber c =
    (Symbols.ofKernel k passing).constantNumber c := by
  rw [Symbols.constantNumber, Symbols.constantNumber, h.constants_eq]

/-- Corresponding operands are shown alike. -/
theorem symbols_alike (strides : passing.strides = true) :
    (Symbols.ofKernel k passing).Alike (Symbols.ofKernel k' passing) (k.Corresponds k') where
  passing := rfl
  views v w here := by
    have slid := h.slid_of_corresponds here
    cases base : v.base with
    | none => exact .constant base (slid.base.trans base) slid.shape (slid.constant base)
    | some b =>
      refine .array base (slid.base.trans base) (h.baseNumber_eq passing b)
        (h.isScalarTemp_eq passing b) (h.viewNumber_eq passing here) slid.dtype slid.shape ?_
      intro numbers
      exact absurd (strides.symm.trans numbers) nofun
  same := h.accesses

/-- Instructions are described alike. -/
theorem instrStructure_eq (strides : passing.strides = true) {i j : Instruction} (slid : i.Slid j)
    (operands : List.Forall₂ (k.Corresponds k') i.operands j.operands) :
    (Symbols.ofKernel k' passing).instrStructure j = (Symbols.ofKernel k passing).instrStructure i := by
  have described : j.operands.map ((Symbols.ofKernel k' passing).operandStructure j) =
      i.operands.map ((Symbols.ofKernel k passing).operandStructure i) := by
    apply map_eq_of_forall₂ operands
    intro v w here
    have own := h.slid_of_corresponds here
    simp only [Symbols.operandStructure, own.base, slid.constant, slid.opcode, own.dtype, own.shape,
      Symbols.passing_ofKernel, strides, h.baseNumber_eq passing, h.constantNumber_eq passing,
      h.viewNumber_eq passing here, if_true]
    rfl
  rw [Symbols.instrStructure, Symbols.instrStructure, slid.opcode, slid.sweepAxis?, described]

theorem structureText_eq (strides : passing.strides = true) :
    (Symbols.ofKernel k' passing).structureText k' = (Symbols.ofKernel k passing).structureText k := by
  refine Symbols.nodeStructure_related (H := LoopHead.Slid) ?_ ?_ _ _ h.withPlaces
  · intro head head' slid
    rw [Symbols.headStructure, Symbols.headStructure, slid.rank, slid.size, slid.sweeps.length_eq]
  · rintro i j ⟨slid, operands⟩
    exact h.instrStructure_eq passing strides slid operands

theorem hash_eq (strides : passing.strides = true) :
    (Symbols.ofKernel k' passing).hash = (Symbols.ofKernel k passing).hash := by
  rw [Symbols.hash_ofKernel, Symbols.hash_ofKernel, h.structureText_eq passing strides]

/-! ## Source -/

/-- Loops are shown alike and declare the same scalars. -/
theorem head_alike {head head' : LoopHead} (slid : head.Slid head') :
    head.Alike (Symbols.ofKernel k passing) (Symbols.ofKernel k' passing) head' where
  rank := slid.rank
  size := slid.size
  sweeps := by
    have length := slid.sweeps.length_eq
    cases hs : head.sweeps <;> cases hs' : head'.sweeps <;> simp_all
  scans := any_eq_of_forall₂ slid.sweeps fun s t sweep => by rw [sweep.opcode]
  scalars := by
    rw [Symbols.scalarTempsOf, Symbols.scalarTempsOf, h.scalarTemps_eq, slid.id]
    refine List.map_congr_left fun b _ => ?_
    rw [h.dtype_eq passing b, h.baseNumber_eq passing b]

/-- Constants have the same names. -/
theorem constantText_eq (d : Dialect) (c : Constant) :
    d.constantText (Symbols.ofKernel k' passing) c = d.constantText (Symbols.ofKernel k passing) c := by
  rw [Dialect.constantText, Dialect.constantText, h.constantNumber_eq]
  rfl

theorem instr_alike (d : Dialect) {s : Statement} (hs : s ∈ k.statements) {j : Instruction}
    (slid : s.instr.Slid j)
    (operands : List.Forall₂ (k.Corresponds k') s.instr.operands j.operands) :
    s.instr.Alike d (Symbols.ofKernel k passing) (Symbols.ofKernel k' passing)
      (k.Corresponds k') j where
  opcode := slid.opcode
  operands := operands
  axis := slid.sweepAxis?
  types n _ := slid.operandType? n
  constant := by
    rw [Dialect.constantOperand, Dialect.constantOperand, slid.constant, slid.opcode]
    cases s.instr.constant with
    | none => rfl
    | some c => simp only [h.constantText_eq passing]
  random _ position := by
    simp only [Dialect.randomText?, slid.constant, h.constantNumber_eq passing]
    rfl
  arrays n v b hv base array := Symbols.isScalarTemp_eq_false passing hs hv base array

theorem nest_alike (d : Dialect) :
    k.Alike d (Symbols.ofKernel k passing) (Symbols.ofKernel k' passing) (k.Corresponds k') k' := by
  refine Node.Related.upgrade _ _ h.withPlaces ?_ ?_
  · exact (Node.Related.nests _ _ h.tree).imp fun l l' inner => h.head_alike passing (And.left inner)
  · have statements := Node.Related.statements _ _ h.withPlaces
    have here := (List.forall₂_and_left (p := (· ∈ k.toNode.statements)) _ _).mpr
      ⟨fun s hs => hs, statements⟩
    rw [statements_toNode, statements_toNode] at *
    exact here.imp fun s t both => h.instr_alike passing d both.1 both.2.1 both.2.2

/-- The parameters for starts and strides have the same names. -/
theorem strideNames_eq :
    (Symbols.ofKernel k' passing).strideNames = (Symbols.ofKernel k passing).strideNames := by
  have chosen := forall₂_filter (h.views_alike passing)
    (p := (Symbols.ofKernel k passing).hasParameters)
    (q := (Symbols.ofKernel k' passing).hasParameters) fun v w here => by
      have own := h.slid_of_corresponds here
      simp only [Symbols.hasParameters, own.base, h.isScalarTemp_eq passing]
      rfl
  refine flatMap_eq_of_forall₂ chosen fun v w here => ?_
  have axes := congrArg List.length (h.slid_of_corresponds here).shape
  rw [View.length_shape, View.length_shape] at axes
  rw [h.viewNumber_eq passing here, axes]

theorem heading_alike {d : Dialect} (target : d.target ≠ .fortran) (strides : passing.strides = true)
    (temps : (Symbols.ofKernel k passing).arrayTemps = []) :
    (Symbols.ofKernel k passing).HeadingAlike d (Symbols.ofKernel k' passing) where
  passing := rfl
  params := by
    rw [h.params_eq passing]
    refine List.forall₂_same.mpr fun b _ => ⟨h.baseNumber_eq passing b, h.dtype_eq passing b, ?_⟩
    intro fortran
    exact absurd (eq_of_beq fortran) target
  arrayTemps := by
    rw [h.arrayTemps_eq passing, temps]
    exact .nil
  strideNames := h.strideNames_eq passing
  constants := by
    have same : (Symbols.ofKernel k' passing).passedConstants =
        (Symbols.ofKernel k passing).passedConstants := by
      rw [Symbols.passedConstants, Symbols.passedConstants, h.constants_eq passing]
      rfl
    rw [same]
    refine List.forall₂_same.mpr fun c _ => ⟨?_, rfl⟩
    rw [Symbols.constantName, Symbols.constantName, h.constantNumber_eq passing c]
  uses type := by
    rw [Symbols.uses, Symbols.uses, h.bases_eq passing, h.constants_eq passing,
      funext (h.dtype_eq passing)]
  constantTypes type := by rw [h.constants_eq passing]
  usesRandom := h.usesRandom_eq passing
  hash := h.hash_eq passing strides

end Nest.Slid

/-- Where starts and strides are parameters, a kernel that slides keeps its source and its hash. Take
two kernels that differ in starts and strides of operands at most, where any two operands are the same
access in one kernel exactly if they are in the other, and that allocate no arrays. In C, OpenCL and
CUDA both are written with the same text, or none of them is written. -/
theorem Dialect.write_of_slid (d : Dialect) (target : d.target ≠ .fortran) {passing : Passing}
    (strides : passing.strides = true) {k k' : Nest} (slid : k.Slid k')
    (temps : (Symbols.ofKernel k passing).arrayTemps = []) :
    (d.write k' passing).toOption.map (·.text) = (d.write k passing).toOption.map (·.text) ∧
      (Symbols.ofKernel k' passing).hash = (Symbols.ofKernel k passing).hash := by
  constructor
  · exact write_alike (slid.symbols_alike passing strides)
      (slid.heading_alike passing target strides temps) (slid.nest_alike passing d)
  · exact slid.hash_eq passing strides

/-- Neighbours in a row are added, and then those that stand two elements further on. -/
theorem Dialect.write_of_slid_row :
    let window (b : BaseId) (start : Int) : View :=
      { base := some b, dtype := .float64, start, axes := [⟨4, 1⟩] }
    let sum (start : Int) : Instruction :=
      { opcode := .binary .add, operands := [window 1 0, window 0 start, window 0 (start + 1)] }
    let k (start : Int) : Nest :=
      (Fusion.kernel [(Nest.ofStatements 0 [] [.fresh (sum start)] 0).1] 0).1
    let d : Dialect := { target := .openmp }
    (d.write (k 2) {}).toOption.map (·.text) = (d.write (k 0) {}).toOption.map (·.text) ∧
      (Symbols.ofKernel (k 2) {}).hash = (Symbols.ofKernel (k 0) {}).hash := by
  intro window sum k d
  have views : List.Forall₂ View.Slid (sum 0).operands (sum 2).operands := by
    refine .cons ?_ (.cons ?_ (.cons ?_ .nil)) <;> exact ⟨rfl, rfl, rfl, rfl, nofun⟩
  have heads : (k 0).toNode.Related LoopHead.Slid Instruction.Slid (k 2).toNode :=
    ⟨⟨rfl, rfl, rfl, .nil, rfl, rfl⟩, ⟨⟨rfl, rfl, rfl, .nil, rfl, rfl⟩, ⟨rfl, rfl, rfl, views⟩,
      trivial⟩, trivial⟩
  have pairs : ∀ p ∈ (k 0).operands.zip (k 2).operands, ∀ q ∈ (k 0).operands.zip (k 2).operands,
      p.2.sameAccess q.2 = p.1.sameAccess q.1 := by decide
  have slid : (k 0).Slid (k 2) :=
    ⟨heads, fun v w v' w' here here' => pairs (v, w) here (v', w') here'⟩
  have temps : (Symbols.ofKernel (k 0) {}).arrayTemps = [] := by decide +kernel
  exact write_of_slid d nofun rfl slid temps

end ArrayFusion
