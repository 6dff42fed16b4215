import ArrayFusion.Proofs.Eval.Parallel
import ArrayFusion.Proofs.Fusion.Isolation
import ArrayFusion.Proofs.Fusion.Passes
import ArrayFusion.Proofs.Source.Inside
import ArrayFusion.Proofs.Source.Threads

/-!
# The parallel loops are the threaded ones

Three places decide which leading loops of a nest run in parallel. One counts them, one lists their
sizes for a launch, and the code of a loop only compares its rank with the length of this list. They
agree because fused loops nest rank by rank: the parallel loops are the only loops of their ranks,
and all others are deeper.
-/

namespace ArrayFusion

namespace Node

variable {outer : List Int} {n : Node}

/-- The parallel loops have the ranks that follow those of the loops around the node. -/
theorem map_rank_parallelNests (layout : n.Layout outer) (limit : Nat) :
    (n.parallelNests limit).map (·.head.rank) =
      (List.range' outer.length (n.parallelNests limit).length).map fun rank : Nat => (rank : Int) := by
  induction limit generalizing n outer with
  | zero => cases n <;> rfl
  | succ limit ih =>
    obtain none | ⟨head, body, rfl, -, -, own⟩ := parallelNests_succ limit n
    · rw [none]
      rfl
    have rank : head.rank = outer.length := Nest.layout_rank (l := ⟨head, body⟩) layout
    obtain own | ⟨inner, rfl, own⟩ := own
    · rw [own]
      simp [rank]
    · have later := ih (layout.nodes inner (List.mem_singleton_self inner))
      rw [List.length_append, List.length_singleton] at later
      rw [own, List.map_cons, later, List.length_cons, List.range'_succ, List.map_cons, rank]

/-- Of all loops of the node, the parallel ones are those whose rank is below the first rank that is
not parallel. -/
theorem filter_rank_lt (layout : n.Layout outer) (limit : Nat) :
    n.nests.filter (fun l : Nest => l.head.rank < (outer.length + (n.parallelNests limit).length : Nat)) =
      n.parallelNests limit := by
  have deep : ∀ {outer : List Int} {m : Node}, m.Layout outer →
      m.nests.filter (fun l : Nest => l.head.rank < (outer.length : Nat)) = [] := by
    intro outer m layout
    apply List.filter_eq_nil_iff.mpr
    intro l hl
    simpa using layout.length_le_rank l hl
  induction limit generalizing n outer with
  | zero =>
    have none : n.parallelNests 0 = [] := by cases n <;> rfl
    rw [none]
    exact deep layout
  | succ limit ih =>
    obtain none | ⟨head, body, rfl, -, -, own⟩ := parallelNests_succ limit n
    · rw [none]
      exact deep layout
    have rank : head.rank = outer.length := Nest.layout_rank (l := ⟨head, body⟩) layout
    obtain own | ⟨inner, rfl, own⟩ := own
    · have others : (bodyNests body).filter
          (fun l : Nest => l.head.rank < (outer.length + 1 : Nat)) = [] := by
        rw [bodyNests_eq_flatMap, List.filter_flatMap]
        apply List.flatMap_eq_nil_iff.mpr
        intro m hm
        simpa using deep (layout.nodes m hm)
      rw [own, nests, List.length_singleton, List.filter_cons_of_pos (by simp [rank]), others]
    · have later := ih (layout.nodes inner (List.mem_singleton_self inner))
      rw [List.length_append, List.length_singleton, Nat.add_assoc, Nat.add_comm 1] at later
      rw [own, nests, bodyNests, bodyNests, List.append_nil, List.length_cons,
        List.filter_cons_of_pos (by simp [rank]), later]

/-- A parallel loop holds all statements of the node. -/
theorem statements_of_mem_parallelNests {limit : Nat} {l : Nest}
    (hl : l ∈ n.parallelNests limit) : l.statements = n.statements := by
  obtain ⟨k, hk⟩ := List.getElem?_of_mem hl
  exact (leads_of_parallelNests hk).statements_eq.symm

end Node

namespace Fusion

/-- A kernel of a well laid out nest is valid. -/
theorem isValid_kernel {l : Nest} (layout : l.toNode.Layout []) (next : Nat) :
    (kernel [l] next).1.isValid = true := by
  have inner : Node.fitsBody l.head.rank l.head.size l.body = true := Nest.isValid_of_layout layout
  have rank : l.head.rank = 0 := Nest.layout_rank layout
  have size : 0 ≤ l.head.size := Nest.layout_size layout
  rw [kernel_eq, Nest.isValid_refresh, Nest.isValid, Node.fitsBody, Node.fitsBody, Nest.toNode,
    Node.fits, inner, rank]
  simpa using size

section Prefix

variable {l : Nest} {d : Dialect}

theorem subNests_kernel (l : Nest) (next : Nat) :
    (kernel [l] next).1.subNests = l.toNode.nests := List.append_nil _

/-- The sizes that are launched are those of the parallel loops. -/
theorem map_size_parallelNests (built : Built l) (limit next : Nat) :
    (l.toNode.parallelNests limit).map (·.head.size) = (kernel [l] next).1.threadStack limit := by
  rw [← Node.parallelSizes_eq]
  exact (Node.leadingSizes_eq (Nest.layout_of_built built) limit).symm

theorem length_parallelNests (built : Built l) (limit next : Nat) :
    (l.toNode.parallelNests limit).length = ((kernel [l] next).1.threadStack limit).length := by
  rw [← map_size_parallelNests built, List.length_map]

/-- The parallel loops are all loops of the kernel whose rank is below the number of sizes that are
launched. -/
theorem filter_rank_lt_threadStack (built : Built l) (limit next : Nat) :
    (kernel [l] next).1.subNests.filter (fun loop : Nest =>
        loop.head.rank < (((kernel [l] next).1.threadStack limit).length : Nat)) =
      l.toNode.parallelNests limit := by
  have leading := Node.filter_rank_lt (Nest.layout_of_built built) limit
  rw [List.length_nil, Nat.zero_add] at leading
  rw [subNests_kernel, ← length_parallelNests built]
  exact leading

theorem mem_parallelNests_iff (built : Built l) {limit : Nat} (next : Nat) {loop : Nest} :
    loop ∈ l.toNode.parallelNests limit ↔ loop ∈ (kernel [l] next).1.subNests ∧
      loop.head.rank < (((kernel [l] next).1.threadStack limit).length : Nat) := by
  rw [← filter_rank_lt_threadStack built limit next, List.mem_filter, decide_eq_true_iff]

/-- A loop that has iterations has a positive number of them, and a rank. -/
theorem size_pos_of_built (built : Built l) (nonempty : ∀ loop ∈ l.toNode.nests, loop.head.size ≠ 0)
    {loop : Nest} (hloop : loop ∈ l.toNode.nests) : 0 < loop.head.size ∧ 0 ≤ loop.head.rank := by
  obtain ⟨outer, inner⟩ := Nest.layout_of_mem_nests (Nest.layout_of_built built) loop hloop
  have size := Nest.layout_size inner
  have rank := Nest.layout_rank inner
  have other := nonempty loop hloop
  exact ⟨by omega, by omega⟩

/-- With as many threaded ranks as sizes are launched, the loops that are written as threaded blocks
are the parallel ones. -/
theorem mem_parallelNests_iff_threaded (built : Built l) (computes : l.statements ≠ [])
    (nonempty : ∀ loop ∈ l.toNode.nests, loop.head.size ≠ 0) {limit next : Nat} {s : Scope}
    {parts : Scope → Except Fault (List Code)} {loop : Nest} {code : List Code}
    (threaded : s.threadedRanks = ((kernel [l] next).1.threadStack limit).length)
    (hloop : loop ∈ (kernel [l] next).1.subNests) (made : d.loopCode s loop parts = .ok code) :
    loop ∈ l.toNode.parallelNests limit ↔ ∃ index body,
      code = [.threaded loop.head.rank.toNat index loop.head.size body] := by
  obtain ⟨positive, nonneg⟩ := size_pos_of_built built nonempty (subNests_kernel l next ▸ hloop)
  rw [Dialect.loopCode_eq_threaded_iff made, threaded]
  constructor
  · intro parallel
    have same := Node.statements_of_mem_parallelNests parallel
    rw [Nest.statements_toNode] at same
    exact ⟨positive, same ▸ computes, nonneg, ((mem_parallelNests_iff built next).mp parallel).2⟩
  · rintro ⟨-, -, -, shallow⟩
    exact (mem_parallelNests_iff built next).mpr ⟨hloop, shallow⟩

/-- The threaded blocks of the whole kernel are those of the sizes that are launched, in order. -/
theorem threadedIn_of_built (built : Built l) (computes : l.statements ≠ [])
    (nonempty : ∀ loop ∈ l.toNode.nests, loop.head.size ≠ 0) {limit next : Nat} {t : Symbols}
    {code : List Code}
    (made : d.kernelCode (.root t ((kernel [l] next).1.threadStack limit).length)
      (kernel [l] next).1 = .ok code) :
    Code.threadedIn code = Dialect.ranked 0 ((kernel [l] next).1.threadStack limit) := by
  have positive : ∀ size ∈ (kernel [l] next).1.threadStack limit, 0 < size := by
    intro size hsize
    rw [← map_size_parallelNests built] at hsize
    obtain ⟨loop, hloop, rfl⟩ := List.mem_map.mp hsize
    have inside := ((mem_parallelNests_iff built next).mp hloop).1
    exact (size_pos_of_built built nonempty (subNests_kernel l next ▸ inside)).1
  have computes' : (kernel [l] next).1.statements ≠ [] := by
    rw [statements_kernel]
    exact computes
  have valid := isValid_kernel (Nest.layout_of_built built) next
  exact Dialect.threadedIn_kernelCode valid rfl positive computes' made

end Prefix

/-- Of a fused nest with something to do and no loop that runs never, the number of parallel loops
and of their iterations are the length and the product of the sizes that are launched for its
kernel. Nothing else in the kernel has a rank below this length, so that with as many threaded ranks
the parallel loops are exactly those that a threaded block opens. -/
theorem parallelRanks_eq_threadStack {l : Nest} (built : Built l) (computes : l.statements ≠ [])
    (nonempty : ∀ loop ∈ l.toNode.nests, loop.head.size ≠ 0) (limit next : Nat) :
    let kernel := (kernel [l] next).1
    let stack := kernel.threadStack limit
    let loops := l.toNode.parallelNests limit
    l.parallelRanks limit = (stack.length, elementCount stack) ∧
    loops.map (·.head.size) = stack ∧
    loops.map (·.head.rank) = (List.range stack.length).map (fun rank : Nat => (rank : Int)) ∧
    kernel.subNests.filter (fun loop : Nest => loop.head.rank < (stack.length : Nat)) = loops ∧
    ∀ d : Dialect,
      (∀ s parts, s.threadedRanks = stack.length → ∀ loop ∈ kernel.subNests, ∀ code,
        d.loopCode s loop parts = .ok code → (loop ∈ loops ↔ ∃ index body,
          code = [.threaded loop.head.rank.toNat index loop.head.size body])) ∧
      ∀ t code, d.kernelCode (.root t stack.length) kernel = .ok code →
        Code.threadedIn code = Dialect.ranked 0 stack := by
  intro kernel stack loops
  have sizes := map_size_parallelNests built limit next
  have ranks := Node.map_rank_parallelNests (Nest.layout_of_built built) limit
  rw [List.length_nil, length_parallelNests built limit next, ← List.range_eq_range'] at ranks
  refine ⟨?_, sizes, ranks, filter_rank_lt_threadStack built limit next, fun d => ⟨?_, ?_⟩⟩
  · rw [Nest.parallelRanks, Node.parallelSizes_eq, sizes]
  · intro s parts threaded loop hloop code made
    exact mem_parallelNests_iff_threaded built computes nonempty threaded hloop made
  · intro t code made
    exact threadedIn_of_built built computes nonempty made

/-- The rows of a table are summed up on hardware threads, one row on each. -/
theorem parallelRanks_eq_threadStack_rows :
    let table : View := { base := some 0, dtype := .int64, axes := View.rowMajor [4, 3] }
    let ss := Statement.number [.sweep (.reduce .add) (.whole 1 .int64 4) table 1] 0
    let d : Dialect := { target := .opencl }
    ∃ l m, fuse false ss 0 = .ok ([l], m) ∧
      l.parallelRanks 3 = (1, 4) ∧ (kernel [l] m).1.threadStack 3 = [4] ∧
      ∃ code, d.kernelCode (.root (.ofKernel (kernel [l] m).1 {}) 1) (kernel [l] m).1 = .ok code ∧
        Code.threadedIn code = [(0, 4)] := by
  intro table ss d
  have single : (fuse false ss 0).toOption.map (fun r => r.1.map fun l =>
      let kernel := (kernel [l] r.2).1
      (kernel.threadStack 3, l.statements.length, l.toNode.nests.map (·.head.size),
        (d.kernelCode (.root (.ofKernel kernel {}) 1) kernel).isOk)) =
          some [([4], 1, [4, 3], true)] := by
    decide +kernel
  cases found : fuse false ss 0 with
  | error e => simp [found, Except.toOption] at single
  | ok r =>
    obtain ⟨ls, m⟩ := r
    rw [found] at single
    obtain ⟨l, rfl, facts⟩ := List.map_eq_singleton_iff.mp (Option.some.inj single)
    obtain ⟨stack, facts⟩ := Prod.mk.inj facts
    obtain ⟨computes, facts⟩ := Prod.mk.inj facts
    obtain ⟨sizes, written⟩ := Prod.mk.inj facts
    have built := built_of_fuse (by decide : ∀ s ∈ ss, s.instr.WellFormed) found l (by simp)
    have nonempty : ∀ loop ∈ l.toNode.nests, loop.head.size ≠ 0 := by
      intro loop hloop
      have listed : loop.head.size ∈ [4, 3] := sizes ▸ List.mem_map_of_mem hloop
      rintro zero
      simp [zero] at listed
    have some : l.statements ≠ [] := List.ne_nil_of_length_eq_add_one computes
    obtain ⟨counted, -, -, -, blocks⟩ := parallelRanks_eq_threadStack built some nonempty 3 m
    cases made : d.kernelCode (.root (.ofKernel (kernel [l] m).1 {}) 1) (kernel [l] m).1 with
    | error e => simp [made, Except.isOk, Except.toBool] at written
    | ok code =>
      rw [stack] at counted blocks
      exact ⟨l, m, rfl, counted, stack, code, made, (blocks d).2 _ code made⟩

end Fusion

end ArrayFusion
