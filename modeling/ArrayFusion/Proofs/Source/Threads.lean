import ArrayFusion.Proofs.Nest.Layout
import ArrayFusion.Proofs.Source.Origins

/-!
# Threaded blocks of a device kernel

The leading loops of a device kernel become blocks that every hardware thread runs for its own
index, if the index is not beyond the loop. The stack of a kernel lists the sizes of these loops.
This module shows that the code of a valid kernel has exactly one such block for each entry of the
stack, from the outside inward, with its size: what is launched for the stack is what the code
asks for.
-/

namespace ArrayFusion

namespace Code

mutual

/-- Ranks and sizes of the threaded blocks of a part of code, from the outside inward. -/
def threadedBlocks : Code → List (Nat × Int)
  | .statement _ | .declaration _ | .guarded .. | .indexSetting .. => []
  | .block _ body | .scope body | .loop _ _ _ _ body => threadedIn body
  | .threaded rank _ size body => (rank, size) :: threadedIn body

/-- Ranks and sizes of the threaded blocks of a body. -/
def threadedIn : List Code → List (Nat × Int)
  | [] => []
  | c :: body => c.threadedBlocks ++ threadedIn body

end

theorem threadedIn_eq_flatMap (body : List Code) :
    threadedIn body = body.flatMap threadedBlocks := by
  induction body with
  | nil => rfl
  | cons c body ih => rw [threadedIn, ih, List.flatMap_cons]

theorem threadedIn_append (first second : List Code) :
    threadedIn (first ++ second) = threadedIn first ++ threadedIn second := by
  simp only [threadedIn_eq_flatMap, List.flatMap_append]

theorem threadedIn_eq_nil {body : List Code} (plain : ∀ c ∈ body, c.threadedBlocks = []) :
    threadedIn body = [] := by
  rw [threadedIn_eq_flatMap]
  exact List.flatMap_eq_nil_iff.mpr plain

theorem threadedIn_map {α : Type} {f : α → Code} (plain : ∀ x, (f x).threadedBlocks = [])
    (xs : List α) : threadedIn (xs.map f) = [] := by
  refine threadedIn_eq_nil fun c hc => ?_
  obtain ⟨x, -, rfl⟩ := List.mem_map.mp hc
  exact plain x

theorem Declares.threadedIn {body : List Code} (h : Declares body) : threadedIn body = [] := by
  refine threadedIn_eq_nil fun c hc => ?_
  obtain ⟨line, rfl⟩ := h c hc
  rfl

end Code

/-- The leading loops of a body: none, or the only node and the leading loops of its body. -/
theorem Node.leadingSizes_succ (limit : Nat) (body : List Node) :
    leadingSizes (limit + 1) body = [] ∨ ∃ head inner, body = [.loop head inner] ∧
      leadingSizes (limit + 1) body = head.size :: leadingSizes limit inner := by
  rw [leadingSizes.eq_def]
  split
  next head inner same =>
    cases same
    split
    · exact .inr ⟨head, inner, rfl, rfl⟩
    · exact .inl rfl
  next => exact .inl rfl

open Code (threadedIn threadedIn_append threadedIn_eq_nil threadedIn_map)

namespace Dialect

variable {d : Dialect} {s : Scope}

/-! ## Parts without threads -/

theorem threadedIn_statement {i : Instruction} {code : List Code}
    (h : d.statement s i = .ok code) : threadedIn code = [] := by
  obtain ⟨-, rfl⟩ | ⟨text, -, rfl⟩ := statement_eq_ok h
  · rfl
  · cases protection? s i <;> rfl

theorem threadedRanks_indexVariables (s : Scope) (es : List String) :
    (indexVariables s es).1.threadedRanks = s.threadedRanks := by
  induction es generalizing s with
  | nil => rfl
  | cons e es ih =>
    rw [indexVariables]
    cases s.indexVar? e with
    | some name => exact ih s
    | none =>
      have added : (s.addIndexVar e).1.threadedRanks = s.threadedRanks := by
        rw [Scope.addIndexVar]
        split <;> rfl
      exact (ih _).trans added

theorem threadedRanks_named (s : Scope) (l : Nest) :
    (named s l).1.threadedRanks = s.threadedRanks := by
  rw [named]
  split
  · exact threadedRanks_indexVariables s _
  · rfl

/-- The body of a loop adds declarations and settings to its parts. -/
theorem threadedIn_loopBody {l : Nest} {parts : Scope → Except Fault (List Code)}
    {code : List Code} (h : d.loopBody s l parts = .ok code) : ∃ body,
      parts (named s l).1 = .ok body ∧ threadedIn code = threadedIn body := by
  obtain ⟨heading, body, declares, made, same⟩ := loopBody_split h
  have located : threadedIn (settings (named s l).2) = [] := threadedIn_map (fun _ => rfl) _
  refine ⟨body, made, ?_⟩
  obtain rfl | rfl := same
  · rw [threadedIn_append, threadedIn_append, declares.threadedIn, located]
    rfl
  · rw [threadedIn, threadedIn, Code.threadedBlocks, threadedIn_append, threadedIn_append,
      declares.threadedIn, located, List.append_nil]
    rfl

theorem threadedRanks_foldScope (s : Scope) (l : Nest) (guarded : List (View × Protection)) :
    (foldScope s l guarded).threadedRanks = s.threadedRanks := by
  have replaced (views : List View) (s : Scope) :
      (views.foldl Scope.replace s).threadedRanks = s.threadedRanks := by
    induction views generalizing s with
    | nil => rfl
    | cons v views ih => exact ih (s.replace v)
  have kept (views : List (View × Protection)) (s : Scope) :
      (views.foldl (fun s entry => s.guard entry.1 entry.2) s).threadedRanks = s.threadedRanks := by
    induction views generalizing s with
    | nil => rfl
    | cons v views ih => exact ih (s.guard v.1 v.2)
  exact (kept _ _).trans (replaced _ _)

section Behind

variable {l : Nest} {parts : Scope → Except Fault (List Code)} {code : List Code}
  (plain : ∀ s' body, s'.threadedRanks = s.threadedRanks → parts s' = .ok body →
    threadedIn body = [])

include plain

theorem threadedIn_inside {s' : Scope} (same : s'.threadedRanks = s.threadedRanks)
    (h : d.loopBody s' l parts = .ok code) : threadedIn code = [] := by
  obtain ⟨body, made, blocks⟩ := threadedIn_loopBody h
  exact blocks.trans (plain _ body ((threadedRanks_named s' l).trans same) made)

theorem threadedIn_opening (h : d.opening s l parts = .ok code) : threadedIn code = [] := by
  obtain ⟨-, rfl⟩ | ⟨-, body, made, rfl⟩ := opening_eq_ok h
  · rfl
  · have same : ((foldScope s l []).openAxis l.head.rank.toNat).threadedRanks =
        s.threadedRanks := threadedRanks_foldScope s l []
    simp [threadedIn, Code.threadedBlocks, threadedIn_inside plain same made]

theorem threadedIn_remaining (h : d.remaining s l parts = .ok code) : threadedIn code = [] := by
  obtain ⟨-, rfl⟩ | ⟨-, body, made, rfl⟩ := remaining_eq_ok h
  · rfl
  · have same := threadedRanks_foldScope s l (d.guards s l)
    simp [threadedIn, Code.threadedBlocks, threadedIn_inside plain same made]

/-- No loop behind the threaded ones becomes a threaded block. -/
theorem threadedIn_loopCode (deep : (s.threadedRanks : Int) ≤ l.head.rank)
    (h : d.loopCode s l parts = .ok code) : threadedIn code = [] := by
  obtain ⟨-, rfl⟩ | ⟨-, ⟨shallow, -⟩ |
    ⟨-, declarations, opening, remaining, declared, opened, remained, rfl⟩⟩ := loopCode_eq_ok h
  · rfl
  · omega
  have first := threadedIn_opening plain opened
  have rest := threadedIn_remaining plain remained
  have stored : threadedIn (d.results s (keptOutputs s l)) = [] := threadedIn_map (fun _ => rfl) _
  split
  · rw [threadedIn_append, first, rest]
    rfl
  · simp [threadedIn, Code.threadedBlocks, threadedIn_append, declared.threadedIn, first, rest,
      stored]

end Behind

mutual

/-- Nodes of a valid kernel behind the threaded loops have no threaded blocks. -/
theorem threadedIn_nodeCode : (n : Node) → {s : Scope} → {code : List Code} → {rank size : Int} →
    n.fits rank size = true → (s.threadedRanks : Int) ≤ rank + 1 → d.nodeCode s n = .ok code →
    threadedIn code = []
  | .leaf _ _, _, _, _, _, _, _, h => threadedIn_statement h
  | .loop head body, s, code, rank, size, fits, deep, h => by
    simp only [Node.fits, Bool.and_eq_true, beq_iff_eq] at fits
    obtain ⟨⟨here, -⟩, inner⟩ := fits
    refine threadedIn_loopCode (fun s' body' same made => ?_) (by simpa [here] using deep) h
    exact threadedIn_bodyCode body inner (by omega) made

theorem threadedIn_bodyCode : (body : List Node) → {s : Scope} → {code : List Code} →
    {rank size : Int} → Node.fitsBody rank size body = true →
    (s.threadedRanks : Int) ≤ rank + 1 → d.bodyCode s body = .ok code → threadedIn code = []
  | [], _, _, _, _, _, _, h => by
    cases h
    rfl
  | n :: body, s, code, rank, size, fits, deep, h => by
    rw [Node.fitsBody, Bool.and_eq_true] at fits
    obtain ⟨first, made, h⟩ := exists_of_bind_eq_ok h
    obtain ⟨rest, made', h⟩ := exists_of_bind_eq_ok h
    cases h
    rw [threadedIn_append, threadedIn_nodeCode n fits.1 deep made,
      threadedIn_bodyCode body fits.2 deep made']
    rfl

end

/-! ## The threaded loops -/

/-- Entries of a stack with their ranks, from the given rank on. -/
def ranked (depth : Nat) (stack : List Int) : List (Nat × Int) :=
  (stack.zipIdx depth).map fun (size, rank) => (rank, size)

/-- The loops that threaded blocks open are those with something to do whose rank is below the number
of threaded ranks. -/
theorem loopCode_eq_threaded_iff {l : Nest} {parts : Scope → Except Fault (List Code)}
    {code : List Code} (h : d.loopCode s l parts = .ok code) :
    (∃ index body, code = [.threaded l.head.rank.toNat index l.head.size body]) ↔
      0 < l.head.size ∧ l.statements ≠ [] ∧ 0 ≤ l.head.rank ∧ l.head.rank < s.threadedRanks := by
  obtain ⟨idle, rfl⟩ | ⟨busy, found⟩ := loopCode_eq_ok h
  · rw [List.isEmpty_iff] at idle
    constructor
    · rintro ⟨index, body, same⟩
      contradiction
    · rintro ⟨positive, computes, nonneg, -⟩
      obtain none | none | none := idle
      · omega
      · exact absurd none computes
      · omega
  rw [List.isEmpty_iff, not_or, not_or] at busy
  obtain ⟨positive, computes, nonneg⟩ := busy
  obtain ⟨leading, index, body, -, rfl⟩ |
    ⟨deep, declarations, first, rest, -, opened, remained, rfl⟩ := found
  · exact ⟨fun _ => ⟨by omega, computes, by omega, by omega⟩, fun _ => ⟨index, body, rfl⟩⟩
  · refine ⟨?_, fun leading => absurd leading.2.2.2 (by omega)⟩
    rintro ⟨index, body, same⟩
    split at same
    · obtain ⟨-, rfl⟩ | ⟨-, opening, -, rfl⟩ := opening_eq_ok opened <;>
        obtain ⟨-, rfl⟩ | ⟨-, remaining, -, rfl⟩ := remaining_eq_ok remained <;>
        simp at same
    · simp at same

/-- A leading loop becomes a threaded block around the code of its body. -/
theorem loopCode_threaded {l : Nest} {parts : Scope → Except Fault (List Code)} {code : List Code}
    {depth : Nat} (rank : l.head.rank = depth) (threaded : depth < s.threadedRanks)
    (positive : 0 < l.head.size) (computes : l.statements ≠ [])
    (h : d.loopCode s l parts = .ok code) : ∃ s' body, s'.threadedRanks = s.threadedRanks ∧
      parts s' = .ok body ∧ threadedIn code = (depth, l.head.size) :: threadedIn body := by
  obtain ⟨idle, -⟩ | ⟨-, ⟨-, index, inner, made, rfl⟩ | ⟨deep, -⟩⟩ := loopCode_eq_ok h
  · rw [List.isEmpty_iff] at idle
    obtain none | none | none := idle
    · omega
    · exact absurd none computes
    · omega
  · obtain ⟨body, made', blocks⟩ := threadedIn_loopBody made
    have leading : l.head.rank.toNat = depth := by omega
    exact ⟨_, body, threadedRanks_named (s.child l.head.rank) l, made', by
      simp [threadedIn, Code.threadedBlocks, blocks, leading]⟩
  · omega

/-- The code of the leading loops of a body has a threaded block for each of their sizes. -/
theorem threadedIn_leading {limit depth : Nat} {body : List Node} {code : List Code} {size : Int}
    (fits : Node.fitsBody (depth - 1) size body = true)
    (count : s.threadedRanks = depth + (Node.leadingSizes limit body).length)
    (positive : ∀ n ∈ Node.leadingSizes limit body, 0 < n)
    (computes : Node.bodyStatements body ≠ []) (h : d.bodyCode s body = .ok code) :
    threadedIn code = ranked depth (Node.leadingSizes limit body) := by
  induction limit generalizing depth body size s code with
  | zero =>
    have none : Node.leadingSizes 0 body = [] := by rw [Node.leadingSizes]; simp
    rw [none] at count ⊢
    exact threadedIn_bodyCode body fits (by simp [count]) h
  | succ limit ih =>
    obtain none | ⟨head, inner, rfl, sizes⟩ := Node.leadingSizes_succ limit body
    · rw [none] at count ⊢
      exact threadedIn_bodyCode body fits (by simp [count]) h
    rw [sizes] at count positive ⊢
    obtain ⟨here, later⟩ := List.forall_mem_cons.mp positive
    simp only [Node.fitsBody, Node.fits, Bool.and_eq_true, beq_iff_eq] at fits
    obtain ⟨⟨⟨rank, -⟩, inside⟩, -⟩ := fits
    have rank : head.rank = depth := by omega
    have computes : Node.bodyStatements inner ≠ [] := by
      simpa [Node.bodyStatements, Node.statements] using computes
    obtain ⟨first, made, h⟩ := exists_of_bind_eq_ok h
    cases h
    rw [List.length_cons] at count
    obtain ⟨s', body', same, made', blocks⟩ :=
      loopCode_threaded (l := ⟨head, inner⟩) rank (by omega) here computes made
    have inside : Node.fitsBody ((depth + 1 : Nat) - 1) head.size inner = true := by
      rw [rank] at inside
      simpa using inside
    have rest := ih inside (by omega) later computes made'
    rw [List.append_nil, blocks, rest]
    rfl

/-- The threaded blocks of a valid kernel are those of its stack, if there is something to do. -/
theorem threadedIn_kernelCode {t : Symbols} {kernel : Nest} {limit : Nat} {code : List Code}
    (valid : kernel.isValid = true) (rank : kernel.head.rank = -1)
    (positive : ∀ n ∈ kernel.threadStack limit, 0 < n) (computes : kernel.statements ≠ [])
    (h : d.kernelCode (.root t (kernel.threadStack limit).length) kernel = .ok code) :
    threadedIn code = ranked 0 (kernel.threadStack limit) := by
  obtain ⟨temps, declared, h⟩ := exists_of_bind_eq_ok h
  obtain ⟨body, made, h⟩ := exists_of_bind_eq_ok h
  cases h
  rw [Nest.isValid, rank] at valid
  rw [threadedIn_append, (declares_of_mapM declared).threadedIn, List.nil_append]
  exact threadedIn_leading (by simpa using valid) (Nat.zero_add _).symm positive computes made

/-! ## Written kernels -/

theorem length_leadingSizes_le (limit : Nat) (body : List Node) :
    (Node.leadingSizes limit body).length ≤ limit := by
  induction limit generalizing body with
  | zero => simp [Node.leadingSizes]
  | succ limit ih =>
    obtain none | ⟨head, inner, -, sizes⟩ := Node.leadingSizes_succ limit body
    · simp [none]
    · simpa [sizes] using ih inner

/-- The stack of a device kernel is cut at some number of loops. CUDA cuts it at three at most. -/
theorem threadStack_device (device : d.target.isDevice = true) (kernel : Nest) :
    ∃ limit, d.threadStack kernel = kernel.threadStack limit ∧
      (d.target = .cuda ∨ d.threadedRanks ≤ 3 → limit ≤ 3) := by
  rw [threadStack]
  cases target : d.target with
  | opencl => exact ⟨_, rfl, by simp⟩
  | cuda => exact ⟨_, rfl, fun _ => Nat.min_le_right ..⟩
  | openmp | fortran =>
    rw [target] at device
    contradiction

/-- The source of a device kernel ends with the code of its loops, written for its stack. -/
theorem write_device_eq_ok {kernel : Nest} {passing : Passing} {source : KernelSource}
    (device : d.target.isDevice = true) (h : d.write kernel passing = .ok source) :
    source.threads = d.threadStack kernel ∧ ∃ heading code,
      d.kernelCode (.root source.symbols source.threads.length) kernel = .ok code ∧
        source.text = heading ++ Code.text d 1 code ++ "\x7d\n" := by
  obtain ⟨text, written, h⟩ := exists_of_bind_eq_ok h
  cases h
  have written : d.deviceKernel (.ofKernel kernel passing) kernel = .ok text := by
    rw [kernelText] at written
    split at written
    case h_2 => exact written
    case h_3 => exact written
    all_goals
      next target =>
        rw [target] at device
        contradiction
  obtain ⟨parameters, -, written⟩ := exists_of_bind_eq_ok written
  obtain ⟨code, made, written⟩ := exists_of_bind_eq_ok written
  cases written
  exact ⟨rfl, _, code, made, rfl⟩

end Dialect

end ArrayFusion
