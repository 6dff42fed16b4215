import ArrayFusion.Backend.Recorder
import ArrayFusion.Proofs.Source.Threads
import ArrayFusion.Proofs.View.Positions
import Mathlib.Order.Bounds.Basic

/-!
# What is launched for a device kernel

Threads come in whole groups, so along every dimension of a device as many are launched as the
least number of groups holds. Every position of the threaded loops belongs to exactly one thread,
and the threads that belong to none leave the kernel at its first lines.

A device has three dimensions. The stack of a kernel is cut at three loops for CUDA, but for OpenCL
it is cut at the number from the settings alone, so a larger number lets it have more entries than
a device has dimensions. Such kernels are written, and cannot be launched.
-/

namespace ArrayFusion

/-- Group sizes that are set for kernels with the given number of threaded loops. -/
def WorkGroups.along (groups : WorkGroups) : (loops : Nat) → List Nat
  | 1 => [groups.lineX]
  | 2 => [groups.planeX, groups.planeY]
  | 3 => [groups.boxX, groups.boxY, groups.boxZ]
  | _ => []

/-- Where a thread runs along one dimension: the number of its group, and its place in the group. -/
structure WorkItem where
  number : Nat
  place : Nat
  deriving DecidableEq, Repr

namespace WorkRange

variable {groupSize size : Nat} {r : WorkRange}

/-- The thread is one of those that are launched. -/
def Runs (r : WorkRange) (item : WorkItem) : Prop :=
  item.number < r.total / r.group ∧ item.place < r.group

/-- Index of a thread along one dimension, as device code computes it. -/
def index (r : WorkRange) (item : WorkItem) : Nat := item.number * r.group + item.place

theorem one_le_group_cover (groupSize size : Nat) : 1 ≤ (cover groupSize size).group :=
  Nat.le_max_right ..

theorem group_cover_le (groupSize size : Nat) : (cover groupSize size).group ≤ max 1 groupSize := by
  show max (min groupSize size) 1 ≤ max 1 groupSize
  omega

/-- As many threads as the least number of groups that hold the loop. -/
theorem isLeast_total_cover (groupSize size : Nat) :
    IsLeast {n | (cover groupSize size).group ∣ n ∧ size ≤ n} (cover groupSize size).total := by
  have positive := one_le_group_cover groupSize size
  have total : (cover groupSize size).total = (size + (cover groupSize size).group - 1) /
      (cover groupSize size).group * (cover groupSize size).group := rfl
  generalize (cover groupSize size).group = group at positive total ⊢
  have round := Nat.div_add_mod (size + group - 1) group
  have small := Nat.mod_lt (size + group - 1) positive
  rw [Nat.mul_comm, ← total] at round
  constructor
  · exact ⟨total ▸ Nat.dvd_mul_left .., by omega⟩
  · rintro n ⟨⟨count, rfl⟩, holds⟩
    rw [total, Nat.mul_comm]
    refine Nat.mul_le_mul_left group (Nat.lt_succ_iff.mp (Nat.div_lt_of_lt_mul ?_))
    rw [Nat.mul_succ]
    omega

/-- Fewer than twice as many threads as iterations, so that 64 bit numbers never overflow. -/
theorem total_cover_le (groupSize size : Nat) : (cover groupSize size).total ≤ 2 * size := by
  have group : (cover groupSize size).group ≤ max size 1 := by
    show max (min groupSize size) 1 ≤ max size 1
    omega
  have total : (cover groupSize size).total ≤ size + (cover groupSize size).group - 1 :=
    Nat.div_mul_le_self ..
  omega

/-- Every index belongs to exactly one thread. -/
theorem existsUnique_item (whole : r.group ∣ r.total) {k : Nat} (below : k < r.total) :
    ∃! item, r.Runs item ∧ r.index item = k := by
  obtain ⟨count, total⟩ := whole
  have positive : 0 < r.group := by
    refine Nat.pos_of_ne_zero fun none => ?_
    rw [total, none, Nat.zero_mul] at below
    contradiction
  refine ⟨⟨k / r.group, k % r.group⟩, ⟨⟨?_, Nat.mod_lt k positive⟩, Nat.div_add_mod' k r.group⟩, ?_⟩
  · rw [total, Nat.mul_div_cancel_left count positive]
    exact Nat.div_lt_of_lt_mul (total ▸ below)
  · rintro ⟨number, place⟩ ⟨⟨-, inside⟩, rfl⟩
    have first : (number * r.group + place) / r.group = number := by
      rw [Nat.mul_comm, Nat.mul_add_div positive, Nat.div_eq_of_lt inside, Nat.add_zero]
    have second : (number * r.group + place) % r.group = place := by
      rw [Nat.mul_comm, Nat.mul_add_mod, Nat.mod_eq_of_lt inside]
    simp only [index, first, second]

theorem runs_single {item : WorkItem} :
    Runs { total := 1, group := 1 } item ↔ item = ⟨0, 0⟩ := by
  obtain ⟨number, place⟩ := item
  simp [Runs]

end WorkRange

namespace Geometry

variable {g : Geometry} {groups : WorkGroups} {stack : List Int}

/-- Threads along the dimensions of a device. -/
def ranges (g : Geometry) : List WorkRange := [g.x, g.y, g.z]

/-- A thread is one of those that are launched. It is given along each dimension. -/
def Runs (g : Geometry) (items : List WorkItem) : Prop := List.Forall₂ WorkRange.Runs g.ranges items

/-- Indices of a thread along the leading dimensions. -/
def indices (g : Geometry) (loops : Nat) (items : List WorkItem) : List Int :=
  (List.zipWith (fun r item => (r.index item : Int)) g.ranges items).take loops

theorem length_along (few : stack.length ≤ 3) :
    (groups.along stack.length).length = stack.length := by
  match stack with
  | [] | [_] | [_, _] | [_, _, _] => rfl
  | _ :: _ :: _ :: _ :: _ =>
    rw [List.length_cons, List.length_cons, List.length_cons, List.length_cons] at few
    omega

/-- A device has three dimensions. Those beyond the threaded loops have one thread. -/
theorem ofKernel_eq_ok (groups : WorkGroups) (few : stack.length ≤ 3) :
    ∃ g, ofKernel groups stack = .ok g ∧ g.ranges =
      List.zipWith WorkRange.cover (groups.along stack.length) (stack.map Int.toNat) ++
        List.replicate (3 - stack.length) { total := 1, group := 1 } := by
  match stack with
  | [] => exact ⟨_, rfl, rfl⟩
  | [x] => exact ⟨_, rfl, rfl⟩
  | [x, y] => exact ⟨_, rfl, rfl⟩
  | [x, y, z] => exact ⟨_, rfl, rfl⟩
  | _ :: _ :: _ :: _ :: _ =>
    rw [List.length_cons, List.length_cons, List.length_cons, List.length_cons] at few
    omega

theorem ofKernel_eq_error (groups : WorkGroups) (many : 3 < stack.length) :
    ofKernel groups stack = .error (.threadStackDepth stack) := by
  match stack with
  | [] | [_] | [_, _] | [_, _, _] => simp at many
  | _ :: _ :: _ :: _ :: _ => rfl

/-! ## One thread for every position -/

/-- Whole groups of threads hold every loop of a stack, and there is one thread along the other
dimensions. -/
inductive Holds : List WorkRange → List Int → Prop
  | rest (count : Nat) : Holds (List.replicate count { total := 1, group := 1 }) []
  | loop {r : WorkRange} {n : Int} {ranges : List WorkRange} {stack : List Int}
      (whole : r.group ∣ r.total) (holds : n ≤ r.total) (rest : Holds ranges stack) :
      Holds (r :: ranges) (n :: stack)

/-- Every position of the threaded loops belongs to exactly one thread. -/
theorem Holds.existsUnique_items {ranges : List WorkRange} (h : Holds ranges stack)
    {idx : List Int} (inRange : Shape.InRange stack idx) :
    ∃! items, List.Forall₂ WorkRange.Runs ranges items ∧
      (List.zipWith (fun r item => (r.index item : Int)) ranges items).take stack.length = idx := by
  induction h generalizing idx with
  | rest count =>
    cases inRange
    have runs (items : List WorkItem) :
        List.Forall₂ WorkRange.Runs (List.replicate count { total := 1, group := 1 }) items ↔
          items = List.replicate count ⟨0, 0⟩ := by
      induction count generalizing items with
      | zero => simp
      | succ count ih =>
        rw [List.replicate_succ, List.forall₂_cons_left_iff]
        simp only [WorkRange.runs_single, ih, List.replicate_succ]
        aesop
    exact ⟨_, ⟨(runs _).mpr rfl, rfl⟩, fun items here => (runs items).mp here.1⟩
  | @loop r n ranges stack whole holds rest ih =>
    cases inRange with
    | @cons _ k _ idx here later =>
      obtain ⟨nonneg, below⟩ := here
      obtain ⟨k, rfl⟩ := Int.eq_ofNat_of_zero_le nonneg
      obtain ⟨item, ⟨runs, index⟩, only⟩ := WorkRange.existsUnique_item whole (k := k) (by omega)
      obtain ⟨items, ⟨runsAll, indices⟩, onlyAll⟩ := ih later
      refine ⟨item :: items, ⟨.cons runs runsAll, ?_⟩, ?_⟩
      · rw [List.zipWith_cons_cons, List.length_cons, List.take_succ_cons, index, indices]
      · rintro other ⟨runsOther, reached⟩
        cases runsOther with
        | @cons _ first _ others runsFirst runsOthers =>
          rw [List.zipWith_cons_cons, List.length_cons, List.take_succ_cons] at reached
          obtain ⟨head, tail⟩ := List.cons.inj reached
          rw [only first ⟨runsFirst, Int.ofNat.inj head⟩, onlyAll others ⟨runsOthers, tail⟩]

/-- The threads fit the threaded loops of a kernel. -/
structure Fits (groups : WorkGroups) (stack : List Int) (g : Geometry) : Prop where
  /-- Along every threaded loop, groups are neither empty nor larger than set, and no fewer groups
  would hold the loop. -/
  covers : ∀ (k : Nat) (size : Int), stack[k]? = some size → ∃ r : WorkRange, ∃ groupSize,
    g.ranges[k]? = some r ∧ (groups.along stack.length)[k]? = some groupSize ∧
      1 ≤ r.group ∧ r.group ≤ max 1 groupSize ∧
      IsLeast {n : Nat | r.group ∣ n ∧ size ≤ n} r.total
  /-- Along the other dimensions there is one thread. -/
  others : ∀ k : Nat, stack.length ≤ k → k < 3 → g.ranges[k]? = some { total := 1, group := 1 }
  /-- Every position of the threaded loops belongs to exactly one thread. -/
  once : ∀ idx, Shape.InRange stack idx → ∃! items, g.Runs items ∧ g.indices stack.length items = idx

theorem holds_cover {groupSizes : List Nat} (same : groupSizes.length = stack.length)
    (count : Nat) : Holds (List.zipWith WorkRange.cover groupSizes (stack.map Int.toNat) ++
      List.replicate count { total := 1, group := 1 }) stack := by
  induction stack generalizing groupSizes with
  | nil =>
    rw [List.map_nil, List.zipWith_nil_right, List.nil_append]
    exact .rest count
  | cons n stack ih =>
    cases groupSizes with
    | nil => contradiction
    | cons groupSize groupSizes =>
      obtain ⟨⟨whole, holds⟩, -⟩ := WorkRange.isLeast_total_cover groupSize n.toNat
      exact .loop whole (Int.toNat_le.mp holds) (ih (Nat.succ.inj same))

theorem fits_of_ofKernel (groups : WorkGroups) (few : stack.length ≤ 3) :
    ∃ g, ofKernel groups stack = .ok g ∧ Fits groups stack g := by
  obtain ⟨g, made, ranges⟩ := ofKernel_eq_ok groups few
  have same : (groups.along stack.length).length = stack.length := length_along few
  have length : (List.zipWith WorkRange.cover (groups.along stack.length)
      (stack.map Int.toNat)).length = stack.length := by simp [same]
  refine ⟨g, made, ?_, ?_, ?_⟩
  · intro k size here
    obtain ⟨below, -⟩ := List.getElem?_eq_some_iff.mp here
    have groupSize := List.getElem?_eq_getElem (same ▸ below)
    have range : g.ranges[k]? = some (.cover (groups.along stack.length)[k] size.toNat) := by
      rw [ranges, List.getElem?_append_left (below.trans_eq length.symm), List.getElem?_zipWith, groupSize,
        List.getElem?_map, here]
      rfl
    refine ⟨_, _, range, groupSize, WorkRange.one_le_group_cover .., WorkRange.group_cover_le .., ?_⟩
    have least := WorkRange.isLeast_total_cover (groups.along stack.length)[k] size.toNat
    simpa only [Int.toNat_le] using least
  · intro k beyond below
    rw [ranges, List.getElem?_append_right (length.symm ▸ beyond), length, List.getElem?_replicate]
    exact if_pos (by omega)
  · intro idx inRange
    have holds := holds_cover same (3 - stack.length)
    rw [← ranges] at holds
    exact holds.existsUnique_items inRange

/-! ## Threads that leave at once -/

/-- The thread passes the first lines of all given threaded blocks: along the dimension of each, its
index is not beyond the loop. -/
def Passes (blocks : List (Nat × Int)) (indices : List Int) : Prop :=
  ∀ block ∈ blocks, ∃ index, indices[block.1]? = some index ∧ index < block.2

theorem mem_ranked {rank : Nat} {size : Int} :
    (rank, size) ∈ Dialect.ranked 0 stack ↔ stack[rank]? = some size := by
  simp [Dialect.ranked, List.mem_zipIdx_iff_getElem?]

/-- A thread only runs if no loop of the stack is empty. -/
theorem Fits.positive (fits : Fits groups stack g) {items : List WorkItem} (runs : g.Runs items) :
    ∀ n ∈ stack, 0 < n := by
  intro n hn
  obtain ⟨k, here⟩ := List.getElem?_of_mem hn
  obtain ⟨r, -, range, -, -, -, least⟩ := fits.covers k n here
  by_contra empty
  have none : r.total = 0 := Nat.le_zero.mp (least.2 ⟨dvd_zero _, by omega⟩)
  have item := forall₂_getElem? runs k
  rw [range] at item
  generalize items[k]? = found at item
  cases item with
  | some runs =>
    obtain ⟨number, -⟩ := runs
    rw [none, Nat.zero_div] at number
    contradiction

/-- The threads that pass the first lines of the blocks are those that a position belongs to. -/
theorem passes_iff (few : stack.length ≤ 3) {items : List WorkItem}
    (runs : g.Runs items) : Passes (Dialect.ranked 0 stack) (g.indices stack.length items) ↔
      Shape.InRange stack (g.indices stack.length items) := by
  have length : (g.indices stack.length items).length = stack.length := by
    have three : items.length = 3 := (List.Forall₂.length_eq runs).symm
    simp [indices, three, ranges, few]
  have nonneg : ∀ index ∈ g.indices stack.length items, 0 ≤ index := by
    intro index member
    obtain ⟨k, hk, rfl⟩ := List.getElem_of_mem member
    simp [indices]
  constructor
  · intro passes
    refine List.forall₂_iff_get.mpr ⟨length.symm, fun k hk hk' => ?_⟩
    have here : (k, stack[k]) ∈ Dialect.ranked 0 stack :=
      mem_ranked.mpr (List.getElem?_eq_getElem hk)
    obtain ⟨index, found, below⟩ := passes _ here
    obtain ⟨_, rfl⟩ := List.getElem?_eq_some_iff.mp found
    exact ⟨nonneg _ (List.getElem_mem _), below⟩
  · rintro inRange ⟨rank, size⟩ here
    have found := forall₂_getElem? inRange rank
    rw [mem_ranked.mp here] at found
    generalize (g.indices stack.length items)[rank]? = index at found
    cases found with
    | some inside => exact ⟨_, rfl, inside.2⟩

end Geometry

namespace Backend

variable {settings : Settings} {kernel : Nest} {source : KernelSource}

/-- The recording backend finds the threads for the stack, and adds one record. -/
theorem recorder_execute (session : Session (List LaunchRecord)) :
    (∀ e, Geometry.ofKernel settings.groups source.threads = .error e →
      (recorder settings).execute { kernel, source } session = (.error e, session)) ∧
    ∀ g, Geometry.ofKernel settings.groups source.threads = .ok g → ∃ printed,
      (recorder settings).execute { kernel, source } session =
        (.ok (), { session with
          backend := session.backend ++ [⟨source.text, source.symbols.hash, source.threads, g⟩],
          printed := session.printed ++ printed }) := by
  refine ⟨fun e failed => ?_, fun g made => ?_⟩
  · unfold recorder
    simp only [failed]
    rfl
  · cases messages : settings.debug.messages with
    | false =>
      refine ⟨[], ?_⟩
      unfold recorder
      simp only [made, messages, List.append_nil]
      rfl
    | true =>
      refine ⟨["Kernel " ++ Fnv.hex source.symbols.hash ++ " NDRange global " ++
        Text.bracketed g.totals ++ ", local " ++ Text.bracketed g.groups], ?_⟩
      unfold recorder
      simp only [made, messages]
      rfl

open ArrayFusion.Geometry in
/-- What is recorded of a launch for a written device kernel. Up to three threaded loops can be
launched, and CUDA kernels have no more. The threads fit the loops; those that are at a position of
the loops are the ones that pass the first lines of the threaded blocks. -/
theorem recorder_launch (device : settings.target.isDevice = true)
    (written : settings.dialect.write kernel settings.passing = .ok source)
    (session : Session (List LaunchRecord)) :
    (settings.target = .cuda ∨ settings.threadedRanks ≤ 3 → source.threads.length ≤ 3) ∧
    (3 < source.threads.length →
      (recorder settings).execute { kernel, source } session =
        (.error (.threadStackDepth source.threads), session)) ∧
    (source.threads.length ≤ 3 → ∃ g printed,
      (recorder settings).execute { kernel, source } session =
        (.ok (), { session with
          backend := session.backend ++ [⟨source.text, source.symbols.hash, source.threads, g⟩],
          printed := session.printed ++ printed }) ∧
      g.Fits settings.groups source.threads ∧
      ∃ heading code, source.text = heading ++ Code.text settings.dialect 1 code ++ "\x7d\n" ∧
        (kernel.isValid = true → kernel.head.rank = -1 → kernel.statements ≠ [] →
          ∀ items, g.Runs items →
            (Passes (Code.threadedIn code) (g.indices source.threads.length items) ↔
              Shape.InRange source.threads (g.indices source.threads.length items)))) := by
  obtain ⟨threads, heading, code, made, text⟩ := Dialect.write_device_eq_ok device written
  obtain ⟨limit, stack, cut⟩ := Dialect.threadStack_device (d := settings.dialect) device kernel
  rw [stack] at threads
  refine ⟨fun narrow => ?_, fun many => ?_, fun few => ?_⟩
  · rw [threads]
    exact (Dialect.length_leadingSizes_le limit kernel.body).trans (cut narrow)
  · exact (recorder_execute session).1 _ (ofKernel_eq_error settings.groups many)
  · obtain ⟨g, geometry, fits⟩ := fits_of_ofKernel settings.groups few
    obtain ⟨printed, executed⟩ := (recorder_execute session).2 g geometry
    refine ⟨g, printed, executed, fits, heading, code, text, fun valid rank computes items runs => ?_⟩
    have positive := fits.positive runs
    rw [threads] at made positive
    have blocks := Dialect.threadedIn_kernelCode valid rank positive computes made
    rw [blocks, ← threads]
    exact passes_iff few runs

/-- A plane of 100 times 7 numbers is copied by four groups of 32 threads along the first loop, and
by two groups of four along the second one. -/
theorem recorder_launch_plane :
    let settings : Settings := { target := .opencl }
    let plane (b : BaseId) : View :=
      { base := some b, dtype := .float32, axes := [⟨100, 7⟩, ⟨7, 1⟩] }
    let copy : Instruction := { opcode := .unary .identity, operands := [plane 1, plane 0] }
    let kernel : Nest := (Nest.kernel [(Nest.ofStatements 0 [] [.fresh copy] 0).1.toNode] 1).1
    ∃ source g, settings.dialect.write kernel settings.passing = .ok source ∧
      ((recorder settings).execute { kernel, source } { arena := {}, backend := [] }).2.backend =
        [⟨source.text, source.symbols.hash, [100, 7], g⟩] ∧
      g.totals = [128, 8, 1] ∧ g.groups = [32, 4, 1] ∧ g.Fits settings.groups [100, 7] := by
  intro settings plane copy kernel
  have stack : (settings.dialect.write kernel settings.passing).toOption.map (·.threads) =
      some [100, 7] := by decide +kernel
  cases written : settings.dialect.write kernel settings.passing with
  | error e => simp [written, Except.toOption] at stack
  | ok source =>
    rw [written] at stack
    have threads : source.threads = [100, 7] := Option.some.inj stack
    obtain ⟨few, -, launches⟩ := recorder_launch rfl written { arena := {}, backend := [] }
    obtain ⟨g, printed, executed, fits, -⟩ := launches (few (.inr (by decide)))
    have geometry : Geometry.ofKernel settings.groups source.threads =
        .ok { x := ⟨128, 32⟩, y := ⟨8, 4⟩ } := by
      rw [threads]
      show Except.ok _ = Except.ok _
      exact congrArg Except.ok (by decide)
    obtain ⟨_, found⟩ := (recorder_execute _).2 _ geometry
    have same := executed.symm.trans found
    rw [threads] at fits executed
    obtain rfl : g = { x := ⟨128, 32⟩, y := ⟨8, 4⟩ } := by simpa using congrArg (·.2.backend) same
    exact ⟨source, _, rfl, congrArg (·.2.backend) executed, rfl, rfl, fits⟩

/-- With more loops on threads than a device has dimensions, OpenCL kernels are written that cannot
be launched. -/
theorem recorder_four_loops :
    let settings : Settings := { target := .opencl, threadedRanks := 4 }
    let box (b : BaseId) : View :=
      { base := some b, dtype := .int64, axes := View.rowMajor [2, 2, 2, 2] }
    let copy : Instruction := { opcode := .unary .identity, operands := [box 1, box 0] }
    let kernel : Nest := (Nest.kernel [(Nest.ofStatements 0 [] [.fresh copy] 0).1.toNode] 1).1
    ∃ source, settings.dialect.write kernel settings.passing = .ok source ∧
      ((recorder settings).execute { kernel, source } { arena := {}, backend := [] }).1 =
        .error (.threadStackDepth [2, 2, 2, 2]) := by
  intro settings box copy kernel
  have stack : (settings.dialect.write kernel settings.passing).toOption.map (·.threads) =
      some [2, 2, 2, 2] := by decide +kernel
  cases written : settings.dialect.write kernel settings.passing with
  | error e => simp [written, Except.toOption] at stack
  | ok source =>
    rw [written] at stack
    have threads : source.threads = [2, 2, 2, 2] := Option.some.inj stack
    have failed : Geometry.ofKernel settings.groups source.threads =
        .error (.threadStackDepth [2, 2, 2, 2]) := by
      rw [threads]
      rfl
    exact ⟨source, rfl, congrArg Prod.fst ((recorder_execute _).1 _ failed)⟩

end Backend

end ArrayFusion
