import ArrayFusion.Proofs.Eval.ScalarStep
import ArrayFusion.Proofs.Fusion.Numbering

/-!
# Nests with a scalar temporary

The body that declares the scalar accesses it by one view only, so that all accesses of one
iteration are the same element, and the first one is a write. Nothing else accesses it. By
induction over the nest, a run with the scalar leaves the same contents of all other bases: while
the loop stands in an iteration, the scalar holds the element from the first write on, and between
the iterations nobody asks what it holds.
-/

namespace ArrayFusion

open Shape

namespace Instruction

/-- The instruction accesses the base by one view only, by operands that are not addressed by
values, and not as the output of a fold or scan. -/
def AccessesBy (i : Instruction) (b : BaseId) (v : View) : Prop :=
  ∀ k w, i.operands[k]? = some w → w.base = some b →
    i.isIndirect k = false ∧ (k = 0 → i.opcode.isSweep = false) ∧ w.start = v.start ∧
      w.axes = v.axes

/-- The base is not the base of an operand. -/
def Ignores (i : Instruction) (b : BaseId) : Prop := ∀ v ∈ i.operands, v.base ≠ some b

/-- The instruction writes the base and does not read it. -/
structure WritesFirst (i : Instruction) (b : BaseId) : Prop where
  output : i.outputBase? = some b
  inputs : ∀ v ∈ i.operands.tail, v.base ≠ some b

instance (i : Instruction) (b : BaseId) : Decidable (i.WritesFirst b) :=
  decidable_of_iff (i.outputBase? = some b ∧ ∀ v ∈ i.operands.tail, v.base ≠ some b)
    ⟨fun ⟨output, inputs⟩ => ⟨output, inputs⟩, fun ⟨output, inputs⟩ => ⟨output, inputs⟩⟩

theorem shape_of_direct {i : Instruction} {out : View} (hout : i.operands[0]? = some out)
    (computes : i.opcode.isSystem = false) (unswept : i.opcode.isSweep = false)
    (direct : i.isIndirect 0 = false) : i.shape = out.shape := by
  obtain ⟨opcode, operands, constant, creates⟩ := i
  cases operands with
  | nil => cases hout
  | cons first rest =>
      obtain rfl : first = out := Option.some.inj hout
      cases opcode <;> simp_all [shape, Opcode.isSystem, Opcode.isSweep, isIndirect]

end Instruction

/-- Address of a view where the loops stand. -/
def View.addressAt (v : View) (ts : Turns) : Int :=
  (List.range ts.length).foldl (fun sum axis =>
    sum + (v.axes[axis]?.map fun a => ts.index axis * a.stride).getD 0) v.start

namespace Statement

variable {s : Statement} {b : BaseId} {v : View} {outer : List Int} {ts : Turns}

/-- A statement in the innermost of the loops has an axis for every loop, or it has no axes and
stands in a loop that runs once. -/
theorem shape_of_under (under : s.Under outer) (depth : s.instr.ndim ≤ outer.length) :
    s.instr.shape = outer ∨ (outer = [1] ∧ s.instr.shape = []) :=
  under.imp_left fun under => (List.take_of_length_le depth).symm.trans under

theorem offset_eq_addressAt (accesses : s.instr.AccessesBy b v) (under : s.Under outer)
    (depth : s.instr.ndim ≤ outer.length) (range : InRange outer (ts.map (·.index))) {k : Nat}
    {w : View} (hw : s.instr.operands[k]? = some w) (base : w.base = some b) :
    s.instr.offset ts k = v.addressAt ts := by
  obtain ⟨direct, unswept, start, axes⟩ := accesses k w hw base
  have array := View.isConstant_of_base base
  have notFold : ¬ (k = 0 ∧ s.instr.opcode.isReduction = true) := by
    rintro ⟨first, reduction⟩
    rw [Instruction.isReduction_eq_false (unswept first)] at reduction
    contradiction
  have own : ∀ axis, (s.instr.operandAxis? k axis).bind (w.axes[·]?) = v.axes[axis]? := by
    intro axis
    simp only [Instruction.operandAxis?, hw, array, direct, notFold, Bool.or_self, if_false,
      Bool.false_eq_true, ← axes]
    by_cases inside : axis < w.ndim
    · rw [if_pos inside, Option.bind_some]
    · rw [if_neg inside, Option.bind_none]
      exact (List.getElem?_eq_none (not_lt.mp inside)).symm
  have length : ts.length = outer.length := by simpa using range.length_eq
  rw [Instruction.offset_eq_foldl hw, View.addressAt, start]
  simp only [own]
  rcases shape_of_under under depth with same | ⟨rfl, none⟩
  · rw [Instruction.ndim, same, length]
  · -- The only loop stands at its only index.
    have still : ts.index 0 = 0 := by
      obtain ⟨t, rfl⟩ := List.length_eq_one_iff.mp length
      obtain ⟨⟨least, most⟩, -⟩ := List.forall₂_cons.mp range
      exact le_antisymm (Int.lt_add_one_iff.mp most) least
    rw [Instruction.ndim, none, length]
    simp [List.range_succ, still]
    cases v.axes[0]? <;> rfl

theorem onlyAt (accesses : s.instr.AccessesBy b v) (under : s.Under outer)
    (depth : s.instr.ndim ≤ outer.length) (range : InRange outer (ts.map (·.index))) :
    s.instr.OnlyAt b ts (v.addressAt ts) where
  direct k w hw base := (accesses k w hw base).1
  place _ _ hw base := offset_eq_addressAt accesses under depth range hw base
  unswept output := by
    obtain ⟨w, hw, base⟩ := Instruction.outputBase?_eq_some_iff.mp output
    exact (accesses 0 w hw base).2.1 rfl

/-- Where a statement writes the base, the view has an address. -/
theorem addressAt_mem_addresses (accesses : s.instr.AccessesBy b v)
    (output : s.instr.outputBase? = some b) (computes : s.Computes) (under : s.Under outer)
    (depth : s.instr.ndim ≤ outer.length) (range : InRange outer (ts.map (·.index))) :
    v.addressAt ts ∈ v.addresses := by
  obtain ⟨out, hout, base⟩ := Instruction.outputBase?_eq_some_iff.mp output
  obtain ⟨direct, unswept, start, axes⟩ := accesses 0 out hout base
  have array := View.isConstant_of_base base
  have shape := Instruction.shape_of_direct hout computes.notSystem (unswept rfl) direct
  have notFold : ¬ (0 = 0 ∧ s.instr.opcode.isReduction = true) := by
    simp [Instruction.isReduction_eq_false (unswept rfl)]
  -- Without axes the statement stands at the position without indices.
  obtain ⟨p, inRange, at_p⟩ : ∃ p, InRange s.instr.shape p ∧ ts.At p := by
    rcases shape_of_under under depth with same | ⟨-, none⟩
    · refine ⟨ts.map (·.index), same ▸ range, by simp, fun axis x hx => ?_⟩
      rw [List.getElem?_map] at hx
      rw [Turns.index, hx, Option.getD_some]
    · exact ⟨[], none ▸ .nil, by simp, by simp⟩
  rw [← offset_eq_addressAt accesses under depth range hout base,
    Instruction.offset_eq at_p inRange.length_eq hout,
    Instruction.seenAxes_direct hout array direct notFold shape.symm, start, axes]
  have same : v.shape = s.instr.shape := by rw [shape, View.shape, View.shape, axes]
  rw [← same] at inRange
  refine (View.mem_addresses fun a ha => ?_).mpr ⟨p, inRange, rfl⟩
  exact inRange.sizes_nonneg a.size (List.mem_map_of_mem ha)

end Statement

/-! ## Nodes -/

namespace Node

variable {x : LocalScalar} {v : View} {condition : Prop} {outer : List Int} {n : Node}
  {body : List Node} {ts : Turns}

/-- The node has nothing to do with the scalar: it does not access the base, and its loops do not
declare the scalar. -/
structure Ignores (x : LocalScalar) (n : Node) : Prop where
  accesses : ∀ s ∈ n.statements, s.instr.Ignores x.base
  loops : x.loop ∉ n.ids

/-- Runs of a body are compared node by node. -/
theorem simulates_body {P : Arena → Arena → Prop} (nodes : ∀ n ∈ body,
    Exec.Simulates x.base condition P (n.run ts) (n.runScalar x ts) P) :
    Exec.Simulates x.base condition P (runBody ts body) (runScalarBody x ts body) P := by
  induction body with
  | nil => exact .skip P
  | cons n body ih =>
      rw [runBody, runScalarBody]
      exact (nodes n (by simp)).seq (ih fun m hm => nodes m (by simp [hm]))

/-- Runs of a loop are compared iteration by iteration. -/
theorem simulates_loop {P : Arena → Arena → Prop} {head : LoopHead} (rank : 0 ≤ head.rank)
    (iterations : ∀ k : Nat, k < head.size.toNat →
      Exec.Simulates x.base condition P (runBody (ts ++ [turn head k]) body)
        (x.declare head.id (ts ++ [turn head k]) >>= fun _ =>
          runScalarBody x (ts ++ [turn head k]) body) P) :
    Exec.Simulates x.base condition P ((loop head body).run ts) ((loop head body).runScalar x ts)
      P := by
  rw [run_loop_eq_forM rank, runScalar, if_neg (not_lt.mpr rank)]
  exact .forM fun k hk => iterations k (List.mem_range.mp hk)

/-- Nodes that have nothing to do with the scalar run alike. -/
theorem simulates_of_ignores {live : Prop} {y : Int} (layout : Layout outer n)
    (ignores : n.Ignores x) (ts : Turns) :
    Exec.Simulates x.base condition (Mirrors x.base condition v live y) (n.run ts)
      (n.runScalar x ts) (Mirrors x.base condition v live y) := by
  induction layout generalizing ts with
  | @leaf outer s rank computes under depth innermost =>
      have none : ∀ k (w : View), s.instr.operands[k]? = some w → w.base ≠ some x.base :=
        fun k w hw => ignores.accesses s (by simp [statements]) w (List.mem_of_getElem? hw)
      have output : s.instr.outputBase? ≠ some x.base := by
        intro output
        obtain ⟨w, hw, base⟩ := Instruction.outputBase?_eq_some_iff.mp output
        exact none 0 w hw base
      have only : s.instr.OnlyAt x.base ts y :=
        ⟨fun k w hw base => absurd base (none k w hw), fun k w hw base => absurd base (none k w hw),
          fun written => absurd written output⟩
      refine (Instruction.simulates_step only computes.notSystem
        (fun k _ w hw base => absurd base (none k w hw))
        fun written => absurd written output).consequence (fun a a' => id) fun a a' related => ?_
      exact related.weaken .inl
  | @loop outer head body rank size records together nodes ih =>
      obtain ⟨accesses, loops⟩ := ignores
      rw [ids_loop, List.mem_cons, not_or] at loops
      refine simulates_loop (by omega) fun k _ => ?_
      rw [LocalScalar.declare, if_neg (Ne.symm loops.1), pure_bind]
      refine simulates_body fun n hn => ih n hn ⟨fun s hs => ?_, fun inside => ?_⟩ _
      · exact accesses s ((statements_sublist hn).subset hs)
      · exact loops.2 (List.mem_flatMap.mpr ⟨n, hn, inside⟩)

/-- What makes a scalar of a base in the body that declares it. Inner loops have nothing to do with
it, statements access it by one view, and one that only writes it is the first that accesses it, at
least if the view has an element. -/
structure Declares (x : LocalScalar) (v : View) (body : List Node) : Prop where
  inner : ∀ n ∈ body, n.isLoop = true → n.Ignores x
  accesses : ∀ s rank, leaf s rank ∈ body → s.instr.AccessesBy x.base v
  written : ∃ pre s rank post, body = pre ++ leaf s rank :: post ∧ s.instr.WritesFirst x.base ∧
    (0 < v.elements → ∀ t r, leaf t r ∈ pre → t.instr.Ignores x.base)

theorem runBody_append (ts : Turns) (xs ys : List Node) :
    runBody ts (xs ++ ys) = runBody ts xs >>= fun _ => runBody ts ys := by
  induction xs with
  | nil => rw [List.nil_append, runBody, pure_bind]
  | cons n xs ih => rw [List.cons_append, runBody, runBody, ih, bind_assoc]

theorem runScalarBody_append (x : LocalScalar) (ts : Turns) (xs ys : List Node) :
    runScalarBody x ts (xs ++ ys) = runScalarBody x ts xs >>= fun _ => runScalarBody x ts ys := by
  induction xs with
  | nil => rw [List.nil_append, runScalarBody, pure_bind]
  | cons n xs ih => rw [List.cons_append, runScalarBody, runScalarBody, ih, bind_assoc]

/-- One iteration of the body that declares the scalar. The first access is a write, and from there
on the scalar is live. -/
theorem simulates_declaring (declares : Declares x v body) (layouts : ∀ n ∈ body, n.Layout outer)
    (range : InRange outer (ts.map (·.index))) :
    Exec.Simulates x.base condition (Mirrors x.base condition v False (v.addressAt ts))
      (runBody ts body) (runScalarBody x ts body)
      (Mirrors x.base condition v True (v.addressAt ts)) := by
  obtain ⟨inner, accesses, pre, s, rank, post, rfl, first, unread⟩ := declares
  have only : ∀ t r, leaf t r ∈ pre ++ leaf s rank :: post → t.Computes ∧
      t.instr.OnlyAt x.base ts (v.addressAt ts) ∧
        (t.instr.outputBase? = some x.base → v.addressAt ts ∈ v.addresses) := by
    intro t r ht
    have own := accesses t r ht
    cases layouts _ ht with
    | leaf computes under depth innermost =>
      exact ⟨computes, Statement.onlyAt own under depth range, fun output =>
        Statement.addressAt_mem_addresses own output computes under depth range⟩
  obtain ⟨computes, onlyS, inside⟩ := only s rank (by simp)
  have nonempty : 0 < v.elements := by
    have member := inside first.output
    by_contra empty
    rw [View.addresses, if_pos (by omega)] at member
    cases member
  have before : ∀ n ∈ pre, n.Ignores x := by
    intro n hn
    cases n with
    | loop head inside => exact inner _ (by simp [hn]) rfl
    | leaf t r =>
      refine ⟨fun u hu => ?_, List.not_mem_nil⟩
      obtain rfl : u = t := List.mem_singleton.mp hu
      exact unread nonempty u r hn
  rw [runBody_append, runScalarBody_append, runBody, runScalarBody]
  refine (simulates_body fun n hn => ?_).seq (.seq (Q := Mirrors x.base condition v True
    (v.addressAt ts)) ?_ (simulates_body fun n hn => ?_))
  · exact simulates_of_ignores (layouts n (by simp [hn])) (before n hn) ts
  · refine (Instruction.simulates_step onlyS computes.notSystem (fun k later w hw base => ?_)
      inside).consequence (fun a a' => id) fun a a' => (·.weaken fun _ => .inr first.output)
    refine absurd base (first.inputs w ?_)
    obtain ⟨k, rfl⟩ := Nat.exists_eq_succ_of_ne_zero later
    exact List.mem_of_getElem? (by rwa [List.getElem?_tail])
  · cases n with
    | loop head inside =>
      exact simulates_of_ignores (layouts _ (by simp [hn])) (inner _ (by simp [hn]) rfl) ts
    | leaf t r =>
      obtain ⟨computesT, onlyT, insideT⟩ := only t r (by simp [hn])
      exact (Instruction.simulates_step onlyT computesT.notSystem (fun _ _ _ _ _ => trivial)
        insideT).consequence (fun a a' => id) fun a a' => (·.weaken .inl)

/-- What every loop of a nest says about a scalar: it declares the scalar, or its statements do not
access the base. -/
def Localizes (x : LocalScalar) (v : View) (n : Node) : Prop :=
  ∀ l ∈ n.nests, (l.head.id = x.loop → Declares x v l.body) ∧
    (l.head.id ≠ x.loop → ∀ s rank, leaf s rank ∈ l.body → s.instr.Ignores x.base)

/-- A nest with a scalar runs like the nest without it. -/
theorem simulates_run {y : Int} (layout : Layout outer n) (localizes : n.Localizes x v)
    (isLoop : n.isLoop = true) (range : InRange outer (ts.map (·.index))) :
    Exec.Simulates x.base condition (Mirrors x.base condition v False y) (n.run ts)
      (n.runScalar x ts) (Mirrors x.base condition v False y) := by
  induction layout generalizing ts with
  | leaf computes under depth innermost => contradiction
  | @loop outer head body rank size records together nodes ih =>
      obtain ⟨declares, ignores⟩ := localizes ⟨head, body⟩ (by simp [nests])
      refine simulates_loop (by omega) fun k hk => ?_
      have range' : InRange (outer ++ [head.size]) ((ts ++ [turn head k]).map (·.index)) := by
        rw [List.map_append]
        exact range.append (.cons ⟨Int.natCast_nonneg k, by simp only [turn]; omega⟩ .nil)
      by_cases own : head.id = x.loop
      · have start : Exec.Simulates x.base condition (Mirrors x.base condition v False y) (pure ())
            (x.declare head.id (ts ++ [turn head k]))
            (Mirrors x.base condition v False (v.addressAt (ts ++ [turn head k]))) :=
          Mirrors.simulates_declare x head.id _ y _
        have iteration := start.seq (simulates_declaring (declares own) nodes range')
        rw [pure_bind] at iteration
        exact iteration.consequence (fun a a' => id) fun a a' => (·.forget y)
      · rw [LocalScalar.declare, if_neg own, pure_bind]
        refine simulates_body fun m hm => ?_
        cases m with
        | loop head' body' =>
          refine ih _ hm (fun l hl => ?_) rfl range'
          refine localizes l ?_
          rw [nests, bodyNests_eq_flatMap]
          exact List.mem_cons_of_mem _ (List.mem_flatMap.mpr ⟨_, hm, hl⟩)
        | leaf s r =>
          refine simulates_of_ignores (nodes _ hm) ⟨fun t ht => ?_, List.not_mem_nil⟩ _
          obtain rfl : t = s := List.mem_singleton.mp ht
          exact ignores own t r hm

end Node

/-! ## Kernels -/

/-- The second arena has a scalar in the place of a base. It agrees with the first one on all other
bases. Under the condition the base exists and has, or will have, all elements that the view
addresses. -/
structure Prepares (b : BaseId) (condition : Prop) (v : View) (allocated : Prop) (a a' : Arena) :
    Prop where
  others : a.AgreeBut b a'
  scalar : a'.get? b = (a.get? b).map Base.scalar
  room : condition → ∃ base, a.get? b = some base ∧
    ∀ y ∈ v.addresses, 0 ≤ y ∧ y < base.capacity
  data : allocated → ∃ buffer, a.buffer? b = some buffer

namespace Prepares

variable {b c : BaseId} {condition allocated allocated' : Prop} {v : View} {a a' : Arena}

theorem weaken (h : Prepares b condition v allocated a a') (less : allocated' → allocated) :
    Prepares b condition v allocated' a a' :=
  ⟨h.others, h.scalar, h.room, fun isAllocated => h.data (less isAllocated)⟩

theorem withScalar (room : condition → ∃ base, a.get? b = some base ∧
    ∀ y ∈ v.addresses, 0 ≤ y ∧ y < base.capacity) :
    Prepares b condition v False a (a.withScalar b) where
  others c other := by rw [Arena.withScalar, Arena.get?_modify, if_neg other.symm]
  scalar := by rw [Arena.withScalar, Arena.get?_modify, if_pos rfl]
  room := room
  data := False.elim

/-- Once the base is allocated, the scalar takes its place. -/
theorem mirrors (h : Prepares b condition v True a a') : Mirrors b condition v False 0 a a' := by
  obtain ⟨buffer, found⟩ := h.data trivial
  obtain ⟨base, exists_b, data⟩ := Arena.buffer?_eq_some_iff.mp found
  have type : base.cellType = buffer.dtype := by rw [Base.cellType, data]; rfl
  refine ⟨h.others, ⟨buffer, found, Elem.zero buffer.dtype, ?_⟩, fun given n size => ?_, False.elim⟩
  · rw [Arena.buffer?, h.scalar, exists_b, Option.map_some, Option.bind_some, Base.scalar, type]
    rfl
  · obtain ⟨base', exists_b', inside⟩ := h.room given
    obtain rfl : base' = base := Option.some.inj (exists_b'.symm.trans exists_b)
    have capacity : base'.capacity = n := by
      rw [Arena.size?, found, Option.map_some] at size
      rw [Base.capacity, data]
      exact Option.some.inj size
    rwa [capacity] at inside

/-- Allocating another base. -/
theorem simulates_allocate (other : c ≠ b) :
    Exec.Simulates b condition (Prepares b condition v allocated) (Exec.change (·.allocate c))
      (Exec.change (·.allocate c)) (Prepares b condition v allocated) := by
  refine .change (fun a a' h => h.others) fun a a' h _ => ?_
  rw [Arena.allocate, Arena.allocate, h.others c other]
  cases a.get? c with
  | none => exact .none
  | some base =>
    dsimp only
    split
    · exact .some h
    · refine .some ⟨fun d apart => ?_, ?_, ?_, ?_⟩
      · rw [Arena.get?_modify, Arena.get?_modify, h.others d apart]
      · rw [Arena.get?_modify, Arena.get?_modify, if_neg other, if_neg other, h.scalar]
      · rw [Arena.get?_modify, if_neg other]
        exact h.room
      · rw [Arena.buffer?, Arena.get?_modify, if_neg other]
        exact h.data

/-- Allocating the base itself. The scalar is there from the beginning. -/
theorem simulates_allocate_self :
    Exec.Simulates b condition (Prepares b condition v allocated) (Exec.change (·.allocate b))
      (pure ()) (Prepares b condition v True) where
  ok a a' c h ran := by
    refine ⟨a', rfl, ?_⟩
    rw [Exec.change_eq_ok_iff, Arena.allocate] at ran
    cases found : a.get? b with
    | none =>
      rw [found] at ran
      cases ran
    | some base =>
      simp only [found] at ran
      cases data : base.data with
      | some buffer =>
        rw [if_pos (by rw [Base.isAllocated, data]; rfl)] at ran
        cases ran
        refine ⟨h.others, h.scalar, h.room, fun _ => ⟨buffer, ?_⟩⟩
        rw [Arena.buffer?, found]
        exact data
      | none =>
        rw [if_neg (by simp [Base.isAllocated, data])] at ran
        cases ran
        refine ⟨fun d apart => ?_, ?_, fun given => ?_, fun _ => ?_⟩
        · rw [Arena.get?_modify, if_neg apart.symm, h.others d apart]
        · rw [h.scalar, Arena.get?_modify, if_pos rfl, found]
          have type : base.cellType = base.dtype := by rw [Base.cellType, data]; rfl
          rw [Option.map_some, Option.map_some, Option.map_some, Base.scalar, type]
          rfl
        · obtain ⟨base', found', inside⟩ := h.room given
          obtain rfl : base' = base := Option.some.inj (found'.symm.trans found)
          refine ⟨_, by rw [Arena.get?_modify, if_pos rfl, found]; rfl, ?_⟩
          simpa [Base.capacity, data, Buffer.zeros, Buffer.size] using inside
        · exact ⟨_, by rw [Arena.buffer?, Arena.get?_modify, if_pos rfl, found]; rfl⟩
  error given a a' f c h failed := by
    obtain ⟨base, found, -⟩ := h.room given
    rw [Exec.change_eq_error_iff, Arena.allocate, found] at failed
    cases allocated : base.isAllocated
    all_goals
      simp only [allocated, if_true, if_false, Bool.false_eq_true] at failed
      cases failed.1

/-- Allocating the temporaries of a kernel. -/
theorem simulates_allocations (bs : List BaseId) : ∀ {allocated : Prop},
    Exec.Simulates b condition (Prepares b condition v allocated)
      (bs.forM fun c => Exec.change (·.allocate c))
      ((bs.filter (· ≠ b)).forM fun c => Exec.change (·.allocate c))
      (Prepares b condition v (allocated ∨ b ∈ bs)) := by
  induction bs with
  | nil =>
    intro allocated
    refine (Exec.Simulates.skip _).consequence (fun _ _ => id) fun a a' h => ?_
    exact h.weaken fun either => by simpa using either
  | cons c bs ih =>
    intro allocated
    by_cases same : c = b
    · subst same
      have first : Exec.Simulates c condition (Prepares c condition v allocated)
          (Exec.change (·.allocate c)) (pure ()) (Prepares c condition v True) :=
        simulates_allocate_self
      have both := first.seq ih
      rw [pure_bind] at both
      rw [List.filter_cons_of_neg (by simp)]
      exact both.consequence (fun _ _ => id) fun a a' h => h.weaken fun _ => .inl trivial
    · have first : Exec.Simulates b condition (Prepares b condition v allocated)
          (Exec.change (·.allocate c)) (Exec.change (·.allocate c))
          (Prepares b condition v allocated) := simulates_allocate same
      rw [List.filter_cons_of_pos (by simpa using same)]
      refine (first.seq ih).consequence (fun _ _ => id) fun a a' h => ?_
      refine h.weaken fun either => either.imp_right fun member => ?_
      exact (List.mem_cons.mp member).resolve_left (Ne.symm same)

end Prepares

/-- A kernel with a scalar in the place of one of its temporaries runs like the kernel itself. -/
theorem Nest.simulates_runScalar {kernel : Nest} {x : LocalScalar} {v : View} {condition : Prop}
    (temporary : x.base ∈ kernel.allTemps)
    (nodes : ∀ n ∈ kernel.body, n.Layout [] ∧ n.isLoop = true ∧ n.Localizes x v) :
    Exec.Simulates x.base condition (Prepares x.base condition v False) kernel.run
      (kernel.runScalar x) (Mirrors x.base condition v False 0) := by
  have allocations : Exec.Simulates x.base condition (Prepares x.base condition v False)
      (kernel.allTemps.forM fun b => Exec.change (·.allocate b))
      ((kernel.allTemps.filter (· ≠ x.base)).forM fun b => Exec.change (·.allocate b))
      (Mirrors x.base condition v False 0) := by
    exact (Prepares.simulates_allocations kernel.allTemps).consequence (fun _ _ => id)
      fun a a' h => (h.weaken fun _ => .inr temporary).mirrors
  have start : Exec.Simulates x.base condition (Mirrors x.base condition v False 0) (pure ())
      (x.declare kernel.head.id []) (Mirrors x.base condition v False 0) :=
    Mirrors.simulates_declare x kernel.head.id [] 0 0
  have body : Exec.Simulates x.base condition (Mirrors x.base condition v False 0)
      (Node.runBody [] kernel.body) (Node.runScalarBody x [] kernel.body)
      (Mirrors x.base condition v False 0) := by
    refine Node.simulates_body fun n hn => ?_
    obtain ⟨layout, isLoop, localizes⟩ := nodes n hn
    exact Node.simulates_run layout localizes isLoop .nil
  have inside := start.seq body
  rw [pure_bind] at inside
  exact allocations.seq inside

end ArrayFusion
