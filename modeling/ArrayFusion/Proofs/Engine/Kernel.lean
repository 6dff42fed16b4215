import ArrayFusion.Engine.Execute
import ArrayFusion.Backend.Interpreter
import ArrayFusion.Proofs.Engine.Memory
import ArrayFusion.Proofs.Eval.Sequential
import ArrayFusion.Proofs.Fusion.Singletons

/-!
# Running a kernel

Whatever a kernel computes, it changes data of bases that its statements name, and it allocates and
frees nothing meanwhile. Around this, the engine allocates all bases that the kernel mentions and
frees those that are to be freed after it. So a kernel is a piece of a run.
-/

namespace ArrayFusion

open ArrayFusion.Action

/-- Existence and allocation of all bases are left as they are by writing an element. -/
theorem Write.keeps_allocation {w : Write} {a a' : Arena} (h : w.act.run a = some a')
    (b : BaseId) : (a'.get? b).map (·.isAllocated) = (a.get? b).map (·.isAllocated) := by
  rw [run_act] at h
  split at h
  · cases h
    rw [Arena.get?_mapBases, Option.map_map]
    congr 1
    funext base
    simp only [Function.comp_apply, onBases]
    split
    · simp [Base.isAllocated]
    · rfl
  · contradiction

/-- An instruction acts on its bases only. -/
theorem Instruction.local_act (i : Instruction) (ts : Turns) : Local (i.act ts) i.bases where
  frame _ alone := commute_mapBases alone
  keeps a a' h b := by
    rw [run_act, Option.bind_eq_some_iff] at h
    obtain ⟨w, -, written⟩ := h
    cases w with
    | none =>
        cases written
        rfl
    | some w => exact w.keeps_allocation written b

namespace Node

/-- Bases that the statements of a node name. -/
def bases (n : Node) : List BaseId := n.statements.flatMap (·.instr.bases)

/-- Bases whose values address views of the statements of a node. -/
def indexBases (n : Node) : List BaseId := n.statements.flatMap (·.instr.indexBases)

/-- A node acts on the bases of its statements only. -/
theorem local_run {outer : List Int} {n : Node} (h : Layout outer n) (ts : Turns) :
    Local (n.run ts).act n.bases := by
  induction h generalizing ts with
  | @leaf outer s rank computes under depth innermost =>
      rw [act_run_leaf]
      exact (s.instr.local_act ts).mono fun b hb => by simpa [bases, statements] using hb
  | @loop outer head body rank size records together nodes ih =>
      rw [act_run_loop (by omega)]
      refine Local.prod fun e he => ?_
      obtain ⟨k, -, rfl⟩ := List.mem_map.mp he
      rw [act_runBody]
      refine Local.prod fun e he => ?_
      obtain ⟨n, hn, rfl⟩ := List.mem_map.mp he
      refine (ih n hn _).mono fun b hb => ?_
      obtain ⟨s, hs, hb⟩ := List.mem_flatMap.mp hb
      rw [bases, statements, bodyStatements_eq_flatMap]
      exact List.mem_flatMap.mpr ⟨s, List.mem_flatMap.mpr ⟨n, hn, hs⟩, hb⟩

end Node

namespace Nest

/-- What running a loop as a kernel amounts to. -/
def piece (l : Nest) : Piece := ⟨l.toNode.bases, (l.toNode.run []).act, l.allFrees⟩

theorem local_piece {l : Nest} (h : l.toNode.Layout []) : Local l.piece.action l.piece.needs :=
  l.toNode.local_run h []

/-- What running a loop as a kernel amounts to, with the bases that address its views among those
that are allocated first. -/
def fullPiece (l : Nest) : Piece :=
  { l.piece with needs := l.toNode.bases ++ l.toNode.indexBases }

theorem local_fullPiece {l : Nest} (h : l.toNode.Layout []) :
    Local l.fullPiece.action l.fullPiece.needs :=
  (local_piece h).mono fun _ hb => List.mem_append_left _ hb

theorem accesses_iff {l : Nest} {b : BaseId} : l.Accesses b ↔ b ∈ l.fullPiece.needs := by
  simp only [Accesses, fullPiece, Node.bases, Node.indexBases, statements_toNode, List.mem_append,
    List.mem_flatMap, Instruction.mentions, Bool.or_eq_true, List.contains_iff_mem, and_or_left,
    exists_or]

/-- No statement names a base whose values address its views. -/
def Direct (l : Nest) : Prop := ∀ s ∈ l.statements, s.instr.indexBases = []

theorem fullPiece_of_direct {l : Nest} (direct : l.Direct) : l.fullPiece = l.piece := by
  have none : l.toNode.indexBases = [] := by
    rw [Node.indexBases, statements_toNode]
    exact List.flatMap_eq_nil_iff.mpr direct
  rw [fullPiece, none, List.append_nil]
  rfl

/-! ## The sets of a kernel -/

/-- A kernel frees what its nodes free. -/
theorem mem_allFrees_kernel {body : List Node} {n : Nat} {b : BaseId} :
    b ∈ (Nest.kernel body n).1.allFrees ↔ ∃ m ∈ body, m.Frees b := by
  have unfolded : (Nest.kernel body n).1.toNode =
      .loop (describe { id := n, rank := -1, size := 1 } body) body := rfl
  rw [mem_allFrees_iff, unfolded, Node.frees_loop]
  simp [describe]

/-- A kernel creates what its statements create. -/
theorem mem_allNews_kernel {body : List Node} {n : Nat} {b : BaseId}
    (records : ∀ m ∈ body, RecordsNews m) :
    b ∈ (Nest.kernel body n).1.allNews ↔ ∃ s ∈ Node.bodyStatements body, Creates b s :=
  mem_allNews_of_recordsNews (l := (Nest.kernel body n).1)
    (recordsNews_loop (mem_news_of_records (l := (Nest.kernel body n).1) ⟨rfl, rfl⟩) records)

end Nest

namespace Fusion

variable {l : Nest} {n : Nat} {b : BaseId}

theorem kernel_eq (l : Nest) (n : Nat) : (kernel [l] n).1 =
    Nest.refresh ⟨{ id := n, rank := -1, size := 1 }, [l.toNode]⟩ := rfl

theorem statements_kernel (l : Nest) (n : Nat) : (kernel [l] n).1.statements = l.statements := by
  rw [kernel_eq, Nest.statements_refresh, Nest.statements, Node.bodyStatements,
    Nest.statements_toNode, Node.bodyStatements, List.append_nil]

theorem mem_allFrees_kernel : b ∈ (kernel [l] n).1.allFrees ↔ b ∈ l.allFrees := by
  have whole : b ∈ (kernel [l] n).1.allFrees ↔ ∃ m ∈ [l].map Nest.toNode, m.Frees b :=
    Nest.mem_allFrees_kernel
  rw [whole, Nest.mem_allFrees_iff]
  simp

/-- The engine and the kernel together allocate all bases that the loop mentions. -/
theorem mem_allocated_kernel : b ∈ (kernel [l] n).1.allNonTemps ++ (kernel [l] n).1.allTemps ↔
    b ∈ l.fullPiece.needs ∨ b ∈ l.allFrees := by
  have mentioned : b ∈ (kernel [l] n).1.allBases ↔ b ∈ l.fullPiece.needs ∨ b ∈ l.allFrees := by
    rw [Nest.mem_allBases_iff, mem_allFrees_kernel, Nest.Accesses, statements_kernel,
      ← Nest.Accesses, Nest.accesses_iff, or_comm]
  rw [List.mem_append, Nest.allNonTemps, BaseSet.mem_diff, mentioned, Nest.allTemps,
    BaseSet.mem_inter, mem_allFrees_kernel]
  tauto

end Fusion

/-! ## Allocating and freeing -/

/-- All bases of a list are in the arena. -/
def Arena.HasAll (a : Arena) (bs : List BaseId) : Prop := ∀ b ∈ bs, (a.get? b).isSome = true

theorem Arena.allocate_eq {a : Arena} {b : BaseId} (exists_b : (a.get? b).isSome = true) :
    (a.allocate b).toOption = (grant [b]).run a := by
  obtain ⟨base, found⟩ := Option.isSome_iff_exists.mp exists_b
  rw [allocate, found]
  simp only [grant, run_mapBases]
  split
  next allocated =>
    refine congrArg some (Arena.mapBases_id fun c base' found' => ?_).symm
    split
    next same =>
      obtain rfl : c = b := List.mem_singleton.mp same
      obtain rfl : base = base' := Option.some.inj (found.symm.trans found')
      exact Base.granted_of_isAllocated allocated
    next => rfl
  next notAllocated =>
    rw [modify_eq_mapBases]
    refine congrArg some (Arena.mapBases_congr fun c base' found' => ?_)
    simp only [List.mem_singleton]
    split
    next same =>
      subst same
      obtain rfl : base = base' := Option.some.inj (found.symm.trans found')
      exact (if_neg notAllocated).symm
    next => rfl

/-- Allocating bases that exist gives them data. -/
theorem run_allocate {bs : List BaseId} {a : Arena} (exist : a.HasAll bs) :
    (bs.forM fun b => Exec.change (·.allocate b)).act.run a = (grant bs).run a := by
  induction bs generalizing a with
  | nil => rw [Exec.act_forM, grant_nil, List.map_nil, List.prod_nil]
  | cons b bs ih =>
      have first : (Exec.change (·.allocate b)).act.run a = (grant [b]).run a := by
        rw [Exec.act_change]
        exact Arena.allocate_eq (exist b (by simp))
      have both : grant (b :: bs) = grant [b] * grant bs := (grant_mul_grant [b] bs).symm
      rw [Exec.act_forM, List.map_cons, List.prod_cons, ← Exec.act_forM, run_mul, first, both,
        run_mul]
      refine ih fun c hc => ?_
      rw [Arena.get?_mapBases, Option.isSome_map]
      exact exist c (by simp [hc])

/-- Allocating fails if some base does not exist. -/
theorem run_allocate_of_missing {bs : List BaseId} {a : Arena} (missing : ¬ a.HasAll bs) :
    (bs.forM fun b => Exec.change (·.allocate b)).act.run a = none := by
  induction bs generalizing a with
  | nil => exact absurd (by simp [Arena.HasAll]) missing
  | cons b bs ih =>
      rw [Exec.act_forM, List.map_cons, List.prod_cons, ← Exec.act_forM, Exec.act_change]
      cases found : a.get? b with
      | none =>
          refine run_mul_of_none ?_ _
          show (a.allocate b).toOption = none
          rw [Arena.allocate, found]
          rfl
      | some base =>
          have granted : (Action.mk fun a => (a.allocate b).toOption).run a = (grant [b]).run a :=
            Arena.allocate_eq (by simp [found])
          rw [run_mul_of_some (granted.trans (run_mapBases ..))]
          refine ih fun exist => missing ?_
          simp only [Arena.HasAll, Arena.get?_mapBases, Option.isSome_map] at exist
          simp only [Arena.HasAll, List.forall_mem_cons, found, Option.isSome_some, true_and]
          exact exist

/-- What allocating does depends on nothing but which bases are allocated. -/
theorem act_allocate_congr {bs cs : List BaseId} (same : ∀ b, b ∈ bs ↔ b ∈ cs) :
    (bs.forM fun b => Exec.change (·.allocate b)).act =
      (cs.forM fun b => Exec.change (·.allocate b)).act := by
  refine Action.ext fun a => ?_
  have both : a.HasAll bs ↔ a.HasAll cs := by simp only [Arena.HasAll, same]
  by_cases exist : a.HasAll bs
  · rw [run_allocate exist, run_allocate (both.mp exist), grant_congr same]
  · rw [run_allocate_of_missing exist, run_allocate_of_missing (mt both.mpr exist)]

theorem Arena.free_eq (a : Arena) (b : BaseId) : some (a.free b) = (clear [b]).run a := by
  rw [free, modify_eq_mapBases, clear, run_mapBases]
  refine congrArg some (Arena.mapBases_congr fun c base _ => ?_)
  simp only [List.mem_singleton]
  rfl

/-- What is allocated after a piece of a run: what it does not free, if it needs it or if it was
allocated before. -/
theorem Piece.allocation {p : Piece} (inside : Local p.action p.needs) {a a' : Arena}
    (h : p.act.run a = some a') (b : BaseId) :
    (a'.get? b).map (·.isAllocated) = (a.get? b).map fun base =>
      !decide (b ∈ p.drops) && (decide (b ∈ p.needs) || base.isAllocated) := by
  rw [act, run_mul, Option.bind_eq_some_iff] at h
  obtain ⟨after, computed, freed⟩ := h
  rw [grant, run_mul_of_some (run_mapBases _ a)] at computed
  have kept := inside.keeps _ _ computed b
  rw [Arena.get?_mapBases] at kept
  cases freed
  rw [Arena.get?_mapBases]
  cases before : a.get? b with
  | none => simpa [before] using kept
  | some base =>
      obtain ⟨base', found⟩ : ∃ base', after.get? b = some base' := by
        cases found : after.get? b with
        | none => simp [before, found] at kept
        | some base' => exact ⟨base', rfl⟩
      rw [before, found] at kept
      rw [found]
      simp only [Option.map_some, Option.some.injEq] at kept ⊢
      by_cases dropped : b ∈ p.drops
      · simp [dropped, Base.cleared, Base.isAllocated]
      · by_cases needed : b ∈ p.needs <;> simp_all

theorem Piece.keeps_exists {p : Piece} (inside : Local p.action p.needs) {a a' : Arena}
    (h : p.act.run a = some a') {bs : List BaseId} (exist : a.HasAll bs) : a'.HasAll bs := by
  intro b hb
  have kept := congrArg Option.isSome (allocation inside h b)
  rw [Option.isSome_map, Option.isSome_map] at kept
  rw [kept]
  exact exist b hb

/-! ## Work in a session -/

/-- How work in a session ends: with an arena, or with a fault if there is none. -/
def Ends {σ : Type} (r : Except Fault Unit × Session σ) : Option Arena → Prop
  | some a => r.1 = .ok () ∧ r.2.arena = a
  | none => ∃ f, r.1 = .error f

namespace Run

variable {σ : Type}

/-- The work acts on the arena like the action, wherever it starts. -/
def Performs (x : Run σ Unit) (f : Action) : Prop := ∀ s, Ends (x s) (f.run s.arena)

theorem exists_of_succeeds {r : Except Fault Unit × Session σ} (h : r.1 = .ok ()) :
    ∃ s, r = (.ok (), s) :=
  ⟨r.2, by rw [← h]⟩

theorem ends_bind {x : Run σ Unit} {y : Unit → Run σ Unit} {f g : Action} {s : Session σ}
    (first : Ends (x s) (f.run s.arena))
    (second : ∀ s', f.run s.arena = some s'.arena → Ends (y () s') (g.run s'.arena)) :
    Ends ((x >>= y) s) ((f * g).run s.arena) := by
  rw [Exec.run_bind, run_mul]
  rcases found : x s with ⟨r, s'⟩
  rw [found] at first
  cases next : f.run s.arena with
  | none =>
      rw [next] at first
      obtain ⟨e, rfl⟩ := first
      exact ⟨e, rfl⟩
  | some a =>
      rw [next] at first
      obtain ⟨rfl, rfl⟩ := first
      exact second s' next

theorem Performs.bind {x : Run σ Unit} {y : Unit → Run σ Unit} {f g : Action} (first : Performs x f)
    (second : Performs (y ()) g) : Performs (x >>= y) (f * g) :=
  fun s => ends_bind (first s) fun s' _ => second s'

theorem performs_pure : Performs (pure () : Run σ Unit) 1 := fun _ => ⟨rfl, rfl⟩

theorem performs_onArena (x : Exec Unit) : Performs (σ := σ) (onArena x) x.act := by
  intro s
  have unfolded : onArena x s = match x s.arena with
      | (.ok (), arena) => (.ok (), { s with arena })
      | (.error e, arena) => (.error e, { s with arena }) := by
    simp only [onArena, bind, ExceptT.bind, ExceptT.mk, ExceptT.bindCont, StateT.bind, get, getThe,
      MonadStateOf.get, liftM, monadLift, MonadLift.monadLift, ExceptT.lift, StateT.get,
      Functor.map, StateT.map, pure]
    rcases x s.arena with ⟨_ | _, arena⟩ <;> rfl
  have ran : x.act.run s.arena = match x s.arena with
      | (.ok _, arena) => some arena
      | (.error _, _) => none := by
    simp only [Exec.act]
    rcases x s.arena with ⟨_ | _, arena⟩ <;> rfl
  rw [unfolded, ran]
  rcases x s.arena with ⟨_ | _, arena⟩
  · exact ⟨_, rfl⟩
  · exact ⟨rfl, rfl⟩

theorem performs_modify (f : Session σ → Session σ) (g : Action)
    (h : ∀ s, g.run s.arena = some (f s).arena) : Performs (modify f) g := by
  intro s
  rw [h s]
  exact ⟨rfl, rfl⟩

theorem performs_count (f : Stats → Stats) : Performs (σ := σ) (count f) 1 :=
  performs_modify _ 1 fun _ => rfl

theorem performs_print (line : String) : Performs (σ := σ) (print line) 1 :=
  performs_modify _ 1 fun _ => rfl

theorem performs_forM {α : Type} {xs : List α} {x : α → Run σ Unit} {f : α → Action}
    (h : ∀ y ∈ xs, Performs (x y) (f y)) : Performs (xs.forM x) (xs.map f).prod := by
  induction xs with
  | nil => exact performs_pure
  | cons y ys ih =>
      rw [List.map_cons, List.prod_cons]
      exact (h y (by simp)).bind (ih fun z hz => h z (by simp [hz]))

theorem performs_printText (text : String) : Performs (σ := σ) (printText text) 1 := by
  have lines : Performs (σ := σ) (printText text) ((text.splitOn "\n").map fun _ => 1).prod :=
    performs_forM fun line _ => performs_print line
  rwa [List.prod_eq_one (by simp)] at lines

end Run

end ArrayFusion
