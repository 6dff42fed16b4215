import ArrayFusion.Proofs.Engine.Resolving
import ArrayFusion.Proofs.Program.Motion

/-!
# What is handed to fusion

A run can note every list of statements that it hands to fusion, with the number of the repeat and
with the arena from which index arrays were read. Without the notes it is the run itself. Every
statement that is handed over is a statement of the program whose views have slid once for every
repeat before and hold what their index arrays held.

So the number of axes is never exceeded, but sizes are handed over unchecked: they are negative
wherever a slide or an index array makes them so, and the run goes on.
-/

namespace ArrayFusion

variable {σ : Type}

/-- Statements that are handed to fusion. -/
structure Handover where
  /-- Number of the repeat, from 0 on. -/
  turn : Nat
  /-- What the bases held when views were resolved. -/
  arena : Arena
  statements : List Statement

/-- Work in a session that notes what is handed over. -/
abbrev Noted (σ : Type) := ExceptT Fault (StateM (Session σ × List Handover))

namespace Noted

def note (h : Handover) : Noted σ Unit := modify fun (s, hs) => (s, hs ++ [h])

/-- Work that notes nothing. -/
def quietly {α : Type} (x : Run σ α) : Noted σ α := fun (s, hs) =>
  let (result, s) := x s
  (result, (s, hs))

end Noted

namespace Engine

open Noted

/-! ## Runs that note what they hand over -/

def noteSegment (e : Engine σ) (turn : Nat) (a : Arena) (segment : List Statement) :
    Noted σ Unit := do
  if segment.isEmpty then pure ()
  else
    note { turn, arena := a, statements := segment }
    let (nests, next) ← quietly (liftM ((Fusion.fuse e.settings.separate segment).run 0))
    quietly (e.runNests next nests)

def noteStatements (e : Engine σ) (turn : Nat) (a : Arena) :
    (segment : List Statement) → List Statement → Noted σ Unit
  | segment, [] => e.noteSegment turn a segment.reverse
  | segment, s :: rest =>
    match s.instr.opcode with
    | .extension id => do
      e.noteSegment turn a segment.reverse
      quietly (e.runExtension id s.instr)
      noteStatements e turn a [] rest
    | _ => noteStatements e turn a (s :: segment) rest

def noteStretch (e : Engine σ) (turn : Nat) (stretch : List Statement) : Noted σ Unit := do
  let a := (← quietly get).arena
  let (resolved, failure) := Statement.resolveAll a stretch
  match failure with
  | some fault => throw fault
  | none => e.noteStatements turn a [] resolved

def noteBody (e : Engine σ) (turn : Nat) (resolving : Bool) (body : List Statement) :
    Noted σ Unit := do
  if resolving then (partitions body).forM (e.noteStretch turn)
  else e.noteStatements turn (← quietly get).arena [] body
  quietly (Run.count fun s => { s with repeats := s.repeats + 1 })

def noteRepeats (e : Engine σ) (p : Program) :
    (turn count : Nat) → List Statement → Noted σ Unit
  | _, 0, _ => pure ()
  | turn, count + 1, body => do
    e.noteBody turn p.usesIndexArrays body
    if count = 0 || !holds p.condition (← quietly get).arena then pure ()
    else
      let body ← if p.isSliding then quietly (body.mapM fun s => liftM s.slide) else pure body
      noteRepeats e p (turn + 1) count body

/-- Runs a program and notes what it hands over. -/
def noteRun (e : Engine σ) (p : Program) : Noted σ Unit :=
  e.noteRepeats p 0 (max p.repeats 1) p.body

end Engine

/-! ## What is noted -/

/-- The noted work does what the other work does, and all its notes satisfy a condition. -/
def Notes (P : Handover → Prop) {α : Type} (y : Noted σ α) (x : Run σ α) : Prop :=
  ∀ s hs, ∃ new, y (s, hs) = ((x s).1, (x s).2, hs ++ new) ∧ ∀ h ∈ new, P h

namespace Notes

variable {P : Handover → Prop} {α β : Type}

theorem quietly (x : Run σ α) : Notes P (Noted.quietly x) x := fun s hs =>
  ⟨[], by rw [List.append_nil]; rfl, List.forall_mem_nil _⟩

theorem pure (u : α) : Notes P (σ := σ) (Pure.pure u) (Pure.pure u) := quietly (Pure.pure u)

/-- Work in two parts, where the second part can rely on what the first one returned. -/
theorem bind_of {y : Noted σ α} {x : Run σ α} {g : α → Noted σ β} {f : α → Run σ β}
    (first : Notes P y x) (second : ∀ u s s', x s = (.ok u, s') → Notes P (g u) (f u)) :
    Notes P (y >>= g) (x >>= f) := by
  intro s hs
  obtain ⟨new, ran, all⟩ := first s hs
  rw [Exec.run_bind, Exec.run_bind, ran]
  cases found : x s with
  | mk result s' =>
    cases result with
    | error e => exact ⟨new, rfl, all⟩
    | ok u =>
      obtain ⟨new', ran', all'⟩ := second u s s' found s' (hs ++ new)
      refine ⟨new ++ new', ?_, List.forall_mem_append.mpr ⟨all, all'⟩⟩
      show g u (s', hs ++ new) = _
      rw [ran', List.append_assoc]

theorem bind {y : Noted σ α} {x : Run σ α} {g : α → Noted σ β} {f : α → Run σ β}
    (first : Notes P y x) (second : ∀ u, Notes P (g u) (f u)) : Notes P (y >>= g) (x >>= f) :=
  first.bind_of fun u _ _ _ => second u

theorem forM {xs : List α} {y : α → Noted σ Unit} {x : α → Run σ Unit}
    (each : ∀ u ∈ xs, Notes P (y u) (x u)) : Notes P (xs.forM y) (xs.forM x) := by
  induction xs with
  | nil => exact pure ()
  | cons u xs ih =>
    obtain ⟨here, later⟩ := List.forall_mem_cons.mp each
    exact here.bind fun _ => ih later

/-- A note goes in front of work that does what it is to do. -/
theorem note {h : Handover} {g : Unit → Noted σ α} {x : Run σ α} (holds : P h)
    (rest : Notes P (g ()) x) : Notes P (Noted.note h >>= g) x := by
  intro s hs
  obtain ⟨new, ran, all⟩ := rest s (hs ++ [h])
  refine ⟨h :: new, ?_, List.forall_mem_cons.mpr ⟨holds, all⟩⟩
  rw [Exec.run_bind]
  show g () (s, hs ++ [h]) = _
  rw [ran, List.append_assoc]
  rfl

/-- Looking at the session changes nothing. -/
theorem look {g : Session σ → Noted σ α} {x : Run σ α} (rest : ∀ s, Notes P (g s) x) :
    Notes P (Noted.quietly get >>= g) x := by
  intro s hs
  rw [Exec.run_bind]
  exact rest s s hs

end Notes

/-- The handover belongs to a repeat of the program: it holds what statements of the program have
become. -/
structure Handover.From (p : Program) (h : Handover) : Prop where
  turn : h.turn < max p.repeats 1
  statements : ∀ t ∈ h.statements, ∃ s ∈ p.body, s.InRepeat h.turn h.arena t

namespace Engine

variable {P : Handover → Prop} {p : Program} {e : Engine σ} {turn : Nat} {a : Arena}

theorem notes_segment {segment : List Statement}
    (holds : P { turn, arena := a, statements := segment }) :
    Notes P (e.noteSegment turn a segment) (e.runSegment segment) := by
  rw [noteSegment, runSegment]
  split
  · exact .pure ()
  · refine .note holds (.bind (.quietly _) ?_)
    rintro ⟨nests, next⟩
    exact .quietly _

/-- Statements are handed over in segments of the list. -/
theorem notes_statements {segment rest : List Statement} (inTurn : turn < max p.repeats 1)
    (here : ∀ t ∈ segment, ∃ s ∈ p.body, s.InRepeat turn a t)
    (later : ∀ t ∈ rest, ∃ s ∈ p.body, s.InRepeat turn a t) :
    Notes (Handover.From p) (e.noteStatements turn a segment rest)
      (e.runStatements segment rest) := by
  have hand {segment : List Statement}
      (here : ∀ t ∈ segment, ∃ s ∈ p.body, s.InRepeat turn a t) :
      Notes (Handover.From p) (e.noteSegment turn a segment.reverse)
        (e.runSegment segment.reverse) :=
    notes_segment ⟨inTurn, fun t ht => here t (List.mem_reverse.mp ht)⟩
  induction rest generalizing segment with
  | nil => exact hand here
  | cons t rest ih =>
    obtain ⟨first, later⟩ := List.forall_mem_cons.mp later
    rw [noteStatements, runStatements]
    cases t.instr.opcode with
    | extension id =>
      refine (hand here).bind fun _ => .bind (.quietly _) fun _ => ?_
      exact ih (List.forall_mem_nil _) later
    | _ => exact ih (List.forall_mem_cons.mpr ⟨first, here⟩) later

/-- Statements that were called often enough, as the body of a program in a repeat. -/
def Moved (p : Program) (turn : Nat) (body : List Statement) : Prop :=
  List.Forall₂ (fun s₀ s => s₀.After turn s) p.body body

theorem exists_of_moved {body : List Statement} (moved : Moved p turn body) {t : Statement}
    (ht : t ∈ body) : ∃ s ∈ p.body, s.After turn t := exists_of_forall₂ moved ht

theorem notes_stretch {stretch : List Statement} (inTurn : turn < max p.repeats 1)
    (moved : ∀ t ∈ stretch, ∃ s ∈ p.body, s.After turn t) :
    Notes (Handover.From p) (e.noteStretch turn stretch) (e.runStretch stretch) := by
  refine .bind (.quietly get) fun s => ?_
  dsimp only
  cases resolved : Statement.resolveAll s.arena stretch with
  | mk ts failure =>
    cases failure with
    | some fault => exact .quietly (throw fault)
    | none =>
      refine notes_statements inTurn (List.forall_mem_nil _) fun t ht => ?_
      obtain ⟨u, hu, found⟩ := exists_of_forall₂ (Statement.forall₂_of_resolveAll resolved) ht
      obtain ⟨s₀, hs₀, after⟩ := moved u hu
      exact ⟨s₀, hs₀, after.inRepeat found⟩

theorem notes_body {body : List Statement} (inTurn : turn < max p.repeats 1)
    (moved : Moved p turn body) : Notes (Handover.From p) (e.noteBody turn p.usesIndexArrays body)
      (e.runBody p.usesIndexArrays body) := by
  rw [noteBody, runBody]
  cases resolving : p.usesIndexArrays with
  | true =>
    refine Notes.bind (.forM fun stretch inside => notes_stretch inTurn fun t ht => ?_) fun _ =>
      .quietly _
    have member := Stretch.mem_partitions_iff.mp (List.mem_flatten.mpr ⟨stretch, inside, ht⟩)
    exact exists_of_moved moved member
  | false =>
    refine .look fun s => .bind ?_ fun _ => .quietly _
    refine notes_statements inTurn (List.forall_mem_nil _) fun t ht => ?_
    obtain ⟨s₀, hs₀, after⟩ := exists_of_moved moved ht
    have direct : s₀.instr.operands.any (·.usesIndexArrays) = false := by
      rw [Program.usesIndexArrays, List.any_eq_false] at resolving
      simpa using resolving s₀ hs₀
    exact ⟨s₀, hs₀, after.inRepeat_of_direct direct s.arena⟩

theorem run_mapM_liftM {α β : Type} {f : α → Except Fault β} {xs : List α} {ys : List β}
    (h : xs.mapM f = .ok ys) (s : Session σ) :
    (xs.mapM fun x => (liftM (f x) : Run σ β)) s = (.ok ys, s) := by
  have each := forall₂_of_mapM h
  clear h
  induction each with
  | nil => rfl
  | cons first _ ih =>
    rw [List.mapM_cons, Exec.run_bind, first]
    show (_ >>= _ : Run σ _) s = _
    rw [Exec.run_bind, ih]
    rfl

/-- Sliding the body of a program succeeds. -/
theorem Moved.slide (accepted : ∀ s ∈ p.body, s.Accepted) {body : List Statement}
    (moved : Moved p turn body) :
    ∃ next, body.mapM Statement.slide = .ok next ∧ Moved p (turn + 1) next :=
  exists_mapM_of_forall₂ moved fun s₀ hs₀ _ _ after => after.slide (accepted s₀ hs₀)

/-- A program without slides stays as it is. -/
theorem Moved.still (accepted : ∀ s ∈ p.body, s.Accepted) {body : List Statement}
    (moved : Moved p turn body) (still : p.isSliding = false) : Moved p (turn + 1) body := by
  rw [Program.isSliding, List.any_eq_false] at still
  refine (forall₂_with_mem moved).imp fun s₀ s related => ?_
  exact related.2.2.still (accepted s₀ related.1) (by simpa using still s₀ related.1)

theorem notes_repeats (accepted : ∀ s ∈ p.body, s.Accepted) {count : Nat} {body : List Statement}
    (turns : turn + count ≤ max p.repeats 1) (moved : Moved p turn body) :
    Notes (Handover.From p) (e.noteRepeats p turn count body) (e.runRepeats p count body) := by
  induction count generalizing turn body with
  | zero => exact .pure ()
  | succ count ih =>
    rw [noteRepeats, runRepeats]
    refine (notes_body (by omega) moved).bind fun _ => .bind (.quietly get) fun s => ?_
    dsimp only
    split
    · exact .pure ()
    cases sliding : p.isSliding with
    | true =>
      refine Notes.bind_of (.quietly _) fun next s s' slid => ?_
      obtain ⟨next', found, moved'⟩ := moved.slide accepted
      cases (run_mapM_liftM found s).symm.trans slid
      exact ih (by omega) moved'
    | false => exact ih (by omega) (moved.still accepted sliding)

/-- A run that notes what it hands over is the run itself, and hands over statements of the program
as they are in the repeat. -/
theorem notes_run (accepted : ∀ s ∈ p.body, s.Accepted) :
    Notes (Handover.From p) (e.noteRun p) (e.run p) := by
  refine notes_repeats accepted (by omega) ?_
  exact List.forall₂_same.mpr fun s hs => (accepted s hs).after

/-- A view that shrinks is handed over with a negative size, and the run succeeds. -/
theorem run_hands_negative :
    let window (b : BaseId) : View := { View.whole b .int64 1 with
      slides := [{ dim := 0, step := 0, stride := 1, extent := 2, growth := -1 }] }
    let p : Program :=
      { body := [⟨{ opcode := .unary .identity, operands := [window 0, window 1] }, none⟩]
        repeats := 3 }
    let before : Session Unit :=
      { arena := .ofList [⟨.int64, 2, some (.zeros .int64 2)⟩, ⟨.int64, 2, some (.zeros .int64 2)⟩]
        backend := () }
    let r := (new {} (Backend.interpreter .openmp)).noteRun p (before, [])
    (∀ s ∈ p.body, s.Accepted) ∧ r.1.toOption = some () ∧
      (r.2.2.map fun h => h.statements.map fun t => t.instr.operands.map (·.shape)) =
        [[[[1], [1]]], [[[0], [0]]], [[[-1], [-1]]]] := by
  decide +kernel

end Engine

end ArrayFusion
