import ArrayFusion.Eval.Nest
import ArrayFusion.Source.Kernel

/-!
# Sessions and backends

A session is what programs leave behind: the arena, the state of the backend, some counts and the
lines of debug output. A backend runs one kernel at a time within a session.
-/

namespace ArrayFusion

/-- What an engine has done so far. -/
structure Stats where
  kernels : Nat := 0
  /-- Completed repeats of programs. -/
  repeats : Nat := 0
  extensions : Nat := 0
  deriving DecidableEq, Repr, Inhabited

structure Session (σ : Type) where
  arena : Arena
  /-- State of the backend. -/
  backend : σ
  stats : Stats := {}
  /-- Lines of debug output. -/
  printed : List String := []

/-- Work in a session that can fail. What was done until then stays. -/
abbrev Run (σ : Type) := ExceptT Fault (StateM (Session σ))

namespace Run

/-- Work on the arena. -/
def onArena (x : Exec α) : Run σ α := do
  let s ← get
  let (result, arena) := x s.arena
  set { s with arena }
  match result with
  | .ok x => pure x
  | .error e => throw e

def print (line : String) : Run σ Unit :=
  modify fun s => { s with printed := s.printed ++ [line] }

/-- Prints a text, line by line. -/
def printText (text : String) : Run σ Unit := (text.splitOn "\n").forM print

def count (f : Stats → Stats) : Run σ Unit := modify fun s => { s with stats := f s.stats }

end Run

/-- A kernel that is to be run, with its source if the backend needs it. -/
structure Launch where
  kernel : Nest
  source : Option KernelSource := none

structure Backend (σ : Type) where
  /-- Target whose source the backend runs. -/
  target : Target
  needsSource : Bool := true
  /-- Runs a kernel. All bases that live on outside of it are allocated. -/
  execute : Launch → Run σ Unit

end ArrayFusion
