import ArrayFusion.Kernel.Symbols

/-!
# Names inside a loop body

While a kernel is written, every loop body has a frame of names: array elements that a scalar
stands for, variables that hold array indices, elements whose updates need protection against other
threads, and the axis whose first iteration the body is. All but the index variables are seen from
inner loops too.
-/

namespace ArrayFusion

/-- How an update is protected against other threads. -/
inductive Protection where
  | atomic
  | critical
  deriving DecidableEq, Repr, Inhabited

/-- Names of one loop body. -/
structure Frame where
  /-- Rank of the loop. -/
  rank : Int
  /-- Views that a scalar stands for. -/
  replaced : List View := []
  /-- Index expressions and the variables that hold them, first declared first. -/
  indexVars : List (String × String) := []
  /-- Views whose updates are protected, the latest entry first. -/
  guarded : List (View × Protection) := []
  /-- The body is the first iteration along this axis. -/
  openingAxis : Option Nat := none
  deriving Inhabited

/-- Names that are seen from a loop body. -/
structure Scope where
  symbols : Symbols
  /-- Number of leading ranks that run on hardware threads. -/
  threadedRanks : Nat
  frame : Frame
  /-- Frames of the enclosing bodies, innermost first. -/
  outer : List Frame := []

namespace Scope

/-- Scope of a kernel body. -/
def root (symbols : Symbols) (threadedRanks : Nat) : Scope :=
  { symbols, threadedRanks, frame := { rank := -1 } }

/-- Scope of the body of an inner loop. -/
def child (s : Scope) (rank : Int) : Scope :=
  { s with frame := { rank }, outer := s.frame :: s.outer }

/-- Scope around the body, if there is one. -/
def parent? (s : Scope) : Option Scope :=
  match s.outer with
  | [] => none
  | f :: outer => some { s with frame := f, outer }

def frames (s : Scope) : List Frame := s.frame :: s.outer

/-- Lets a scalar stand for a view. -/
def replace (s : Scope) (v : View) : Scope :=
  { s with frame := { s.frame with replaced := v :: s.frame.replaced } }

def isReplaced (s : Scope) (v : View) : Bool := s.frames.any (·.replaced.any (·.sameAccess v))

/-- Variable of this body that holds an index expression. -/
def indexVar? (s : Scope) (e : String) : Option String := s.frame.indexVars.lookup e

/-- Variable for an index expression, a new one if there is none yet. -/
def addIndexVar (s : Scope) (e : String) : Scope × String :=
  match s.indexVar? e with
  | some name => (s, name)
  | none =>
    let name := s!"idx{max s.frame.rank 0}_{s.frame.indexVars.length}"
    ({ s with frame := { s.frame with indexVars := s.frame.indexVars ++ [(e, name)] } }, name)

/-- Protects the updates of a view. -/
def guard (s : Scope) (v : View) (p : Protection) : Scope :=
  { s with frame := { s.frame with guarded := (v, p) :: s.frame.guarded } }

def protection? (s : Scope) (v : View) : Option Protection :=
  s.frames.findSome? fun f => (f.guarded.find? (·.1.sameAccess v)).map (·.2)

/-- Marks the body as the first iteration along an axis. -/
def openAxis (s : Scope) (axis : Nat) : Scope :=
  { s with frame := { s.frame with openingAxis := some axis } }

/-- The body, or one around it, is the first iteration along an axis. -/
def isOpening (s : Scope) (axis : Nat) : Bool := s.frames.any (·.openingAxis == some axis)

def isScalarTemp (s : Scope) (b : BaseId) : Bool := s.symbols.isScalarTemp b

@[simp] theorem parent?_child (s : Scope) (rank : Int) : (s.child rank).parent? = some s := rfl

@[simp] theorem frames_child (s : Scope) (rank : Int) :
    (s.child rank).frames = { rank } :: s.frames := rfl

theorem isReplaced_replace (s : Scope) (v w : View) :
    (s.replace v).isReplaced w = (v.sameAccess w || s.isReplaced w) := by
  simp [isReplaced, replace, frames, Bool.or_assoc]

/-- The latest protection of a view counts. -/
theorem protection?_guard (s : Scope) (v w : View) (p : Protection) :
    (s.guard v p).protection? w = if v.sameAccess w then some p else s.protection? w := by
  cases h : v.sameAccess w <;> simp [protection?, guard, frames, List.findSome?_cons, h]

theorem isOpening_openAxis (s : Scope) (axis : Nat) :
    (s.openAxis axis).isOpening axis = true := by
  simp [isOpening, openAxis, frames]

/-- A variable for an index expression is found again. -/
theorem indexVar?_addIndexVar (s : Scope) (e : String) :
    (s.addIndexVar e).1.indexVar? e = some (s.addIndexVar e).2 := by
  simp only [addIndexVar]
  split
  next h => exact h
  next h =>
    simp only [indexVar?] at h ⊢
    simp [List.lookup_append, h]

end Scope

end ArrayFusion
