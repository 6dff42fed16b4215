import ArrayFusion.Program.Basic
import ArrayFusion.Storage.Arena

/-!
# Views that change between repeats

A sliding view moves when a repeat ends. The start wraps around at the ends of the axis along
which the view moves, and a period takes the view back to where it began. A view with index arrays
takes its numbers from their current contents: the start from the first element, sizes and strides
from one element per axis.
-/

namespace ArrayFusion

namespace Slide

/-- Change of a start by one move, wrapped at the ends of the axis. -/
def change (s : Slide) (start : Int) : Int :=
  let change := s.step * s.stride
  let length := s.stride * s.extent
  if length = 0 then change
  else
    let place := start.tmod length + change
    if place < 0 then change + length
    else if length ≤ place then change - length
    else change

/-- This call does not move the view. -/
def waits (s : Slide) : Bool := (s.calls + 1) % max s.delay 1 != 0

/-- The next move goes back to the beginning. -/
def returns (s : Slide) : Bool := decide (0 < s.period) && s.moves + 1 == s.period

end Slide

namespace View

/-- Changes the size of an axis that must exist. -/
def growAxis (v : View) (dim : Nat) (change : Int) : Except Fault View :=
  match v.axes[dim]? with
  | some a => .ok { v with axes := v.axes.set dim { a with size := a.size + change } }
  | none => .error .missingPart

/-- One call of a slide: the view and the slide afterwards. -/
def stepSlide (v : View) (s : Slide) : Except Fault (View × Slide) := do
  let called := { s with calls := s.calls + 1 }
  if s.waits then pure (v, called)
  else if s.returns then
    let v ← v.growAxis s.dim (-s.sizeChange)
    pure ({ v with start := v.start - s.startChange },
      { called with startChange := 0, sizeChange := 0, moves := 0 })
  else
    let change := s.change v.start
    let v ← v.growAxis s.dim s.growth
    pure ({ v with start := v.start + change },
      { called with
        startChange := s.startChange + change
        sizeChange := s.sizeChange + s.growth
        moves := s.moves + 1 })

/-- One call of every slide, in their order. -/
def stepSlides (v : View) : List Slide → Except Fault (View × List Slide)
  | [] => .ok (v, [])
  | s :: slides => do
    let (v, s) ← v.stepSlide s
    let (v, slides) ← v.stepSlides slides
    pure (v, s :: slides)

/-- The view after one evaluation of its slides. -/
def slide (v : View) : Except Fault View :=
  if v.slides.isEmpty then .ok v
  else do
    let (moved, slides) ← v.stepSlides v.slides
    pure { moved with slides, slideCount := v.slideCount + 1 }

/-- One element of an index array, for the view in its present state. -/
def readIndex (v : View) (a : Arena) (b : BaseId) (position : Nat) : Except Fault Int := do
  let buffer ← a.buffer b
  match buffer.int? position with
  | some x => pure x
  | none => throw (.shortIndexArray b v position)

/-- Reads one number of every axis from an index array, first axis first. -/
def readAxes (v : View) (a : Arena) (b : Option BaseId) (set : Axis → Int → Axis) :
    Except Fault View :=
  match b with
  | none => .ok v
  | some b =>
    (List.range v.ndim).foldlM (fun v d => do
      let x ← v.readIndex a b d
      pure { v with axes := v.axes.modify d (set · x) }) v

/-- The view with the numbers that its index arrays hold now: start, then sizes, then strides. -/
def resolve (v : View) (a : Arena) : Except Fault View := do
  let v ← match v.index.start with
    | none => pure v
    | some b => do
      let x ← v.readIndex a b 0
      pure { v with start := x }
  let v ← v.readAxes a v.index.shape fun axis x => { axis with size := x }
  v.readAxes a v.index.stride fun axis x => { axis with stride := x }

end View

namespace Statement

/-- The statement after one evaluation of its slides. A statement without sliding views stays at
its place. -/
def slide (s : Statement) : Except Fault Statement :=
  if s.instr.operands.any (·.isSliding) then do
    pure (fresh { s.instr with operands := ← s.instr.operands.mapM (·.slide) })
  else .ok s

/-- The statement with the numbers that index arrays hold now. A statement without index arrays
stays at its place. -/
def resolve (a : Arena) (s : Statement) : Except Fault Statement :=
  if s.instr.operands.any (·.usesIndexArrays) then do
    pure (fresh { s.instr with operands := ← s.instr.operands.mapM (·.resolve a) })
  else .ok s

/-- Resolves statements up to the first failure: the statements afterwards, and the failure. -/
def resolveAll (a : Arena) : List Statement → List Statement × Option Fault
  | [] => ([], none)
  | s :: rest =>
    match s.resolve a with
    | .error e => (s :: rest, some e)
    | .ok s =>
      let (rest, failure) := resolveAll a rest
      (s :: rest, failure)

end Statement

end ArrayFusion
