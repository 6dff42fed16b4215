import ArrayFusion.Engine.Matrix
import ArrayFusion.Engine.Session
import ArrayFusion.Fusion.Passes
import ArrayFusion.Nest.Text
import ArrayFusion.Program.Motion
import ArrayFusion.Program.Partition
import ArrayFusion.Settings.Basic

/-!
# Running programs

An engine runs a program on the bases of a session. Views slide between repeats and are resolved
before every stretch of the program. Extensions cut a stretch into segments, and every segment is
fused into kernels that the backend runs one after the other.
-/

namespace ArrayFusion

/-- Settings, a backend, and the methods that are provided from outside. -/
structure Engine (σ : Type) where
  settings : Settings
  backend : Backend σ
  /-- Registered methods by their numbers, the latest first. -/
  extensions : List (Nat × Extension) := []

namespace Engine

/-- An engine writes kernels for the target of its backend. -/
def new (settings : Settings) (backend : Backend σ) : Engine σ :=
  { settings := { settings with target := backend.target }, backend }

/-- Registers a method for an operation. -/
def register (e : Engine σ) (op : Opcode) (method : Extension) : Except Fault (Engine σ) :=
  match op with
  | .extension id => .ok { e with extensions := (id, method) :: e.extensions }
  | op => .error (.notAnExtension op)

/-- Drops the data of the bases that a kernel frees. -/
def freeAll (kernel : Nest) : Run σ Unit :=
  kernel.allFrees.forM fun b => modify fun s => { s with arena := s.arena.free b }

/-- Source of a kernel, if the backend needs it. -/
def sourceOf (e : Engine σ) (kernel : Nest) : Run σ (Option KernelSource) := do
  if e.backend.needsSource then
    let source ← e.settings.dialect.write kernel e.settings.passing
    if e.settings.debug.symbols then Run.printText source.symbols.text
    if e.settings.debug.sources then Run.printText source.text
    pure (some source)
  else pure none

/-- Runs one kernel. A kernel that computes nothing only frees bases. -/
def runKernel (e : Engine σ) (kernel : Nest) : Run σ Unit := do
  if kernel.isSystemOnly then freeAll kernel
  else
    kernel.allNonTemps.forM fun b => Run.onArena (Exec.change (·.allocate b))
    if e.settings.debug.nests then Run.printText (kernel.text 0)
    let source ← e.sourceOf kernel
    e.backend.execute { kernel, source }
    if e.settings.debug.timings then Run.print "Kernel took"
    Run.count fun s => { s with kernels := s.kernels + 1 }
    freeAll kernel

/-- Runs every nest as a kernel of its own. -/
def runNests (e : Engine σ) : (next : Nat) → List Nest → Run σ Unit
  | _, [] => pure ()
  | next, l :: rest => do
    let (kernel, next) := Fusion.kernel [l] next
    e.runKernel kernel
    runNests e next rest

/-- Fuses and runs statements without extensions. -/
def runSegment (e : Engine σ) (segment : List Statement) : Run σ Unit := do
  if segment.isEmpty then pure ()
  else
    let (nests, next) ← (Fusion.fuse e.settings.separate segment).run 0
    e.runNests next nests

/-- Runs an extension. -/
def runExtension (e : Engine σ) (id : Nat) (i : Instruction) : Run σ Unit := do
  match e.extensions.lookup id with
  | none => throw (.extensionMissing i)
  | some method =>
    match i.outputBase? with
    | some b => Run.onArena (Exec.change (·.allocate b))
    | none => pure ()
    Run.onArena (method i)
    Run.count fun s => { s with extensions := s.extensions + 1 }

/-- Runs statements in order. The segment so far is listed last statement first. -/
def runStatements (e : Engine σ) : (segment : List Statement) → List Statement → Run σ Unit
  | segment, [] => e.runSegment segment.reverse
  | segment, s :: rest =>
    match s.instr.opcode with
    | .extension id => do
      e.runSegment segment.reverse
      e.runExtension id s.instr
      runStatements e [] rest
    | _ => runStatements e (s :: segment) rest

/-- Runs a stretch of a program, whose views are resolved first. -/
def runStretch (e : Engine σ) (stretch : List Statement) : Run σ Unit := do
  let (resolved, failure) := Statement.resolveAll (← get).arena stretch
  match failure with
  | some fault => throw fault
  | none => e.runStatements [] resolved

/-- Runs the body of a program once. -/
def runBody (e : Engine σ) (resolving : Bool) (body : List Statement) : Run σ Unit := do
  if resolving then (partitions body).forM e.runStretch
  else e.runStatements [] body
  Run.count fun s => { s with repeats := s.repeats + 1 }

/-- The condition of a program holds unless the first element of its base is false. A base without
data does not stop a program. -/
def holds (condition : Option BaseId) (a : Arena) : Bool :=
  match condition.bind a.buffer? with
  | some b => (b.bool? 0).getD true
  | none => true

/-- Runs the remaining repeats of a program. -/
def runRepeats (e : Engine σ) (p : Program) : (count : Nat) → List Statement → Run σ Unit
  | 0, _ => pure ()
  | count + 1, body => do
    e.runBody p.usesIndexArrays body
    if count = 0 || !holds p.condition (← get).arena then pure ()
    else
      let body ← if p.isSliding then body.mapM fun s => liftM s.slide else pure body
      runRepeats e p count body

/-- Runs a program. -/
def run (e : Engine σ) (p : Program) : Run σ Unit := e.runRepeats p (max p.repeats 1) p.body

end Engine

end ArrayFusion
