import ArrayFusion.Cache.Kernels
import ArrayFusion.Engine.Session

/-!
# Host backend

Compiles kernels and launches them on the data of bases. Before a kernel is compiled, every base
that it accesses is checked: it has data of the type that the kernel expects, and all elements that
the kernel accesses exist.
-/

namespace ArrayFusion

namespace Host

/-- The data of a base fits the accesses of a kernel. -/
def checkArgument (s : Symbols) (a : Arena) (b : BaseId) : Except Fault Unit :=
  match a.buffer? b with
  | none => .error (.argumentUnallocated b)
  | some x =>
    if x.dtype ≠ s.dtype b then .error (.argumentType b (s.dtype b) x.dtype)
    else if s.lowest b < 0 then .error (.argumentBelow b (s.lowest b))
    else if x.size < s.extent b then .error (.argumentBeyond b (s.extent b) x.size)
    else .ok ()

/-- What a kernel is launched with, if all data fits. -/
def bind (s : Symbols) (a : Arena) : Except Fault Arguments := do
  s.params.forM (checkArgument s a)
  pure { buffers := s.params, strides := s.parameterValues, constants := s.constants.map (·.slot) }

/-- Work of the cache within a session. -/
def inSession (x : Work σ μ α) : Run (Workshop σ μ) α := do
  let s ← get
  let (result, backend) := x s.backend
  set { s with backend }
  match result with
  | .ok x => pure x
  | .error e => throw e

/-- The host runs kernels of this target. -/
def checkTarget (target : Target) : Except Fault Unit :=
  if target.isDevice then .error (.notOnHost target) else .ok ()

/-- The command that compiles kernels, and its context: binaries of one command are never used
with another one. -/
def compiler (settings : Settings) : Except Fault (CompilerCommand × String) := do
  match settings.compilerCommand with
  | none => throw (.compilerMissing settings.target)
  | some command =>
    checkTarget settings.target
    pure (⟨command⟩, settings.target.text ++ " " ++ command)

end Host

/-- Compiles kernels with a toolchain and launches them. -/
def Backend.host (target : Target) (tools : Toolchain σ μ) : Backend (Workshop σ μ) where
  target
  execute launch := do
    let some source := launch.source
      | throw (.sourceMissing .host)
    let arguments ← Host.bind source.symbols (← get).arena
    let m ← Host.inSession (Workshop.lookup tools source.text)
    modify fun s =>
      let (arena, state) := tools.launch m arguments s.arena s.backend.tools
      { s with arena, backend := { s.backend with tools := state } }

end ArrayFusion
