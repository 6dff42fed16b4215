import ArrayFusion.Engine.Session

/-!
# Interpreting backend

Runs kernels by evaluating their loop nests. It stands in for any target and needs no source.
-/

namespace ArrayFusion.Backend

def interpreter (target : Target) : Backend Unit where
  target
  needsSource := false
  execute launch := Run.onArena launch.kernel.run

end ArrayFusion.Backend
