import ArrayFusion.Backend.Geometry
import ArrayFusion.Engine.Session

/-!
# Recording backend

Remembers how every kernel would have been launched, and runs none.
-/

namespace ArrayFusion

/-- A kernel that would have been launched. -/
structure LaunchRecord where
  text : String
  hash : UInt64
  /-- Sizes of the loops that run on hardware threads. -/
  threads : List Int
  geometry : Geometry
  deriving Repr

/-- Records in the order of submission. -/
def Backend.recorder (settings : Settings) : Backend (List LaunchRecord) where
  target := settings.target
  execute launch := do
    let some source := launch.source
      | throw (.sourceMissing .recorder)
    let geometry ← Geometry.ofKernel settings.groups source.threads
    if settings.debug.messages then
      Run.print ("Kernel " ++ Fnv.hex source.symbols.hash ++ " NDRange global " ++
        Text.bracketed geometry.totals ++ ", local " ++ Text.bracketed geometry.groups)
    let record : LaunchRecord :=
      { text := source.text, hash := source.symbols.hash, threads := source.threads, geometry }
    modify fun s => { s with backend := s.backend ++ [record] }

end ArrayFusion
