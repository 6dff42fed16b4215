import ArrayFusion.Nest.Basic

/-!
# Parallel loops of a nest

Outer loops without folds or scans along them can run in parallel, as long as each holds nothing
but the next one. `Nest.parallelRanks` counts those of a nest, and `Nest.threadStack` lists the
sizes of those of a kernel, which run on the hardware threads of a device.
-/

namespace ArrayFusion

namespace Node

/-- Sizes of the leading parallel loops, at most `limit` of them. -/
def parallelSizes : (limit : Nat) → Node → List Int
  | limit + 1, loop head body =>
    if head.sweeps.isEmpty ∧ 0 ≤ head.rank then
      head.size :: match body with
        | [inner] => inner.parallelSizes limit
        | _ => []
    else []
  | _, _ => []

/-- Sizes of the leading parallel loops of a body, at most `limit` of them. -/
def leadingSizes : (limit : Nat) → List Node → List Int
  | limit + 1, [loop head body] =>
    if head.sweeps.isEmpty then head.size :: leadingSizes limit body else []
  | _, _ => []

end Node

/-- Number of leading parallel loops, at most `limit`, and the number of their iterations. -/
def Nest.parallelRanks (l : Nest) (limit : Nat) : Nat × Int :=
  let sizes := l.toNode.parallelSizes limit
  (sizes.length, elementCount sizes)

/-- Sizes of the leading parallel loops of a kernel, at most `limit` of them. -/
def Nest.threadStack (kernel : Nest) (limit : Nat) : List Int :=
  Node.leadingSizes limit kernel.body

end ArrayFusion
