import ArrayFusion.Fusion.Mergeable

/-!
# Merging two loops

The merged loop runs the body of the first loop and then that of the second. Where an inner loop
meets an inner loop, the two are merged too if they can be. A loop without computation only hands
its frees to the other one. Loops of different sizes are first given the smaller size, by building
the longer one anew with its axis split.
-/

namespace ArrayFusion

/-- Computations that number loops and can fail. -/
abbrev Numbered := StateT Nat (Except Fault)

/-- A numbering that does not fail. -/
def Numbering.lift (x : Numbering α) : Numbered α := fun n => .ok (x n)

namespace Nest

mutual

/-- Number of loops on top of each other. -/
def nodeHeight : Node → Nat
  | .loop _ body => bodyHeight body + 1
  | .leaf .. => 0

/-- Largest height of the nodes of a body. -/
def bodyHeight : List Node → Nat
  | [] => 0
  | n :: body => max (nodeHeight n) (bodyHeight body)

end

/-- Joins neighbouring loops that can be merged. The nodes done so far are listed last first. -/
def joinBody (merge : Nest → Nest → Numbered Nest) :
    (done : List Node) → List Node → Numbered (List Node)
  | done, [] => pure done.reverse
  | .loop head body :: done, .loop head' body' :: rest => do
    if ← mergeable ⟨head, body⟩ ⟨head', body'⟩ false then
      let merged ← merge ⟨head, body⟩ ⟨head', body'⟩
      joinBody merge (merged.toNode :: done) rest
    else joinBody merge (.loop head' body' :: .loop head body :: done) rest
  | done, n :: rest => joinBody merge (n :: done) rest

/-- The loop with another number, and more bases freed after it. -/
def takeFrees (l : Nest) (frees : BaseSet) : Numbered Nest := do
  let id ← Numbering.next.lift
  pure ⟨{ l.head with id, frees := l.head.frees.union frees }, l.body⟩

/-- The loop built anew with its axis split, unless it has the size already. -/
def resize (l : Nest) (size : Int) : Numbered Nest := do
  if l.head.size = size then pure l
  else
    let ss ← liftM (l.splitStatements size)
    let built ← (ofStatements l.head.rank.toNat [] ss).lift
    pure (refresh ⟨{ built.head with frees := l.allFrees }, built.body⟩)

/-- Merges loops whose bodies, put behind one another, are joined as given. -/
def mergeWith (join : List Node → Numbered (List Node)) (a b : Nest) : Numbered Nest := do
  if !(← mergeable a b false) then throw .notMergeable
  if b.isSystemOnly then a.takeFrees b.allFrees
  else if a.isSystemOnly then b.takeFrees a.allFrees
  else
    let size := min a.head.size b.head.size
    let a ← a.resize size
    let b ← b.resize size
    if !(← mergeable a b false) then throw .notMergeable
    let id ← Numbering.next.lift
    let body ← join (a.body ++ b.body)
    let head := { id, rank := a.head.rank, size, frees := a.head.frees.union b.head.frees }
    pure (refresh ⟨head, body⟩)

/-- Merges loops, and inner loops down to the given number of levels. -/
def mergeLevels : (levels : Nat) → (a b : Nest) → Numbered Nest
  | 0 => mergeWith pure
  | levels + 1 => mergeWith (joinBody (mergeLevels levels) [])

/-- Levels at which loops can be merged: those of the higher nest, and those that splitting axes
can add. -/
def mergeDepth (a b : Nest) : Nat := max (max (bodyHeight a.body) (bodyHeight b.body)) maxAxes + 1

/-- Merges two loops, the second behind the first. -/
def merge (a b : Nest) : Numbered Nest := mergeLevels (mergeDepth a b) a b

/-- Merges two loops after giving both the smaller size. -/
def resizeAndMerge (a b : Nest) : Numbered Nest := do
  let size := min a.head.size b.head.size
  let a ← a.resize size
  let b ← b.resize size
  merge a b

end Nest

end ArrayFusion
