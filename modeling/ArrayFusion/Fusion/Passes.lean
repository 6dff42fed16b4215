import ArrayFusion.Fusion.Merge

/-!
# Fusing the statements of a program

Each statement becomes a nest of its own, and a free goes to the loop that mentions its base last.
Then neighbouring nests are merged (`serial`), and a nest that does not depend on those before it
moves forward to an earlier nest that it can be merged with (`greedy`).
-/

namespace ArrayFusion

namespace Node

/-- The node mentions a base. -/
def mentions (b : BaseId) : Node → Bool
  | loop head body => (Nest.allBases ⟨head, body⟩).contains b
  | leaf s _ => s.instr.mentions b

mutual

/-- Frees a base after the innermost loop that mentions it last. -/
def attachFree (b : BaseId) : Node → Node
  | loop head body =>
    match attachFreeBody b body with
    | some body => loop head body
    | none => loop { head with frees := head.frees.insert b } body
  | leaf s rank => leaf s rank

/-- Frees a base inside the last node that mentions it, if this node is a loop. -/
def attachFreeBody (b : BaseId) : List Node → Option (List Node)
  | [] => none
  | n :: body =>
    match attachFreeBody b body with
    | some body => some (n :: body)
    | none =>
      if body.any (mentions b) then none
      else if n.isLoop && n.mentions b then some (n.attachFree b :: body)
      else none

end

end Node

namespace Nest

def attachFree (l : Nest) (b : BaseId) : Nest :=
  match Node.attachFreeBody b l.body with
  | some body => ⟨l.head, body⟩
  | none => ⟨{ l.head with frees := l.head.frees.insert b }, l.body⟩

end Nest

namespace Fusion

/-- Changes the last nest that mentions a base. -/
def freeInLast (b : BaseId) : List Nest → Option (List Nest)
  | [] => none
  | l :: ls =>
    match freeInLast b ls with
    | some ls => some (l :: ls)
    | none => if l.allBases.contains b then some (l.attachFree b :: ls) else none

/-- Frees a base after the nest that mentions it last, or in a nest of its own. -/
def placeFree (ls : List Nest) (b : BaseId) : Numbering (List Nest) :=
  match freeInLast b ls with
  | some ls => pure ls
  | none => do
    let id ← Numbering.next
    pure (ls ++ [⟨{ id, rank := 0, size := 1, frees := [b] }, []⟩])

/-- Adds the nest of one statement. -/
def addStatement (ls : List Nest) (s : Statement) : Numbering (List Nest) :=
  if s.instr.opcode = .free then s.instr.bases.foldlM placeFree ls
  else if s.instr.opcode.isSystem then pure ls
  else do
    let l ← Nest.ofStatements 0 [] [s]
    pure (ls ++ [l])

/-- One nest per statement, frees attached to the nest that mentions the base last. -/
def singletons (ss : List Statement) : Numbering (List Nest) := ss.foldlM addStatement []

/-- Merges neighbouring nests. The nests done so far are listed last first. -/
def serialFrom (separate : Bool) : (done : List Nest) → List Nest → Numbered (List Nest)
  | done, [] => pure done.reverse
  | [], l :: rest => serialFrom separate [l] rest
  | last :: done, l :: rest => do
    if ← last.mergeable l separate then
      let merged ← last.merge l
      serialFrom separate (merged :: done) rest
    else serialFrom separate (l :: last :: done) rest

def serial (separate : Bool) (ls : List Nest) : Numbered (List Nest) := serialFrom separate [] ls

/-- Merges into a nest all later ones that can be moved up to it. The nests that stay behind are
listed last first. -/
def absorb (separate : Bool) (l : Nest) :
    (behind : List Nest) → List Nest → Numbered (Nest × List Nest)
  | behind, [] => pure (l, behind.reverse)
  | behind, m :: rest => do
    let joins ← if behind.all fun k => !k.dependOn m then liftM (l.mergeable m separate) else pure false
    if joins then
      let merged ← l.merge m
      absorb separate merged behind rest
    else absorb separate l (m :: behind) rest

/-- Lets the first nests, at most the given number of them, absorb what they can. -/
def greedyFrom (separate : Bool) : Nat → List Nest → Numbered (List Nest)
  | 0, ls => pure ls
  | _, [] => pure []
  | n + 1, l :: rest => do
    let (l, rest) ← absorb separate l [] rest
    let rest ← greedyFrom separate n rest
    pure (l :: rest)

def greedy (separate : Bool) (ls : List Nest) : Numbered (List Nest) :=
  greedyFrom separate ls.length ls

/-- Fuses statements into nests of rank 0. -/
def fuse (separate : Bool) (ss : List Statement) : Numbered (List Nest) := do
  let ls ← (singletons ss).lift
  let ls ← serial separate ls
  greedy separate ls

/-- The kernel with the given nests. -/
def kernel (ls : List Nest) : Numbering Nest := Nest.kernel (ls.map Nest.toNode)

end Fusion

end ArrayFusion
