import ArrayFusion.Nest.Basic

/-!
# Building a nest from statements

Statements that share an iteration space from some rank on are put into a loop of this rank. A
statement whose last axis is the axis of the loop stands directly in it. Neighbouring statements
that go deeper with the same size share one inner loop, which is built the same way. Bases to be
freed go to the loop that directly holds the last statement.
-/

namespace ArrayFusion.Nest

/-- Part of a list of statements, seen from a loop. -/
inductive Segment where
  /-- A statement that stands in the loop itself. -/
  | single (s : Statement)
  /-- Neighbouring statements that share one inner loop. -/
  | run (ss : List Statement)
  deriving Repr

/-- Puts a statement that goes deeper before segments. -/
def joinRun (inner : Nat) (s : Statement) : List Segment → List Segment
  | .run (t :: ts) :: rest =>
    if s.instr.sizeAt inner = t.instr.sizeAt inner then .run (s :: t :: ts) :: rest
    else .run [s] :: .run (t :: ts) :: rest
  | rest => .run [s] :: rest

/-- Segments of a list of statements, seen from the loop of the given rank. -/
def segments (rank : Nat) : List Statement → List Segment
  | [] => []
  | s :: ss =>
    if s.instr.ndim ≤ rank + 1 then .single s :: segments rank ss
    else joinRun (rank + 1) s (segments rank ss)

/-- Size that the statements share along an axis. -/
def commonSize (rank : Nat) (ss : List Statement) : Int := (ss.head?.map (·.instr.sizeAt rank)).getD 1

/-- A rank as loops record it, in a word of 32 bits with sign. -/
def rankWord (rank : Nat) : Int := (rank : Int).bmod (1 <<< 32)

/-- Body of a loop from its segments. The last segment gets the bases to be freed if it is a run. -/
def buildBody (rank : Nat) (frees : BaseSet) (inner : BaseSet → List Statement → Numbering Nest) :
    List Segment → Numbering (List Node)
  | [] => pure []
  | .single s :: rest => do
    let body ← buildBody rank frees inner rest
    pure (.leaf s (rankWord rank) :: body)
  | .run ss :: rest => do
    let child ← inner (if rest.isEmpty then frees else []) ss
    let body ← buildBody rank frees inner rest
    pure (child.toNode :: body)

/-- The last segment is a run. -/
def endsInRun : List Segment → Bool
  | [] => false
  | [.run _] => true
  | [.single _] => false
  | _ :: rest => endsInRun rest

/-- Loop of the given rank and size around statements that go at most `levels` ranks deeper. -/
def buildSized : (levels rank : Nat) → (size : Int) → BaseSet → List Statement → Numbering Nest
  | 0, rank, size, frees, ss => do
    let id ← Numbering.next
    pure (refresh ⟨{ id, rank := rankWord rank, size, frees }, ss.map (.leaf · (rankWord rank))⟩)
  | levels + 1, rank, size, frees, ss => do
    let id ← Numbering.next
    let parts := segments rank ss
    let inner frees ss := buildSized levels (rank + 1) (commonSize (rank + 1) ss) frees ss
    let body ← buildBody rank frees inner parts
    let frees := if endsInRun parts then [] else frees
    pure (refresh ⟨{ id, rank := rankWord rank, size, frees }, body⟩)

/-- Largest number of axes of the statements. -/
def depth (ss : List Statement) : Nat := (ss.map (·.instr.ndim)).foldr max 0

/-- Loop of the given rank and size around statements. System operations are left out. -/
def ofStatementsSized (rank : Nat) (size : Int) (frees : BaseSet) (ss : List Statement) :
    Numbering Nest :=
  let ss := ss.filter (!·.instr.opcode.isSystem)
  buildSized (depth ss) rank size frees ss

/-- Loop of the given rank around statements that share its size. -/
def ofStatements (rank : Nat) (frees : BaseSet) (ss : List Statement) : Numbering Nest :=
  ofStatementsSized rank (commonSize rank (ss.filter (!·.instr.opcode.isSystem))) frees ss

end ArrayFusion.Nest
