import ArrayFusion.Settings.Basic

/-!
# Launch geometry

The hardware threads of a device run in groups of equal size, so the number of threads along every
dimension is rounded up to whole groups.
-/

namespace ArrayFusion

/-- Threads along one dimension. -/
structure WorkRange where
  /-- Number of all threads. -/
  total : Nat := 1
  /-- Number of threads of a group. -/
  group : Nat := 1
  deriving DecidableEq, Repr, Inhabited

/-- Whole groups for a loop: a group is at most as large as given and as the loop, and holds at
least one thread. -/
def WorkRange.cover (groupSize size : Nat) : WorkRange :=
  let group := max (min groupSize size) 1
  { total := (size + group - 1) / group * group, group }

/-- Threads along the three dimensions of a device. -/
structure Geometry where
  x : WorkRange := {}
  y : WorkRange := {}
  z : WorkRange := {}
  deriving DecidableEq, Repr, Inhabited

namespace Geometry

/-- Threads for one to three loops. -/
def ofStack (groups : WorkGroups) (stack : List Int) : Except Fault Geometry :=
  match stack.map Int.toNat with
  | [x] => .ok { x := .cover groups.lineX x }
  | [x, y] => .ok { x := .cover groups.planeX x, y := .cover groups.planeY y }
  | [x, y, z] =>
    .ok { x := .cover groups.boxX x, y := .cover groups.boxY y, z := .cover groups.boxZ z }
  | _ => .error (.threadStackDepth stack)

/-- Threads for a kernel. A kernel without threaded loops runs on one thread. -/
def ofKernel (groups : WorkGroups) (stack : List Int) : Except Fault Geometry :=
  if stack.isEmpty then .ok {} else ofStack groups stack

def totals (g : Geometry) : List Int := [g.x.total, g.y.total, g.z.total]

def groups (g : Geometry) : List Int := [g.x.group, g.y.group, g.z.group]

end Geometry

end ArrayFusion
