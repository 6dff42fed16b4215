import ArrayFusion.Source.Dialect

/-!
# Settings

What an engine is told: the target, how its kernels are written and compiled, where binaries are
kept, and which debug output is printed.
-/

namespace ArrayFusion

/-- Debug output, one bit for each kind. -/
structure DebugMask where
  bits : Nat := 0
  deriving DecidableEq, Repr, Inhabited

namespace DebugMask

/-- Messages of devices and backends. -/
def messages (m : DebugMask) : Bool := m.bits.testBit 0

/-- How long kernels took. -/
def timings (m : DebugMask) : Bool := m.bits.testBit 1

/-- Kernels as loop nests. -/
def nests (m : DebugMask) : Bool := m.bits.testBit 2

/-- Symbol tables of kernels. -/
def symbols (m : DebugMask) : Bool := m.bits.testBit 3

/-- Source of kernels. -/
def sources (m : DebugMask) : Bool := m.bits.testBit 4

/-- The mask of a decimal number below 2^32, which may have a plus sign. Any other text is no
mask and selects nothing. -/
def ofText (s : String) : DebugMask :=
  let digits := match s.toList with
    | '+' :: rest => rest
    | cs => cs
  if digits.isEmpty || !digits.all (·.isDigit) then {}
  else
    let n := digits.foldl (fun n c => 10 * n + (c.toNat - '0'.toNat)) 0
    if n < 1 <<< 32 then ⟨n⟩ else {}

end DebugMask

/-- Largest number of neighbouring threads that run together, for kernels of one, two and three
dimensions. -/
structure WorkGroups where
  lineX : Nat := 128
  planeX : Nat := 32
  planeY : Nat := 4
  boxX : Nat := 32
  boxY : Nat := 2
  boxZ : Nat := 2
  deriving DecidableEq, Repr, Inhabited

structure Settings where
  target : Target := .openmp
  /-- Compiler command, with places for the source and the binary. Targets have a default. -/
  command : Option String := none
  /-- Outermost loops of host kernels run on several threads. -/
  threads : Bool := false
  /-- Innermost loops of host kernels are vectorized. -/
  simd : Bool := false
  passing : Passing := {}
  volatile : Bool := false
  /-- Outermost folds and scans are not fused with other instructions. Devices need that. -/
  separate : Bool := target.isDevice
  /-- Directory of binaries that outlive the engine. -/
  cacheDir : Option String := none
  /-- Directory of sources and binaries, a fresh one if there is none. -/
  workDir : Option String := none
  /-- Number of binaries that are kept, all if negative. -/
  cacheLimit : Int := 50000
  /-- Sources are kept, and every kernel is compiled. -/
  verbose : Bool := false
  groups : WorkGroups := {}
  /-- Largest number of loops that run on hardware threads. -/
  threadedRanks : Nat := 3
  debug : DebugMask := {}
  deriving DecidableEq, Repr, Inhabited

namespace Settings

/-- Dialect in which kernels are written. -/
def dialect (s : Settings) : Dialect :=
  { target := s.target, threads := s.threads, simd := s.simd, volatile := s.volatile
    threadedRanks := s.threadedRanks }

/-- The compiler command: the given one, or that of the target. Devices have none. -/
def compilerCommand (s : Settings) : Option String :=
  let threads := if s.threads then " -fopenmp" else ""
  match s.command, s.target with
  | some command, _ => some command
  | none, .openmp =>
    some ("cc -x c -fPIC -shared -std=gnu99 -O3" ++ threads ++ " \x7bIN\x7d -o \x7bOUT\x7d -lm")
  | none, .fortran =>
    some ("gfortran -fPIC -shared -O3 -ffree-line-length-none" ++ threads ++
      " \x7bIN\x7d -o \x7bOUT\x7d")
  | none, _ => none

end Settings

end ArrayFusion
