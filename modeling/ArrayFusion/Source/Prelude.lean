import ArrayFusion.Source.Dialect

/-!
# Functions that C kernels use

Kernels of the C family bring their own integer power and, if they draw random numbers, the counter
based generator. The generator mixes the two halves of the counter in ten rounds.
-/

namespace ArrayFusion.Prelude

/-- Names that differ between the targets. -/
structure Names where
  qualifier : String
  int64 : String
  uint64 : String
  uint32 : String

def names (target : Target) : Names :=
  let type (t : IntType) := (target.integerName? t).getD ""
  { qualifier :=
      match target with
      | .openmp => "static inline "
      | .opencl => "inline "
      | .cuda => "__device__ inline "
      | .fortran => ""
    int64 := type .int64
    uint64 := type .uint64
    uint32 := type ⟨false, .w32⟩ }

/-- Power of integers. -/
def power (n : Names) : String :=
  let t := n.int64
  n.qualifier ++ s!"{t} jitk_ipow({t} b, {t} e) \x7b\n" ++
  "    if (e < 0) return b == 1 ? 1 : (b == -1 ? ((e & 1) ? -1 : 1) : 0);\n" ++
  s!"    {t} r = 1;\n" ++
  "    while (e) \x7b\n" ++
  "        if (e & 1) r *= b;\n" ++
  "        b *= b;\n" ++
  "        e >>= 1;\n" ++
  "    \x7d\n" ++
  "    return r;\n" ++
  "\x7d\n\n"

/-- Random number for a counter. -/
def random (n : Names) : String :=
  let (long, word) := (n.uint64, n.uint32)
  n.qualifier ++ s!"{long} random123({long} start, {long} key, {long} index) \x7b\n" ++
  s!"    {long} ctr = start + index;\n" ++
  s!"    {word} c0 = ({word})ctr, c1 = ({word})(ctr >> 32), k = ({word})key;\n" ++
  "    for (int r = 0; r < 10; ++r) \x7b\n" ++
  s!"        {long} prod = ({long})0xD256D193u * c0;\n" ++
  s!"        {word} hi = ({word})(prod >> 32), lo = ({word})prod;\n" ++
  "        c0 = hi ^ k ^ c1;\n" ++
  "        c1 = lo;\n" ++
  "        k += 0x9E3779B9u;\n" ++
  "    \x7d\n" ++
  s!"    return (({long})c1 << 32) | c0;\n" ++
  "\x7d\n\n"

/-- All functions that a kernel uses. -/
def text (target : Target) (usesRandom : Bool) : String :=
  power (names target) ++ if usesRandom then random (names target) else ""

end ArrayFusion.Prelude
