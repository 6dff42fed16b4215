/-!
# Compilation targets

Kernels are written for one of four targets. Two of them run on the host, two on a device whose
hardware threads take the place of the outermost loops.
-/

namespace ArrayFusion

/-- What a kernel is compiled for. -/
inductive Target where
  /-- C with directives for threads. -/
  | openmp
  | opencl
  | cuda
  /-- Fortran with directives for threads. -/
  | fortran
  deriving DecidableEq, Repr, Inhabited

namespace Target

def all : List Target := [openmp, opencl, cuda, fortran]

/-- Name of the target in configurations and messages. -/
def text : Target → String
  | openmp => "openmp"
  | opencl => "opencl"
  | cuda => "cuda"
  | fortran => "fortran"

/-- The target runs on a device with hardware threads. -/
def isDevice : Target → Bool
  | opencl | cuda => true
  | openmp | fortran => false

/-- Extension of source files. -/
def extension : Target → String
  | openmp => ".c"
  | opencl => ".cl"
  | cuda => ".cu"
  | fortran => ".f90"

/-- Position among all targets. -/
def rank (t : Target) : Nat := all.idxOf t

def ofText? (s : String) : Option Target := all.find? (·.text == s)

end Target

end ArrayFusion
