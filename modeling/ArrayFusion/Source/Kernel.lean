import ArrayFusion.Nest.Parallel
import ArrayFusion.Source.Loop
import ArrayFusion.Source.Prelude

/-!
# Kernel source

The source of a whole kernel. Arrays, then starts and strides of views, then constants are bound in
the order of the symbol table. Host kernels come with a launcher that takes them from three
arrays; device kernels are named by the hash of their structure.
-/

namespace ArrayFusion

namespace Symbols

/-- Names of the parameters for starts and strides, in binding order. -/
def strideNames (s : Symbols) : List String :=
  s.parameterViews.flatMap fun v =>
    let n := s.viewNumber v
    s!"vo{n}" :: (List.range v.ndim).map fun axis => s!"vs{n}_{axis}"

/-- Number of elements of a temporary array. -/
def tempSize (s : Symbols) (b : BaseId) : Int := max (s.extent b) 1

/-- Constants that are parameters. -/
def passedConstants (s : Symbols) : List Constant := if s.passing.constants then s.constants else []

def constantName (s : Symbols) (c : Constant) : String := s!"c{s.constantNumber c}"

end Symbols

/-- Number of loop indices of a kernel. -/
def Nest.loopDepth (kernel : Nest) : Nat :=
  (kernel.subNests.map fun l => (l.head.rank + 1).toNat).foldl max 0

namespace Dialect

/-- Bases with their type names. -/
def typed (d : Dialect) (s : Symbols) (bases : List BaseId) : Except Fault (List (BaseId × String)) :=
  bases.mapM fun b => do pure (b, ← d.target.typeName (s.dtype b))

/-- Sizes of the leading loops that run on hardware threads. CUDA has three dimensions. -/
def threadStack (d : Dialect) (kernel : Nest) : List Int :=
  match d.target with
  | .opencl => kernel.threadStack d.threadedRanks
  | .cuda => kernel.threadStack (min d.threadedRanks 3)
  | .openmp | .fortran => []

/-- The union that holds a constant of any type that C has. -/
def constantUnion (d : Dialect) : String :=
  let member (t : DType) := (d.target.typeName? t).map fun name => indented 1 (name ++ " " ++ t.unionMember ++ ";")
  "union dtype \x7b\n" ++ String.join (DType.all.filterMap member) ++
    "    struct \x7b uint64_t start, key; \x7d r123;\n\x7d;\n\n"

/-- C kernel with its launcher. -/
def openmpKernel (d : Dialect) (s : Symbols) (kernel : Nest) : Except Fault String := do
  if s.uses .float16 then throw (.typeNotWritable .float16 d.target)
  let arrays ← d.typed s s.params
  let temps ← d.typed s s.arrayTemps
  let code ← d.kernelCode (.root s 0) kernel
  let parameters :=
    arrays.map (fun (b, t) => t ++ " *" ++ s.arrayName b) ++
      s.strideNames.map (d.target.indexType |> fun t => ("const " ++ t ++ " " ++ ·)) ++
      s.passedConstants.map fun c => "union dtype " ++ s.constantName c
  let arguments :=
    arrays.map (fun (b, _) => s.arrayName b) ++
      (List.range s.strideNames.length).map (fun k => s!"offset_strides[{k}]") ++
      (List.range s.passedConstants.length).map fun k => s!"constants[{k}]"
  let allocation (b : BaseId) (t : String) :=
    indented 1 (t ++ " *" ++ s.arrayName b ++ s!" = malloc({s.tempSize b} * sizeof({t}));")
  let release (b : BaseId) := indented 1 ("free(" ++ s.arrayName b ++ ");")
  let binding (b : BaseId) (t : String) (k : Nat) :=
    indented 1 (t ++ " *" ++ s.arrayName b ++ s!" = data_list[{k}];")
  let headers := ["stdint", "stdlib", "stdbool", "complex", "math"]
  pure <|
    String.join (headers.map fun h => "#include <" ++ h ++ ".h>\n") ++ "\n" ++
    d.constantUnion ++ Prelude.text d.target s.usesRandom ++
    "void execute(" ++ ", ".intercalate parameters ++ ") \x7b\n" ++
    String.join (temps.map fun (b, t) => allocation b t) ++
    Code.text d 1 code ++
    String.join (s.arrayTemps.map release) ++
    "\x7d\n\n" ++
    "void launcher(void* data_list[], int64_t offset_strides[], union dtype constants[]) \x7b\n" ++
    String.join (arrays.zipIdx.map fun ((b, t), k) => binding b t k) ++
    indented 1 ("execute(" ++ ", ".intercalate arguments ++ ");") ++
    "\x7d\n"

/-- Parameters for a constant of a device kernel. -/
def deviceConstant (d : Dialect) (s : Symbols) (c : Constant) : Except Fault (List String) := do
  let name := s.constantName c
  if c.dtype = .random then
    let word := (d.target.integerName? .uint64).getD ""
    pure ["const " ++ word ++ " " ++ name ++ "_start", "const " ++ word ++ " " ++ name ++ "_key"]
  else
    let type ← d.target.typeName c.dtype
    pure ["const " ++ type ++ " " ++ name]

/-- Parameters of a device kernel. -/
def deviceParameters (d : Dialect) (s : Symbols) : Except Fault (List String) := do
  if !s.arrayTemps.isEmpty then throw (.kernelTemporaries d.target)
  let place := if d.target = .opencl then "__global " else ""
  let arrays ← d.typed s s.params
  let constants ← s.passedConstants.mapM (d.deviceConstant s)
  pure <|
    arrays.map (fun (b, t) => place ++ t ++ " *" ++ s.arrayName b) ++
      s.strideNames.map (fun name => "const " ++ d.target.indexType ++ " " ++ name) ++
      constants.flatten

/-- What a device kernel needs besides the language. -/
def deviceHeading (d : Dialect) (s : Symbols) : String :=
  if d.target = .cuda then
    if s.uses .float16 then "#include <cuda_fp16.h>\n\n" else ""
  else
    let extension (t : DType) (name : String) :=
      if s.uses t then "#pragma OPENCL EXTENSION " ++ name ++ " : enable\n" else ""
    let lines := extension .float64 "cl_khr_fp64" ++ extension .float16 "cl_khr_fp16"
    if lines.isEmpty then "" else lines ++ "\n"

/-- Kernel for a device. -/
def deviceKernel (d : Dialect) (s : Symbols) (kernel : Nest) : Except Fault String := do
  let parameters ← d.deviceParameters s
  let code ← d.kernelCode (.root s (d.threadStack kernel).length) kernel
  let qualifier := if d.target = .cuda then "extern \"C\" __global__ void" else "__kernel void"
  pure <|
    d.deviceHeading s ++ Prelude.text d.target s.usesRandom ++
    qualifier ++ " execute_" ++ Fnv.hex s.hash ++ "(" ++ ", ".intercalate parameters ++ ") \x7b\n" ++
    Code.text d 1 code ++ "\x7d\n"

/-- Fortran kernel, which is its own launcher. -/
def fortranKernel (d : Dialect) (s : Symbols) (kernel : Nest) : Except Fault String := do
  let arrays ← d.typed s s.params
  let temps ← d.typed s s.arrayTemps
  let constants ← s.constants.mapM fun c => do pure (c, ← d.target.typeName c.dtype)
  let constants := if s.passing.constants then constants else []
  let code ← d.kernelCode (.root s 0) kernel
  let declare (type name : String) := indented 1 (d.declared type name)
  let bind (b : BaseId) (k : Nat) :=
    indented 1 (s!"call c_f_pointer(data_list({k + 1}), " ++ s.arrayName b ++
      s!", [{s.tempSize b}_c_int64_t])")
  let allocate (b : BaseId) := indented 1 ("allocate(" ++ s.arrayName b ++ s!"({s.tempSize b}))")
  let load (name : String) (k : Nat) := indented 1 (name ++ s!" = offset_strides({k + 1})")
  let unpack (c : Constant) (k : Nat) :=
    indented 1 (s.constantName c ++ s!" = TRANSFER(constants(:, {k + 1}), " ++ s.constantName c ++ ")")
  let indices := (List.range kernel.loopDepth).map fun r => s!"i{r}"
  pure <|
    "subroutine launcher(data_list, offset_strides, constants) bind(C, name=\"launcher\")\n" ++
    indented 1 "use, intrinsic :: iso_c_binding" ++
    indented 1 "use, intrinsic :: ieee_arithmetic" ++
    indented 1 "implicit none" ++
    indented 1 "type(c_ptr), intent(in) :: data_list(*)" ++
    indented 1 "integer(c_int64_t), intent(in) :: offset_strides(*)" ++
    indented 1 "integer(c_int64_t), intent(in) :: constants(2, *)" ++
    String.join (arrays.map fun (b, t) => declare (t ++ ", pointer") (s.arrayName b ++ "(:)")) ++
    String.join (temps.map fun (b, t) => declare (t ++ ", allocatable") (s.arrayName b ++ "(:)")) ++
    String.join (s.strideNames.map (declare d.target.indexType)) ++
    String.join (constants.map fun (c, t) => declare t (s.constantName c)) ++
    (if indices.isEmpty then "" else declare d.target.indexType (", ".intercalate indices)) ++
    String.join (s.params.zipIdx.map fun (b, k) => bind b k) ++
    String.join (s.arrayTemps.map allocate) ++
    String.join (s.strideNames.zipIdx.map fun (name, k) => load name k) ++
    String.join (constants.zipIdx.map fun ((c, _), k) => unpack c k) ++
    String.join (d.scopeHead?.toList.map (indented 1)) ++
    Code.text d 2 code ++
    String.join (d.scopeEnd?.toList.map (indented 1)) ++
    String.join (s.arrayTemps.map fun b => indented 1 ("deallocate(" ++ s.arrayName b ++ ")")) ++
    "end subroutine launcher\n"

/-- Source of a kernel with the given symbols. -/
def kernelText (d : Dialect) (s : Symbols) (kernel : Nest) : Except Fault String :=
  match d.target with
  | .openmp => d.openmpKernel s kernel
  | .opencl | .cuda => d.deviceKernel s kernel
  | .fortran => d.fortranKernel s kernel

end Dialect

/-- A written kernel with all that is needed to launch it. -/
structure KernelSource where
  text : String
  symbols : Symbols
  /-- Sizes of the loops that run on hardware threads. -/
  threads : List Int

/-- Writes a kernel. -/
def Dialect.write (d : Dialect) (kernel : Nest) (passing : Passing) : Except Fault KernelSource := do
  let symbols := Symbols.ofKernel kernel passing
  let text ← d.kernelText symbols kernel
  pure { text, symbols, threads := d.threadStack kernel }

end ArrayFusion
