import ArrayFusion.Storage.Arena
import ArrayFusion.Text.Blank

/-!
# Compiler and loader

Kernels of the host are compiled to binaries, and binaries are loaded as modules that can be
launched. A toolchain does these three things and may remember something of type `σ`. An outside
compiler is a command line with places for the source and the binary.
-/

namespace ArrayFusion

/-- Where the files of kernels are kept. -/
inductive Folder where
  | source
  | binary
  /-- Binaries that outlive the engine. -/
  | persistent
  deriving DecidableEq, Repr, Inhabited

/-- A file of a folder. -/
structure Place where
  folder : Folder
  name : String
  deriving DecidableEq, Repr, Inhabited

/-- What a kernel is launched with. -/
structure Arguments where
  /-- Bases whose data the kernel accesses, in binding order. -/
  buffers : List BaseId
  /-- Starts and strides of views. -/
  strides : List Int
  /-- Constants, two words each. -/
  constants : List (UInt64 × UInt64)
  deriving Repr

structure Toolchain (σ μ : Type) where
  /-- Binary of a source. -/
  compile (binary source : Place) (text : String) : StateM σ (Except Fault String)
  /-- Module of a binary. -/
  load (binary : Place) (content : String) : StateM σ (Except Fault μ)
  /-- Runs a module on the data of bases. -/
  launch (m : μ) (arguments : Arguments) (a : Arena) : StateM σ Arena

/-- Command line of a compiler. -/
structure CompilerCommand where
  text : String
  deriving DecidableEq, Repr, Inhabited

namespace CompilerCommand

/-- The command line for a source and a binary, in words: program and arguments. -/
def words (c : CompilerCommand) (source binary : String) : List String :=
  Text.words ((c.text.replace "\x7bIN\x7d" source).replace "\x7bOUT\x7d" binary)

/-- The program that is started, if the command is not blank. -/
def program? (c : CompilerCommand) : Option String := (Text.words c.text).head?

/-- The program can be started. -/
def isAvailable (c : CompilerCommand) (exists? : String → Bool) : Bool := c.program?.any exists?

/-- Why no binary is made: there is no program, or it can not be started. -/
def refusal? (c : CompilerCommand) (source binary : String) (exists? : String → Bool) :
    Option HostFailure :=
  match c.words source binary with
  | [] => some .compilerNotFound
  | program :: _ => if exists? program then none else some .compilerNotFound

end CompilerCommand

end ArrayFusion
