import ArrayFusion.Nest.Basic
import ArrayFusion.Numeral.Fnv

/-!
# Symbols of a kernel

Before a kernel is written, its bases, views and constants get numbers in the order of their first
use, and every temporary is classified. A temporary that is only ever accessed by one view directly
in one loop is a scalar of this loop; any other one needs an array. The structure text describes
everything else on which the source of the kernel depends, and its hash names the kernel.
-/

namespace ArrayFusion

/-- What is passed to kernels instead of being written into them. -/
structure Passing where
  /-- Starts and strides of views are parameters. -/
  strides : Bool := true
  /-- Array indices are computed once per loop body. -/
  indices : Bool := true
  /-- Constants are parameters. -/
  constants : Bool := true
  /-- Temporary arrays are parameters and not allocated by the kernel. -/
  temporaries : Bool := false
  deriving DecidableEq, Repr, Inhabited

/-- Number that stands for a symbol that the kernel does not have. -/
def unknownSymbol : Nat := (1 <<< 64) - 1

namespace Node

mutual

/-- Instructions in the order of execution, each with the number of the loop around it. -/
def sites (around : Nat) : Node → List (Nat × Instruction)
  | loop head body => bodySites head.id body
  | leaf s _ => [(around, s.instr)]

/-- Instructions of a body with the numbers of the loops around them. -/
def bodySites (around : Nat) : List Node → List (Nat × Instruction)
  | [] => []
  | n :: body => n.sites around ++ bodySites around body

end

end Node

/-- Instructions of a kernel in the order of execution, each with the number of its loop. -/
def Nest.sites (kernel : Nest) : List (Nat × Instruction) :=
  Node.bodySites kernel.head.id kernel.body

/-- One access of a base: the loop, the view, and whether a scalar could take its place. -/
structure Access where
  loop : Nat
  view : View
  /-- The access is not addressed by value, not the output of a fold or scan, and the base does
  not address views of the same instruction. -/
  direct : Bool

namespace Access

/-- The accesses of an instruction in a loop, with their bases. -/
def ofSite (site : Nat × Instruction) : List (BaseId × Access) :=
  let (loop, i) := site
  i.operands.zipIdx.filterMap fun (v, k) =>
    v.base.map fun b =>
      let direct := !(i.isIndirect k || (k == 0 && i.opcode.isSweep) || i.indexBases.contains b)
      (b, ⟨loop, v, direct⟩)

/-- The accesses can be those of one scalar: all direct, in one loop, by one view. -/
def allScalar : List Access → Bool
  | [] => false
  | first :: rest =>
    (first :: rest).all fun a =>
      a.direct && a.loop == first.loop && a.view.sameAccess first.view

/-- Lowest address, and highest plus one, of the views that are not empty. -/
def range? : List Access → Option (Int × Int)
  | [] => none
  | a :: rest =>
    if a.view.elements ≤ 0 then range? rest
    else
      let (low, high) := a.view.extent
      match range? rest with
      | none => some (low, high + 1)
      | some (l, h) => some (min low l, max (high + 1) h)

end Access

/-- Keeps the first of several elements that are the same. -/
def firstOfEach (same : α → α → Bool) : List α → List α
  | [] => []
  | x :: xs => x :: (firstOfEach same xs).filter (!same x ·)

/-- Symbols of one kernel. -/
structure Symbols where
  passing : Passing
  /-- Accesses in the order of execution. -/
  accesses : List (BaseId × Access)
  /-- Bases in the order of their first use. -/
  bases : List BaseId
  /-- Bases that are bound to the kernel, in binding order. -/
  params : List BaseId
  /-- Temporary arrays that the kernel allocates. -/
  arrayTemps : List BaseId
  /-- Scalar temporaries and the loops that declare them, ordered by base. -/
  scalarTemps : List (BaseId × Nat)
  /-- Views in the order of their first use. -/
  views : List View
  /-- Constants in the order of their first use. -/
  constants : List Constant
  /-- Some instruction draws random numbers. -/
  usesRandom : Bool
  /-- Hash of the structure text. -/
  hash : UInt64

namespace Symbols

def position (p : α → Bool) (xs : List α) : Nat := (xs.findIdx? p).getD unknownSymbol

/-- Accesses of one base. -/
def accessesOf (s : Symbols) (b : BaseId) : List Access :=
  (s.accesses.filter (·.1 == b)).map (·.2)

def baseNumber (s : Symbols) (b : BaseId) : Nat := position (· == b) s.bases

def viewNumber (s : Symbols) (v : View) : Nat := position (·.sameAccess v) s.views

def constantNumber (s : Symbols) (c : Constant) : Nat := position (· == c) s.constants

/-- Type of a base as the kernel accesses it. -/
def dtype (s : Symbols) (b : BaseId) : DType :=
  ((s.accessesOf b).head?.map (·.view.dtype)).getD .bool

/-- Highest element of a base that the kernel accesses, plus one. -/
def extent (s : Symbols) (b : BaseId) : Int := ((Access.range? (s.accessesOf b)).map (·.2)).getD 0

/-- Lowest element of a base that the kernel accesses. -/
def lowest (s : Symbols) (b : BaseId) : Int := ((Access.range? (s.accessesOf b)).map (·.1)).getD 0

/-- A scalar takes the place of the base. -/
def isScalarTemp (s : Symbols) (b : BaseId) : Bool := s.scalarTemps.any (·.1 == b)

/-- Scalar temporaries that are declared in the body of a loop. -/
def scalarTempsOf (s : Symbols) (loop : Nat) : List BaseId :=
  (s.scalarTemps.filter (·.2 == loop)).map (·.1)

/-- Start and strides of the view are parameters. -/
def hasParameters (s : Symbols) (v : View) : Bool :=
  s.passing.strides && v.base.any (!s.isScalarTemp ·)

/-- Views whose start and strides are parameters, in binding order. -/
def parameterViews (s : Symbols) : List View := s.views.filter s.hasParameters

/-- Starts and strides that are passed to the kernel, in binding order. -/
def parameterValues (s : Symbols) : List Int :=
  s.parameterViews.flatMap fun v => v.start :: v.strides

/-- The kernel accesses or embeds a type. -/
def uses (s : Symbols) (t : DType) : Bool :=
  s.bases.any (s.dtype · == t) || s.constants.any (·.dtype == t)

/-- Description of an operand: its number, type and shape, and whatever else of it is written into
the source. -/
def operandStructure (s : Symbols) (i : Instruction) (v : View) : String :=
  match v.base with
  | none =>
    match i.constant with
    | none => ""
    | some c =>
      if s.passing.constants && !i.opcode.isSweep then
        s!" c{s.constantNumber c}:" ++ c.dtype.text
      else " " ++ c.text
  | some b =>
    s!" a{s.baseNumber b}:" ++ v.dtype.text ++
      if s.passing.strides then s!"v{s.viewNumber v}" ++ Text.bracketed v.shape
      else s!"[{v.start} " ++ Text.bracketed v.shape ++ " " ++ Text.bracketed v.strides ++ "]"

/-- Description of an instruction. -/
def instrStructure (s : Symbols) (i : Instruction) : String :=
  let axis := (i.sweepAxis?.map fun a => s!"({a})").getD ""
  i.opcode.text ++ axis ++ String.join (i.operands.map (s.operandStructure i)) ++ "\n"

/-- Description of a loop without its body. -/
def headStructure (h : LoopHead) : String := s!"L{h.rank} {h.size} {h.sweeps.length}\n"

mutual

/-- Description of a node. -/
def nodeStructure (s : Symbols) : Node → String
  | .loop head body => headStructure head ++ bodyStructure s body
  | .leaf stmt _ => s.instrStructure stmt.instr

/-- Description of a body. -/
def bodyStructure (s : Symbols) : List Node → String
  | [] => ""
  | n :: body => nodeStructure s n ++ bodyStructure s body

end

/-- The text that describes a kernel up to what is passed to it. -/
def structureText (s : Symbols) (kernel : Nest) : String := s.nodeStructure kernel.toNode

/-- Constants that are embedded or passed; the axis of a fold or scan is not one of them. -/
def embedded (i : Instruction) : Option Constant := if i.opcode.isSweep then none else i.constant

/-- Symbols of a kernel, still without hash. -/
def collect (kernel : Nest) (passing : Passing) : Symbols :=
  let sites := kernel.sites
  let accesses := sites.flatMap Access.ofSite
  let bases := firstOfEach (· == ·) (accesses.map (·.1))
  let temps := kernel.allTemps
  let of (b : BaseId) := (accesses.filter (·.1 == b)).map (·.2)
  let scalarTemps := temps.filterMap fun b =>
    if Access.allScalar (of b) then (of b).head?.map fun a => (b, a.loop) else none
  let isArrayTemp (b : BaseId) := temps.contains b && !scalarTemps.any (·.1 == b)
  { passing, accesses, bases, scalarTemps
    params := bases.filter fun b => !temps.contains b || (passing.temporaries && isArrayTemp b)
    arrayTemps := bases.filter fun b => !passing.temporaries && isArrayTemp b
    views := firstOfEach View.sameAccess (accesses.map (·.2.view))
    constants := firstOfEach (· == ·) (sites.filterMap fun (_, i) => embedded i)
    usesRandom := sites.any fun (_, i) => i.opcode == .random
    hash := 0 }

/-- Symbols of a kernel. -/
def ofKernel (kernel : Nest) (passing : Passing) : Symbols :=
  let s := collect kernel passing
  { s with hash := Fnv.ofText (s.structureText kernel) }

/-- Table of the symbols: bases, views and constants with their numbers. -/
def text (s : Symbols) : String :=
  let base (b : BaseId) :=
    let kind := if s.isScalarTemp b then "scalar" else if s.arrayTemps.contains b then "temp" else "param"
    s!"  a{s.baseNumber b}: " ++ b.text ++ " " ++ (s.dtype b).text ++ " " ++ kind ++ "\n"
  "Symbol table (codegen hash " ++ Fnv.hex s.hash ++ ")\n" ++ String.join (s.bases.map base) ++
    String.join (s.parameterViews.zipIdx.map fun (v, n) => s!"  v{n}: " ++ v.text ++ "\n") ++
    String.join (s.constants.zipIdx.map fun (c, n) => s!"  c{n}: " ++ c.text ++ "\n")

end Symbols

end ArrayFusion
