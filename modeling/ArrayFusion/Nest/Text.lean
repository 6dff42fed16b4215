import ArrayFusion.Nest.Basic

/-!
# Text of loop nests

One line per loop with everything recorded of it, and one line per statement, each four blanks
deeper than the loop around it.
-/

namespace ArrayFusion

/-- Line that describes a loop. -/
def LoopHead.text (h : LoopHead) : String :=
  let bases (name : String) (s : BaseSet) :=
    if s.isEmpty then "" else ", " ++ name ++ ": " ++ Text.bracketed (s.map Int.ofNat)
  let sweeps :=
    if h.sweeps.isEmpty then ""
    else ", sweeps: \x7b" ++ String.join (h.sweeps.map fun s => " " ++ s.instr.opcode.text) ++ " \x7d"
  s!"rank: {h.rank}, id: {h.id}, size: {h.size}" ++ sweeps ++
    (if h.reshapable then ", reshapable" else "") ++ bases "news" h.news ++ bases "frees" h.frees ++
    "\n"

/-- A number of blanks. -/
def blanks (n : Nat) : String := String.ofList (List.replicate n ' ')

namespace Node

mutual

/-- Text of a node behind the given number of blanks. -/
def text (indent : Nat) : Node → String
  | loop head body => blanks indent ++ head.text ++ bodyText (indent + 4) body
  | leaf s _ => blanks indent ++ s.instr.text ++ "\n"

/-- Text of a body behind the given number of blanks. -/
def bodyText (indent : Nat) : List Node → String
  | [] => ""
  | n :: body => n.text indent ++ bodyText indent body

end

end Node

/-- Text of a nest behind the given number of blanks. -/
def Nest.text (l : Nest) (indent : Nat) : String := l.toNode.text indent

end ArrayFusion
