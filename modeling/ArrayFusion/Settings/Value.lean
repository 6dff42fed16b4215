import ArrayFusion.Fault
import ArrayFusion.Settings.Token

/-!
# Values of settings

A setting is a text, a flag or a number, each one token, or null if it is left open. The value of a
name that is no setting is skipped, and may be a list or an object. Main statement: what follows a
skipped value is shorter.
-/

namespace ArrayFusion.Token

def readText : Token → Except Fault (Option String)
  | null => .ok none
  | text s => .ok (some s)
  | _ => .error .malformedConfig

def readFlag : Token → Except Fault (Option Bool)
  | null => .ok none
  | flag b => .ok (some b)
  | _ => .error .malformedConfig

/-- Reads a number without minus sign. -/
def readCount : Token → Except Fault (Option Nat)
  | null => .ok none
  | unsigned n => .ok (some n)
  | _ => .error .malformedConfig

/-- Reads a number of 64 bits with sign. Numbers from 2^63 on stand for those with the same bits. -/
def readInteger : Token → Except Fault (Option Int)
  | null => .ok none
  | unsigned n => .ok (some ((n : Int).bmod (1 <<< 64)))
  | signed x => .ok (some x)
  | _ => .error .malformedConfig

/-- What follows the bracket that closes the outermost of the open ones. Brackets of lists and
objects count alike, so that either kind closes the other. -/
def skipBrackets : (opened : Nat) → List Token → Option (List Token)
  | 0, rest => some rest
  | _ + 1, [] => none
  | opened + 1, t :: rest =>
    match t with
    | openList | openObject => skipBrackets (opened + 2) rest
    | closeList | closeObject => skipBrackets opened rest
    | _ => skipBrackets (opened + 1) rest

/-- What follows a value of any kind: a list or object as a whole, or one token. -/
def skipValue : List Token → Except Fault (List Token)
  | [] => .error .valueMissing
  | t :: rest =>
    match t with
    | openList | openObject =>
      match skipBrackets 1 rest with
      | some rest => .ok rest
      | none => .error .malformedConfig
    | malformed => .error .malformedConfig
    | colon | comma | closeList | closeObject => .error .valueMissing
    | _ => .ok rest

theorem length_le_of_skipBrackets {opened : Nat} {ts rest : List Token}
    (h : skipBrackets opened ts = some rest) : rest.length ≤ ts.length := by
  induction ts generalizing opened with
  | nil => cases opened <;> simp_all [skipBrackets]
  | cons t ts ih =>
    cases opened with
    | zero => simp_all [skipBrackets]
    | succ opened =>
      have skipped : ∃ n, skipBrackets n ts = some rest := by cases t <;> exact ⟨_, h⟩
      obtain ⟨n, skipped⟩ := skipped
      exact Nat.le_succ_of_le (ih skipped)

theorem length_lt_of_skipValue {ts rest : List Token} (h : skipValue ts = .ok rest) :
    rest.length < ts.length := by
  cases ts with
  | nil => cases h
  | cons t ts =>
    have behind : rest.length ≤ ts.length := by
      cases closed : skipBrackets 1 ts with
      | none => cases t <;> simp_all [skipValue]
      | some after =>
        have := length_le_of_skipBrackets closed
        cases t <;> simp_all [skipValue]
    exact Nat.lt_succ_of_le behind

end ArrayFusion.Token
