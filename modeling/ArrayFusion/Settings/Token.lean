/-!
# Tokens of a settings file

A settings file is a JSON object. Its tokens are read generously: numbers may have a plus sign and
leading zeros, but exponents no plus sign, and an unknown escape stands for the escaped character. The text ends at the first
null character. What follows a text that is no token is not read.
-/

namespace ArrayFusion

/-- Token of a settings file. -/
inductive Token where
  | text (s : String)
  /-- Number without minus sign, fraction and exponent, below 2^64. -/
  | unsigned (n : Nat)
  /-- Number with a minus sign, without fraction and exponent, at least -2^63. -/
  | signed (x : Int)
  /-- Number with fraction or exponent. -/
  | fraction
  | flag (value : Bool)
  | null
  | colon
  | comma
  | openList
  | closeList
  | openObject
  | closeObject
  /-- No token. -/
  | malformed
  deriving DecidableEq, Repr, Inhabited

namespace Token

/-- Value of a hexadecimal digit. -/
def hexDigit? (c : Char) : Option Nat :=
  if c.isDigit then some (c.toNat - '0'.toNat)
  else if 'a' ≤ c ∧ c ≤ 'f' then some (c.toNat - 'a'.toNat + 10)
  else if 'A' ≤ c ∧ c ≤ 'F' then some (c.toNat - 'A'.toNat + 10)
  else none

/-- Number of four hexadecimal digits. -/
def unit? (a b c d : Char) : Option Nat := do
  pure (((← hexDigit? a) * 16 + (← hexDigit? b)) * 256 + (← hexDigit? c) * 16 + (← hexDigit? d))

/-- The first half of a character beyond the basic plane. -/
def isHighHalf (u : Nat) : Bool := 0xd800 ≤ u && u < 0xdc00

/-- The second half of a character beyond the basic plane. -/
def isLowHalf (u : Nat) : Bool := 0xdc00 ≤ u && u < 0xe000

/-- The character of a letter behind a backslash. -/
def escaped (c : Char) : Char :=
  match c with
  | 'n' => '\n'
  | 'r' => '\r'
  | 't' => '\t'
  | 'b' => '\x08'
  | 'f' => '\x0c'
  | '0' => '\x00'
  | c => c

/-- Reads up to the closing quote. The characters so far are listed last first. -/
def quotedFrom : (done : List Char) → List Char → Option (String × List Char)
  | done, '"' :: rest => some (String.ofList done.reverse, rest)
  | done, '\\' :: 'u' :: a :: b :: c :: d :: '\\' :: 'u' :: e :: f :: g :: h :: rest =>
    match unit? a b c d with
    | none => none
    | some u =>
      if isHighHalf u then
        match unit? e f g h with
        | none => none
        | some v =>
          if isLowHalf v then
            quotedFrom (Char.ofNat (0x10000 + (u - 0xd800) * 0x400 + (v - 0xdc00)) :: done) rest
          else none
      else if isLowHalf u then none
      else quotedFrom (Char.ofNat u :: done) ('\\' :: 'u' :: e :: f :: g :: h :: rest)
  | done, '\\' :: 'u' :: a :: b :: c :: d :: rest =>
    match unit? a b c d with
    | none => none
    | some u =>
      if isHighHalf u || isLowHalf u then none else quotedFrom (Char.ofNat u :: done) rest
  | done, '\\' :: c :: rest =>
    if c = 'u' ∨ c = '\x00' then none else quotedFrom (escaped c :: done) rest
  | done, c :: rest => if c = '\x00' then none else quotedFrom (c :: done) rest
  | _, [] => none
  termination_by _ cs => cs.length

/-- Value of decimal digits. -/
def decimal (digits : List Char) : Nat :=
  digits.foldl (fun n c => 10 * n + (c.toNat - '0'.toNat)) 0

/-- Reads the digits behind an exponent mark. They may have a minus sign, but no plus sign. -/
def exponentFrom (cs : List Char) : List Char × List Char :=
  let cs := match cs with
    | '-' :: rest => rest
    | cs => cs
  (cs.takeWhile (·.isDigit), cs.dropWhile (·.isDigit))

/-- Reads a number behind its sign. -/
def numberFrom (negative : Bool) (cs : List Char) : Token × List Char :=
  let digits := cs.takeWhile (·.isDigit)
  let rest := cs.dropWhile (·.isDigit)
  let (hasPoint, places, rest) := match rest with
    | '.' :: rest => (true, rest.takeWhile Char.isDigit, rest.dropWhile Char.isDigit)
    | _ => (false, [], rest)
  let (hasExponent, exponent, rest) := match rest with
    | 'e' :: rest => (true, exponentFrom rest)
    | 'E' :: rest => (true, exponentFrom rest)
    | _ => (false, [], rest)
  let n := decimal digits
  let token :=
    if digits.isEmpty && places.isEmpty then malformed
    else if hasPoint || hasExponent then
      if hasExponent && exponent.isEmpty then malformed else fraction
    else if negative then if n ≤ 1 <<< 63 then signed (-n) else malformed
    else if n < 1 <<< 64 then unsigned n else malformed
  (token, rest)

def isWordChar (c : Char) : Bool := c.isAlpha || c == '_'

/-- Reads one token. -/
def next (cs : List Char) : Token × List Char :=
  match cs with
  | ':' :: rest => (colon, rest)
  | ',' :: rest => (comma, rest)
  | '[' :: rest => (openList, rest)
  | ']' :: rest => (closeList, rest)
  | '\x7b' :: rest => (openObject, rest)
  | '\x7d' :: rest => (closeObject, rest)
  | '-' :: rest => numberFrom true rest
  | '+' :: rest => numberFrom false rest
  | '"' :: rest =>
    match quotedFrom [] rest with
    | some (s, rest) => (text s, rest)
    | none => (malformed, [])
  | cs =>
    if (cs.head?.map (·.isDigit)).getD false then numberFrom false cs
    else
      let word := String.ofList (cs.takeWhile isWordChar)
      let rest := cs.dropWhile isWordChar
      if word = "true" then (flag true, rest)
      else if word = "false" then (flag false, rest)
      else if word = "null" then (null, rest)
      else (malformed, [])

def isBlank (c : Char) : Bool := c == ' ' || c == '\n' || c == '\r' || c == '\t'

/-- All tokens of a text. -/
def list (cs : List Char) : List Token :=
  let trimmed := cs.dropWhile isBlank
  if trimmed.isEmpty || trimmed.head? = some '\x00' then []
  else
    let (token, rest) := next trimmed
    if rest.length < cs.length then
      if token = malformed then [malformed] else token :: list rest
    else [malformed]
  termination_by cs.length

end Token

end ArrayFusion
