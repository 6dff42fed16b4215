import ArrayFusion.Text.Invisible

/-!
# Quoted text in messages

Messages show a text between double quotes. Quotes and backslashes get a backslash, the common
control characters their letter, and every other character without a visible form is written by
its hexadecimal number. All other characters stand for themselves.
-/

namespace ArrayFusion.Text

/-- One character of a quoted text. -/
def quotedChar (c : Char) : String :=
  match c with
  | '"' => "\\\""
  | '\\' => "\\\\"
  | '\n' => "\\n"
  | '\r' => "\\r"
  | '\t' => "\\t"
  | '\x00' => "\\0"
  | c =>
    if isInvisible c then
      "\\u\x7b" ++ String.ofList (Nat.toDigits 16 c.toNat) ++ "\x7d"
    else String.singleton c

/-- A text between double quotes. -/
def quoted (s : String) : String :=
  "\"" ++ String.join (s.toList.map quotedChar) ++ "\""

/-- Numbers between brackets, separated by a comma and a blank. -/
def bracketed (xs : List Int) : String :=
  "[" ++ ", ".intercalate (xs.map toString) ++ "]"

end ArrayFusion.Text
