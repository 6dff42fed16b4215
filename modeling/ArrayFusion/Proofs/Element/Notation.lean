import ArrayFusion.Element.Constant
import ArrayFusion.Proofs.Text.Numbers

/-!
# Notation of types and constants

The name of a type and the literal of a constant can be cut from a text in one way. A literal is a
word without blanks, or a complex number in parentheses, or the state of a random generator in
braces. Its text does not always tell the type of the constant.
-/

namespace ArrayFusion

open Text

/-! ## Types -/

theorem DType.mem_all (t : DType) : t ∈ all := by
  cases t with
  | integer t => obtain ⟨signed, width⟩ := t; cases signed <;> cases width <;> decide
  | _ => decide

theorem DType.text_injective {t t' : DType} (same : t.text = t'.text) : t = t' := by
  have distinct : ∀ t ∈ all, ∀ t' ∈ all, t.text = t'.text → t = t' := by decide +kernel
  exact distinct t t.mem_all t' t'.mem_all same

/-- Characters of the names of types. -/
def isTypeChar (c : Char) : Bool := c.isUpper || c.isDigit

theorem DType.isTypeChar_text (t : DType) : ∀ c ∈ t.text.toList, isTypeChar c = true := by
  have chars : ∀ t ∈ all, t.text.toList.all isTypeChar = true := by decide +kernel
  exact List.all_eq_true.mp (chars t t.mem_all)

theorem DType.text_append_inj {t t' : DType} {rest rest' : List Char}
    (stops : Stops isTypeChar rest) (stops' : Stops isTypeChar rest')
    (same : t.text.toList ++ rest = t'.text.toList ++ rest') : t = t' ∧ rest = rest' := by
  obtain ⟨names, after⟩ :=
    append_inj_of_stops t.isTypeChar_text t'.isTypeChar_text stops stops' same
  exact ⟨text_injective (String.toList_inj.mp names), after⟩

/-! ## Words -/

/-- Characters of words. -/
def isPlainChar (c : Char) : Bool := !(c == ' ' || c == '\n' || c == '*' || c == '\x7b' || c == 'a')

/-- Text without blanks that has as many opening as closing parentheses. -/
structure IsWord (cs : List Char) : Prop where
  chars : ∀ c ∈ cs, isPlainChar c = true
  balanced : cs.count '(' = cs.count ')'

/-- Characters of numbers. -/
def isNumeral (c : Char) : Bool :=
  c.isDigit || c == '-' || c == '.' || c == 'e' || c == 'f' || c == 'u' || c == 'l'

theorem isNumeral_of_isDigit {c : Char} (digit : c.isDigit = true) : isNumeral c = true := by
  simp [isNumeral, digit]

theorem isNumeral_digits {n : Nat} : ∀ c ∈ Nat.toDigits 10 n, isNumeral c = true :=
  fun c here => isNumeral_of_isDigit (isDigit_digits c here)

theorem isNumeral_toString_int {x : Int} : ∀ c ∈ (toString x).toList, isNumeral c = true := by
  rw [toList_toString_int]
  split
  · exact List.forall_mem_cons.mpr ⟨rfl, isNumeral_digits⟩
  · exact isNumeral_digits

/-- Numbers are words. -/
theorem isWord_of_isNumeral {cs : List Char} (numeral : ∀ c ∈ cs, isNumeral c = true) :
    IsWord cs where
  chars c here := by
    have own := numeral c here
    cases word : isPlainChar c with
    | true => rfl
    | false =>
      simp only [isPlainChar, Bool.not_eq_false', Bool.or_eq_true, beq_iff_eq] at word
      obtain (((rfl | rfl) | rfl) | rfl) | rfl := word <;> exact absurd own (by decide)
  balanced := by
    rw [List.count_eq_zero.mpr fun here => absurd (numeral _ here) (by decide),
      List.count_eq_zero.mpr fun here => absurd (numeral _ here) (by decide)]

/-! ## Floats -/

namespace Decimal

variable {digits : List Char}

theorem isNumeral_positional (numeral : ∀ c ∈ digits, isNumeral c = true) (e : Int) :
    ∀ c ∈ (positional digits e).toList, isNumeral c = true := by
  have zeros : ∀ n, ∀ c ∈ List.replicate n '0', isNumeral c = true := fun n c here => by
    rw [List.eq_of_mem_replicate here]
    rfl
  rw [positional]
  split
  · rw [String.toList_append, String.toList_ofList, List.forall_mem_append, List.forall_mem_append]
    exact ⟨⟨numeral, zeros _⟩, List.all_eq_true.mp (by decide)⟩
  split
  · rw [String.toList_ofList, List.forall_mem_append, List.forall_mem_cons]
    exact ⟨fun c here => numeral c (List.mem_of_mem_take here), rfl,
      fun c here => numeral c (List.mem_of_mem_drop here)⟩
  · rw [String.toList_ofList, List.forall_mem_cons, List.forall_mem_cons, List.forall_mem_append]
    exact ⟨rfl, rfl, zeros _, numeral⟩

theorem isNumeral_scientific (numeral : ∀ c ∈ digits, isNumeral c = true) (e : Int) :
    ∀ c ∈ (scientific .plain digits e).toList, isNumeral c = true := by
  have point : ∀ c ∈ (if (digits.drop 1).isEmpty then [] else ['.']), isNumeral c = true := by
    split <;> exact List.all_eq_true.mp (by decide)
  rw [scientific, String.toList_append, String.toList_append, String.toList_ofList,
    List.forall_mem_append, List.forall_mem_append, List.forall_mem_append, List.forall_mem_append]
  exact ⟨⟨⟨⟨fun c here => numeral c (List.mem_of_mem_take here), point⟩,
    fun c here => numeral c (List.mem_of_mem_drop here)⟩, List.all_eq_true.mp (by decide)⟩,
    isNumeral_toString_int⟩

/-- A finite float is written by digits, point, signs and the mark of the exponent. -/
theorem isNumeral_finiteText (x : Float) :
    ∀ c ∈ (finiteText .plain x).toList, isNumeral c = true := by
  have positive : ∀ bits, ∀ c ∈ (positiveText .plain bits).toList, isNumeral c = true := by
    intro bits
    rw [positiveText]
    generalize trim 20 (Rounding.ofBits bits).shortest = shortest
    obtain ⟨d, e⟩ := shortest
    dsimp only
    split
    · exact isNumeral_positional isNumeral_digits _
    · exact isNumeral_scientific isNumeral_digits _
  have sign : ∀ bits : Nat, ∀ c ∈ (if bits < 1 <<< 63 then "" else "-").toList,
      isNumeral c = true := by
    intro bits
    split <;> exact List.all_eq_true.mp (by decide)
  rw [finiteText]
  split <;> rw [String.toList_append, List.forall_mem_append]
  · exact ⟨sign _, List.all_eq_true.mp (by decide)⟩
  · exact ⟨sign _, positive _⟩

end Decimal

namespace Constant

/-- A float is written as a word. -/
theorem isWord_floatLiteral (x : Float) {suffix : String}
    (numeral : ∀ c ∈ suffix.toList, isNumeral c = true) : IsWord (floatLiteral x suffix).toList := by
  rw [floatLiteral]
  split
  · exact ⟨List.all_eq_true.mp (by decide), by decide⟩
  split
  · split <;> exact ⟨List.all_eq_true.mp (by decide), by decide⟩
  · apply isWord_of_isNumeral
    rw [String.toList_append, List.forall_mem_append]
    exact ⟨Decimal.isNumeral_finiteText x, numeral⟩

/-- Literals: words, complex numbers, and states of random generators. -/
inductive Literal : List Char → Prop
  | word {cs : List Char} (word : IsWord cs) : Literal cs
  | complex {re im : List Char} (real : IsWord re) (imaginary : IsWord im) :
      Literal ('(' :: (re ++ ' ' :: '+' :: ' ' :: (im ++ ['*', 'I', ')'])))
  | random (start key : Nat) :
      Literal ('\x7b' :: (Nat.toDigits 10 start ++ 'u' :: 'l' :: ',' :: ' ' ::
        (Nat.toDigits 10 key ++ ['u', 'l', '\x7d'])))

theorem toList_text_random (start key : UInt64) : (random start key).text.toList =
    '\x7b' :: (Nat.toDigits 10 start.toNat ++ 'u' :: 'l' :: ',' :: ' ' ::
      (Nat.toDigits 10 key.toNat ++ ['u', 'l', '\x7d'])) := by
  rw [text]
  simp only [String.toList_append, List.append_assoc, toList_toString_nat]
  rfl

theorem literal_text (c : Constant) : Literal c.text.toList := by
  cases c with
  | bool value =>
    apply Literal.word
    apply isWord_of_isNumeral
    cases value <;> exact List.all_eq_true.mp (by decide)
  | integer t x =>
    apply Literal.word
    apply isWord_of_isNumeral
    have suffix : ∀ c ∈ (integerSuffix t).toList, isNumeral c = true := by
      obtain ⟨signed, width⟩ := t
      cases signed <;> cases width <;> exact List.all_eq_true.mp (by decide)
    rw [text, String.toList_append, List.forall_mem_append]
    exact ⟨isNumeral_toString_int, suffix⟩
  | float16 bits | float32 bits | float64 bits =>
    exact .word (isWord_floatLiteral _ (List.all_eq_true.mp (by decide)))
  | complex64 re im | complex128 re im =>
    have parts := fun x y suffix (numeral : ∀ c ∈ String.toList suffix, isNumeral c = true) =>
      Literal.complex (isWord_floatLiteral x numeral) (isWord_floatLiteral y numeral)
    rw [text]
    simp only [String.toList_append, List.append_assoc]
    exact parts _ _ _ (List.all_eq_true.mp (by decide))
  | random start key =>
    rw [toList_text_random]
    exact .random start.toNat key.toNat

end Constant

/-- A blank or the end of the line comes next. -/
def EndsWord (cs : List Char) : Prop := cs.head? = some ' ' ∨ cs.head? = some '\n'

theorem EndsWord.stops {p : Char → Bool} {cs : List Char} (ends : EndsWord cs) (blank : p ' ' = false)
    (newline : p '\n' = false) : Stops p cs := by
  intro c here
  obtain head | head := ends
  · rw [head, Option.mem_some_iff] at here
    exact here ▸ blank
  · rw [head, Option.mem_some_iff] at here
    exact here ▸ newline

namespace Constant.Literal

variable {xs ys rest rest' : List Char}

/-- A word is no complex number: in the front part of that one a parenthesis is open. -/
theorem word_ne_complex {re more : List Char} (word : IsWord xs) (real : IsWord re)
    (ends : EndsWord rest) : xs ++ rest ≠ '(' :: (re ++ ' ' :: more) := by
  intro same
  have opened : ∀ c ∈ '(' :: re, isPlainChar c = true := List.forall_mem_cons.mpr ⟨rfl, real.chars⟩
  obtain ⟨rfl, -⟩ := append_inj_of_stops word.chars opened (ends.stops rfl rfl)
    (stops_cons.mpr rfl) same
  have balanced := word.balanced
  rw [List.count_cons_self, List.count_cons_of_ne (by decide), real.balanced] at balanced
  omega

/-- What begins with a word begins with a character of words, or with what ends it. -/
theorem word_append_ne {c : Char} {more : List Char} (word : IsWord xs) (ends : EndsWord rest)
    (outside : isPlainChar c = false) (inLine : c ≠ ' ' ∧ c ≠ '\n') : xs ++ rest ≠ c :: more := by
  intro same
  cases xs with
  | nil =>
    obtain rfl : rest = c :: more := same
    obtain blank | newline := ends
    · exact inLine.1 (Option.some.inj blank)
    · exact inLine.2 (Option.some.inj newline)
  | cons d ds =>
    obtain rfl : d = c := (List.cons.inj same).1
    exact absurd (word.chars _ List.mem_cons_self) (Bool.eq_false_iff.mp outside)

theorem word_ne_brace {more : List Char} (word : IsWord xs) (ends : EndsWord rest) :
    xs ++ rest ≠ '\x7b' :: more := word_append_ne word ends (by decide) (by decide)

/-- A literal is cut from what follows in one way. -/
theorem append_inj (hx : Literal xs) (hy : Literal ys) (ends : EndsWord rest) (ends' : EndsWord rest')
    (same : xs ++ rest = ys ++ rest') : xs = ys ∧ rest = rest' := by
  cases hx with
  | word word =>
    cases hy with
    | word word' =>
      exact append_inj_of_stops word.chars word'.chars (ends.stops rfl rfl) (ends'.stops rfl rfl) same
    | complex real imaginary =>
      simp only [List.cons_append, List.append_assoc] at same
      exact absurd same (word_ne_complex word real ends)
    | random start key => exact absurd same (word_ne_brace word ends)
  | complex real imaginary =>
    cases hy with
    | word word' =>
      simp only [List.cons_append, List.append_assoc] at same
      exact absurd same.symm (word_ne_complex word' real ends')
    | complex real' imaginary' =>
      simp only [List.cons_append, List.append_assoc] at same
      obtain ⟨rfl, more⟩ := append_inj_of_stops real.chars real'.chars (stops_cons.mpr rfl)
        (stops_cons.mpr rfl) (List.cons.inj same).2
      obtain ⟨rfl, last⟩ := append_inj_of_stops imaginary.chars imaginary'.chars
        (stops_cons.mpr rfl) (stops_cons.mpr rfl)
        ((List.append_right_inj [' ', '+', ' ']).mp more)
      exact ⟨rfl, (List.append_right_inj ['*', 'I', ')']).mp last⟩
    | random start key => exact absurd (List.cons.inj same).1 (by decide)
  | random start key =>
    cases hy with
    | word word' => exact absurd same.symm (word_ne_brace word' ends')
    | complex real imaginary => exact absurd (List.cons.inj same).1 (by decide)
    | random start' key' =>
      simp only [List.cons_append, List.append_assoc] at same
      obtain ⟨rfl, more⟩ := digits_append_inj (stops_cons.mpr rfl) (stops_cons.mpr rfl)
        (List.cons.inj same).2
      obtain ⟨rfl, last⟩ := digits_append_inj (stops_cons.mpr rfl) (stops_cons.mpr rfl)
        ((List.append_right_inj ['u', 'l', ',', ' ']).mp more)
      exact ⟨rfl, (List.append_right_inj ['u', 'l', '\x7d']).mp last⟩

end Constant.Literal

namespace Constant

theorem text_append_inj {c c' : Constant} {rest rest' : List Char} (ends : EndsWord rest)
    (ends' : EndsWord rest') (same : c.text.toList ++ rest = c'.text.toList ++ rest') :
    c.text = c'.text ∧ rest = rest' := by
  obtain ⟨literals, after⟩ := c.literal_text.append_inj c'.literal_text ends ends' same
  exact ⟨String.toList_inj.mp literals, after⟩

/-- A literal does not begin like the name of an array. -/
theorem text_append_ne {c : Constant} {rest more : List Char} (ends : EndsWord rest) :
    c.text.toList ++ rest ≠ 'a' :: more := by
  intro same
  have literal := c.literal_text
  generalize c.text.toList = cs at literal same
  cases literal with
  | word word => exact Literal.word_append_ne word ends (by decide) (by decide) same
  | complex | random => exact absurd (List.cons.inj same).1 (by decide)

/-- The literal of a state shows the state. -/
theorem random_of_text {start key start' key' : UInt64}
    (same : (random start key).text = (random start' key').text) :
    random start key = random start' key' := by
  have chars := congrArg String.toList same
  rw [toList_text_random, toList_text_random] at chars
  obtain ⟨starts, more⟩ := digits_append_inj (stops_cons.mpr rfl) (stops_cons.mpr rfl)
    (List.cons.inj chars).2
  obtain ⟨keys, -⟩ := digits_append_inj (stops_cons.mpr rfl) (stops_cons.mpr rfl)
    ((List.append_right_inj ['u', 'l', ',', ' ']).mp more)
  rw [UInt64.toNat_inj.mp starts, UInt64.toNat_inj.mp keys]

end Constant

end ArrayFusion
