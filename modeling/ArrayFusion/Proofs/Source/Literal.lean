import ArrayFusion.Proofs.Element.Notation
import ArrayFusion.Source.FortranExpression

/-!
# Literals of one type

The text of a constant does not tell its type. Among the constants of one type it tells everything
that other dialects write of a constant.
-/

namespace ArrayFusion

open Text

/-- What a literal shows of a float. -/
inductive FloatForm where
  | nan
  | infinite (positive : Bool)
  | finite (text : String)

namespace FloatForm

def of (x : Float) : FloatForm :=
  if x.isNaN then nan else if x.isInf then infinite (x > 0) else finite (Decimal.finiteText .plain x)

/-- Literal of a float in C. -/
def text (suffix : String) : FloatForm → String
  | nan => "NAN"
  | infinite positive => if positive then "INFINITY" else "(-INFINITY)"
  | finite text => text ++ suffix

/-- What is made of a float by its form. -/
def elim {α : Type} (nan : α) (infinite : Bool → α) (finite : String → α) : FloatForm → α
  | .nan => nan
  | .infinite positive => infinite positive
  | .finite text => finite text

theorem elim_of {α : Type} (nan : α) (infinite : Bool → α) (finite : String → α) (x : Float) :
    (of x).elim nan infinite finite = if x.isNaN then nan else if x.isInf then infinite (x > 0)
      else finite (Decimal.finiteText .plain x) := by
  rw [of]
  split
  · rfl
  split <;> rfl

/-- Finite numbers are written by digits, point and signs. -/
def IsNumeric : FloatForm → Prop
  | finite text => ∀ c ∈ text.toList, isNumeral c = true
  | _ => True

theorem isNumeric_of (x : Float) : (of x).IsNumeric := by
  rw [of]
  split
  · trivial
  split
  · trivial
  · exact Decimal.isNumeral_finiteText x

theorem floatLiteral_eq (x : Float) (suffix : String) :
    Constant.floatLiteral x suffix = (of x).text suffix := by
  rw [Constant.floatLiteral, of]
  split
  · rfl
  split
  · by_cases positive : x > 0 <;> simp [text, positive]
  · rfl

/-- The form is read from the literal. -/
theorem text_injective {suffix : String} (numeral : ∀ c ∈ suffix.toList, isNumeral c = true)
    {f g : FloatForm} (numeric : f.IsNumeric) (numeric' : g.IsNumeric)
    (same : f.text suffix = g.text suffix) : f = g := by
  -- A word of letters is no number.
  have word : ∀ (t : String), (∀ c ∈ t.toList, isNumeral c = true) →
      "NAN" ≠ t ++ suffix ∧ ∀ positive, text suffix (infinite positive) ≠ t ++ suffix := by
    intro t numeric
    have chars : ∀ c ∈ (t ++ suffix).toList, isNumeral c = true := by
      rw [String.toList_append, List.forall_mem_append]
      exact ⟨numeric, numeral⟩
    generalize t ++ suffix = u at chars
    constructor
    · rintro rfl
      exact absurd (List.all_eq_true.mpr chars) (by decide)
    · rintro positive rfl
      have numeral := List.all_eq_true.mpr chars
      cases positive <;> simp only [text] at numeral <;> exact absurd numeral (by decide)
  cases f with
  | nan =>
    cases g with
    | nan => rfl
    | infinite positive => cases positive <;> exact absurd same (by simp only [text]; decide)
    | finite t => exact absurd same (word t numeric').1
  | infinite positive =>
    cases g with
    | nan => cases positive <;> exact absurd same (by simp only [text]; decide)
    | infinite positive' =>
      cases positive <;> cases positive' <;>
        first | rfl | exact absurd same (by simp only [text]; decide)
    | finite t => exact absurd same ((word t numeric').2 positive)
  | finite t =>
    cases g with
    | nan => exact absurd same.symm (word t numeric).1
    | infinite positive => exact absurd same.symm ((word t numeric).2 positive)
    | finite t' => exact congrArg finite ((String.append_left_inj suffix).mp same)

end FloatForm

/-- A constant that is no float is known by its type and its literal. -/
theorem Constant.eq_of_text {c c' : Constant} (exact : c.dtype.isFloat = false)
    (real : c.dtype.isComplex = false) (type : c'.dtype = c.dtype) (same : c'.text = c.text) :
    c' = c := by
  cases c with
  | bool value =>
    cases c' with
    | bool value' => cases value <;> cases value' <;> first | rfl | exact absurd same (by decide)
    | _ => cases type
  | integer t x =>
    cases c' with
    | integer t' x' =>
      obtain rfl := DType.integer.inj type
      have digits := congrArg String.toList ((String.append_left_inj _).mp same)
      obtain ⟨rfl, -⟩ := int_append_inj (stops_nil _) (stops_nil _) (congrArg (· ++ []) digits)
      rfl
    | _ => cases type
  | random start key =>
    cases c' with
    | random start' key' => exact random_of_text same
    | _ => cases type
  | _ => contradiction

/-- The form of a float is seen in its literal. -/
theorem Constant.text_float {c : Constant} (float : c.dtype.isFloat = true) :
    c.text = (FloatForm.of c.toFloat).text (if c.dtype = .float64 then "" else "f") := by
  cases c with
  | float16 | float32 | float64 => exact FloatForm.floatLiteral_eq _ _
  | _ => contradiction

namespace FortranExpression

/-- The literal of a float shows its kind and its form. -/
theorem exists_literal?_eq : ∃ f : String → FloatForm → String, ∀ c : Constant,
    c.dtype.isFloat = true →
      literal? c = (Target.fortranKind? c.dtype).map fun kind => f kind (.of c.toFloat) := by
  refine ⟨fun kind => FloatForm.elim s!"IEEE_VALUE(1.0_{kind}, IEEE_QUIET_NAN)"
    (fun positive =>
      let side := if positive then "POSITIVE" else "NEGATIVE"
      s!"IEEE_VALUE(1.0_{kind}, IEEE_{side}_INF)")
    (· ++ "_" ++ kind), fun c float => ?_⟩
  rw [literal?]
  simp only [FloatForm.elim_of, float, if_true, decide_eq_true_eq]
  cases Target.fortranKind? c.dtype <;>
    simp only [Option.bind_eq_bind, Option.bind_none, Option.bind_some, Option.map_none,
      Option.map_some]

/-- Constants of one type with the same literal in C have the same literal in Fortran. -/
theorem literal?_eq {c c' : Constant} (type : c'.dtype = c.dtype) (same : c'.text = c.text) :
    literal? c' = literal? c := by
  cases float : c.dtype.isFloat with
  | true =>
    have float' : c'.dtype.isFloat = true := type ▸ float
    have suffix : ∀ letter ∈ (if c.dtype = .float64 then "" else "f").toList,
        isNumeral letter = true := by
      split <;> exact List.all_eq_true.mp (by decide)
    rw [Constant.text_float float, Constant.text_float float', type] at same
    obtain ⟨f, literal⟩ := exists_literal?_eq
    rw [literal c float, literal c' float', type,
      FloatForm.text_injective suffix (FloatForm.isNumeric_of _) (FloatForm.isNumeric_of _) same]
  | false =>
    cases real : c.dtype.isComplex with
    | false => rw [Constant.eq_of_text float real type same]
    | true =>
      have none : Target.fortranKind? c.dtype = none := by
        cases dtype : c.dtype <;> rw [dtype] at real <;> first | rfl | contradiction
      simp only [literal?, type, none, Option.bind_eq_bind, Option.bind_none]

end FortranExpression

end ArrayFusion
