import ArrayFusion.Proofs.Text.Numbers
import ArrayFusion.Source.Index

/-!
# The value of an expression in source

Compilers read an expression as words and marks. `Expression.eval?` is the value of the integer
expressions that array indices are written as: names, numbers, signs, sums, products and
parentheses, where products bind tighter than sums. The reader goes through the text once, with the
sum and the product that it is in and those outside of the open parentheses.

The text of an index has the value of the index.
-/

namespace ArrayFusion

open Text

namespace Expression

/-- Unit of an expression. -/
inductive Token where
  /-- A name or a number. -/
  | word (text : List Char)
  | mark (c : Char)
  deriving DecidableEq, Repr

/-- Characters of names and numbers. -/
def isWordChar (c : Char) : Bool := c.isAlphanum || c == '_'

/-- Units of an expression. Words are as long as possible. -/
def tokens : List Char → List Token
  | [] => []
  | c :: cs =>
    if isWordChar c then
      match tokens cs with
      | .word w :: rest => .word (c :: w) :: rest
      | rest => .word [c] :: rest
    else .mark c :: tokens cs

/-- State of the reader of an expression. -/
structure Reader where
  /-- Sums and products outside of the open parentheses, innermost first. -/
  outer : List (Int × Int) := []
  /-- Sum of the terms before the current one. -/
  total : Int := 0
  /-- Product of the factors of the current term, with its sign. -/
  factor : Int := 1
  /-- The next word is a factor of the current term. -/
  awaits : Bool := true
  deriving DecidableEq, Repr

/-- Values of names. -/
abbrev Names := String → Option Int

/-- Value of a word: a decimal number or the value of a name. -/
def value? (env : Names) (w : List Char) : Option Int :=
  if w.all Char.isDigit then some (Nat.ofDigitChars 10 w 0 : Nat) else env (String.ofList w)

namespace Reader

/-- The current term is complete, the next one has the given sign. -/
def next (r : Reader) (sign : Int) : Reader :=
  { r with total := r.total + r.factor, factor := sign, awaits := true }

/-- The current term has one more factor. -/
def times (r : Reader) (x : Int) : Reader := { r with factor := r.factor * x, awaits := false }

/-- A mark in front of a factor. -/
def opens? (r : Reader) : Char → Option Reader
  | '(' => some { outer := (r.total, r.factor) :: r.outer }
  | '-' => some { r with factor := -r.factor }
  | _ => none

/-- A mark behind a factor. -/
def joins? (r : Reader) : Char → Option Reader
  | '*' => some { r with awaits := true }
  | '+' => some (r.next 1)
  | '-' => some (r.next (-1))
  | ')' =>
    match r.outer with
    | (total, factor) :: outer =>
      some (({ outer, total, factor } : Reader).times (r.total + r.factor))
    | [] => none
  | _ => none

/-- One unit of an expression is read. -/
def step (env : Names) (r : Reader) : Token → Option Reader
  | .word w => if r.awaits then (value? env w).map r.times else none
  | .mark c => if c = ' ' then some r else if r.awaits then r.opens? c else r.joins? c

/-- A text is read. -/
def read (env : Names) (r : Reader) (cs : List Char) : Option Reader :=
  (tokens cs).foldlM (step env) r

/-- Value of a complete expression. -/
def result? (r : Reader) : Option Int :=
  if r.outer.isEmpty && !r.awaits then some (r.total + r.factor) else none

end Reader

/-- Value of an expression. -/
def eval? (env : Names) (text : String) : Option Int :=
  (Reader.read env {} text.toList).bind Reader.result?

example : eval? (List.lookup · [("i0", 7), ("vs0_1", 2)]) "-5 +(i0-1)*vs0_1 +i0*(-3)" =
    some (-14) := by decide

/-! ## Reading units -/

variable {env : Names} {r : Reader} {rest : List Char}

theorem tokens_mark {c : Char} (mark : isWordChar c = false) (rest : List Char) :
    tokens (c :: rest) = .mark c :: tokens rest := by
  rw [tokens, mark]
  rfl

/-- A word ends where a mark follows. -/
theorem tokens_word {w : List Char} (nonempty : w ≠ []) (chars : ∀ c ∈ w, isWordChar c = true)
    (stops : Stops isWordChar rest) : tokens (w ++ rest) = .word w :: tokens rest := by
  have none : ∀ u ts, tokens rest ≠ .word u :: ts := by
    intro u ts same
    cases rest with
    | nil => contradiction
    | cons c cs =>
      rw [tokens_mark (stops_cons.mp stops)] at same
      cases same
  induction w with
  | nil => contradiction
  | cons c w ih =>
    obtain ⟨first, others⟩ := List.forall_mem_cons.mp chars
    rw [List.cons_append, tokens, if_pos first]
    cases w with
    | nil =>
      rw [List.nil_append]
      split
      next u ts same => exact absurd same (none u ts)
      next => rfl
    | cons c' w => rw [ih (List.cons_ne_nil c' w) others]

namespace Reader

theorem read_mark {c : Char} (mark : isWordChar c = false) :
    read env r (c :: rest) = (step env r (.mark c)).bind (read env · rest) := by
  rw [read, tokens_mark mark, List.foldlM_cons]
  rfl

@[simp] theorem read_blank : read env r (' ' :: rest) = read env r rest :=
  read_mark (by decide)

theorem read_opens {c : Char} (awaits : r.awaits = true) (mark : isWordChar c = false)
    (visible : c ≠ ' ') : read env r (c :: rest) = (r.opens? c).bind (read env · rest) := by
  rw [read_mark mark, step, if_neg visible, if_pos awaits]

theorem read_joins {c : Char} (complete : r.awaits = false) (mark : isWordChar c = false)
    (visible : c ≠ ' ') : read env r (c :: rest) = (r.joins? c).bind (read env · rest) := by
  rw [read_mark mark, step, if_neg visible, complete, if_neg Bool.false_ne_true]

/-- What stands in parentheses is one factor. -/
theorem read_close {total factor : Int} {outer : List (Int × Int)} (complete : r.awaits = false)
    (inside : r.outer = (total, factor) :: outer) : read env r (')' :: rest) =
      read env (({ outer, total, factor } : Reader).times (r.total + r.factor)) rest := by
  rw [read_joins complete (by decide) (by decide), joins?, inside]
  rfl

theorem read_word {w : List Char} (nonempty : w ≠ []) (chars : ∀ c ∈ w, isWordChar c = true)
    (stops : Stops isWordChar rest) (awaits : r.awaits = true) {x : Int}
    (value : value? env w = some x) : read env r (w ++ rest) = read env (r.times x) rest := by
  rw [read, tokens_word nonempty chars stops, List.foldlM_cons, step, if_pos awaits, value]
  rfl

/-! ## Reading numbers and names -/

theorem isWordChar_of_isDigit {c : Char} (digit : c.isDigit = true) : isWordChar c = true := by
  simp [isWordChar, Char.isAlphanum, digit]

theorem read_digits (stops : Stops isWordChar rest) (awaits : r.awaits = true) (n : Nat) :
    read env r (Nat.toDigits 10 n ++ rest) = read env (r.times n) rest := by
  refine read_word Nat.toDigits_ne_nil (fun c hc => isWordChar_of_isDigit (isDigit_digits c hc))
    stops awaits ?_
  rw [value?, if_pos (List.all_eq_true.mpr isDigit_digits), Nat.ofDigitChars_ten_toDigits]

/-- A number is read with its sign. -/
theorem read_number (stops : Stops isWordChar rest) (awaits : r.awaits = true) (x : Int) :
    read env r ((toString x).toList ++ rest) = read env (r.times x) rest := by
  rw [toList_toString_int]
  split
  next negative =>
    have magnitude : (x.natAbs : Int) = -x := by omega
    rw [List.cons_append, read_opens awaits (by decide) (by decide), opens?, Option.bind_some,
      read_digits stops (by exact awaits), times, times, magnitude, Int.neg_mul_neg]
  next nonneg =>
    have magnitude : (x.natAbs : Int) = x := by omega
    rw [read_digits stops awaits, magnitude]

/-- A name is read as its value. -/
theorem read_name {name : String} {c : Char} {cs : List Char} (chars : name.toList = c :: cs)
    (letter : c.isDigit = false) (word : ∀ c ∈ name.toList, isWordChar c = true)
    (stops : Stops isWordChar rest) (awaits : r.awaits = true) {x : Int}
    (value : env name = some x) : read env r (name.toList ++ rest) = read env (r.times x) rest := by
  refine read_word (by simp [chars]) word stops awaits ?_
  rw [value?, if_neg (by simp [chars, letter]), String.ofList_toList, value]

end Reader

end Expression

/-! ## Coefficients -/

open Expression

namespace Coefficient

/-- Value of a coefficient where parameters have the given values. -/
def value? (env : Names) : Coefficient → Option Int
  | literal value => some value
  | c => env c.text

theorem toList_start (n : Nat) : (start n).text.toList = 'v' :: 'o' :: Nat.toDigits 10 n := by
  simp [text, toString]

theorem toList_stride (n axis : Nat) : (stride n axis).text.toList =
    'v' :: 's' :: (Nat.toDigits 10 n ++ '_' :: Nat.toDigits 10 axis) := by
  simp [text, toString]

end Coefficient

/-- Name of the index of a loop. -/
def indexName (axis : Nat) : String := s!"i{axis}"

theorem toList_indexName (axis : Nat) :
    (indexName axis).toList = 'i' :: Nat.toDigits 10 axis := by
  simp [indexName, toString]


namespace Expression.Reader

variable {env : Names} {r : Reader} {rest : List Char}

theorem read_index {axis : Nat} {x : Int} (value : env (indexName axis) = some x)
    (stops : Stops isWordChar rest) (awaits : r.awaits = true) :
    read env r ((indexName axis).toList ++ rest) = read env (r.times x) rest := by
  refine read_name (toList_indexName axis) (by decide) ?_ stops awaits value
  rw [toList_indexName]
  exact List.forall_mem_cons.mpr
    ⟨by decide, fun c hc => isWordChar_of_isDigit (isDigit_digits c hc)⟩

/-- A coefficient at the start of a sum. -/
theorem read_coefficient {c : Coefficient} {x : Int} (value : c.value? env = some x)
    (stops : Stops isWordChar rest) (awaits : r.awaits = true) :
    read env r (c.text.toList ++ rest) = read env (r.times x) rest := by
  have digits : ∀ n, ∀ c ∈ Nat.toDigits 10 n, isWordChar c = true := fun n c hc =>
    isWordChar_of_isDigit (isDigit_digits c hc)
  cases c with
  | literal number =>
    cases value
    exact read_number stops awaits x
  | start view =>
    refine read_name (Coefficient.toList_start view) (by decide) ?_ stops awaits value
    simpa [Coefficient.toList_start] using ⟨by decide, by decide, digits view⟩
  | stride view axis =>
    refine read_name (Coefficient.toList_stride view axis) (by decide) ?_ stops awaits value
    simp only [Coefficient.toList_stride, List.forall_mem_cons, List.forall_mem_append]
    exact ⟨by decide, by decide, digits view, by decide, digits axis⟩

/-- A coefficient as a factor. -/
theorem read_factor {c : Coefficient} {x : Int} (value : c.value? env = some x)
    (stops : Stops isWordChar rest) (awaits : r.awaits = true) :
    read env r (c.factorText.toList ++ rest) = read env (r.times x) rest := by
  cases c with
  | literal number =>
    rw [Coefficient.factorText]
    split
    next negative =>
      cases value
      have chars : s!"({x})".toList = '(' :: ((toString x).toList ++ [')']) := by
        simp [toString]
      rw [chars, List.cons_append, read_opens awaits (by decide) (by decide), opens?,
        Option.bind_some, List.append_assoc, List.singleton_append,
        read_number (stops_cons.mpr (by decide)) rfl, read_close rfl rfl]
      simp [times]
    next => exact read_coefficient value stops awaits
  | start view => exact read_coefficient value stops awaits
  | stride view axis => exact read_coefficient value stops awaits

/-- A number that is added to what was read. -/
theorem read_signed (stops : Stops isWordChar rest) (complete : r.awaits = false) (x : Int) :
    read env r ((signedText x).toList ++ rest) = read env ((r.next 1).times x) rest := by
  rw [signedText]
  split
  next negative =>
    have magnitude : (x.natAbs : Int) = -x := by omega
    rw [toList_toString_int, if_pos negative, List.cons_append,
      read_joins complete (by decide) (by decide), joins?, Option.bind_some, read_digits stops rfl]
    simp [times, next, magnitude]
  next =>
    have chars : ("+" ++ toString x).toList = '+' :: (toString x).toList := by
      rw [String.toList_append]
      rfl
    rw [chars, List.cons_append, read_joins complete (by decide) (by decide), joins?,
      Option.bind_some, read_number stops rfl]

/-- The index of a loop, moved or not. -/
theorem read_indexText {t : IndexTerm} {x : Int} (value : env (indexName t.axis) = some x)
    (stops : Stops isWordChar rest) (awaits : r.awaits = true) :
    read env r (t.indexText.toList ++ rest) = read env (r.times (x + t.shift.getD 0)) rest := by
  obtain ⟨axis, shift, factor⟩ := t
  cases shift with
  | none =>
    rw [Option.getD_none, Int.add_zero]
    exact read_index value stops awaits
  | some y =>
    have chars : (IndexTerm.indexText ⟨axis, some y, factor⟩).toList ++ rest =
        '(' :: ((indexName axis).toList ++ ((signedText y).toList ++ ')' :: rest)) := by
      simp [IndexTerm.indexText, indexName, toString]
    have sign : Stops isWordChar ((signedText y).toList ++ ')' :: rest) := by
      rw [signedText]
      split
      next negative =>
        rw [toList_toString_int, if_pos negative]
        exact stops_cons.mpr (by decide)
      next =>
        rw [String.toList_append]
        exact stops_cons.mpr (by decide)
    rw [chars, read_opens awaits (by decide) (by decide), opens?, Option.bind_some,
      read_index value sign rfl, read_signed (stops_cons.mpr (by decide)) rfl, read_close rfl rfl]
    simp [times, next]

/-- A term of an index ends the term before it. -/
theorem read_term {t : IndexTerm} {x y : Int} (index : env (indexName t.axis) = some x)
    (factor : t.factor.value? env = some y) (stops : Stops isWordChar rest)
    (complete : r.awaits = false) : read env r (t.text.toList ++ rest) =
      read env (((r.next 1).times (x + t.shift.getD 0)).times y) rest := by
  have chars : t.text.toList ++ rest =
      ' ' :: '+' :: (t.indexText.toList ++ '*' :: (t.factor.factorText.toList ++ rest)) := by
    simp [IndexTerm.text]
  rw [chars, read_blank, read_joins complete (by decide) (by decide), joins?, Option.bind_some,
    read_indexText index (stops_cons.mpr (by decide)) rfl, read_joins rfl (by decide) (by decide),
    joins?, Option.bind_some, read_factor factor stops rfl]
  rfl

end Expression.Reader

namespace IndexExpr

variable {env : Names}

/-- Terms begin with a blank. -/
theorem stops_terms (ts : List IndexTerm) :
    Stops isWordChar (String.join (ts.map (·.text))).toList := by
  cases ts with
  | nil => exact stops_nil _
  | cons t ts =>
    rw [List.map_cons, String.join_cons, IndexTerm.text]
    simp only [String.toList_append]
    exact stops_cons.mpr (by decide)

/-- All coefficients and loop indices of an index have the given values. -/
structure HasValues (e : IndexExpr) (env : Names) (coefficient : Coefficient → Int)
    (index : Nat → Int) : Prop where
  start : e.start.value? env = some (coefficient e.start)
  factors : ∀ t ∈ e.terms, t.factor.value? env = some (coefficient t.factor)
  indices : ∀ t ∈ e.terms, env (indexName t.axis) = some (index t.axis)

/-- The text of an index has the value of the index. -/
theorem eval?_text {e : IndexExpr} {coefficient : Coefficient → Int} {index : Nat → Int}
    (values : e.HasValues env coefficient index) :
    eval? env e.text = some (e.eval coefficient index) := by
  obtain ⟨start, terms⟩ := e
  obtain ⟨first, factors, indices⟩ := values
  -- The invariant of the reader: what it has read so far is the value of the terms read so far.
  have sum : ∀ (ts : List IndexTerm), (∀ t ∈ ts, t ∈ terms) → ∀ (r : Reader),
      r.outer = [] → r.awaits = false →
      (r.read env (String.join (ts.map (·.text))).toList).bind Reader.result? =
        some (r.total + r.factor + ts.foldr (fun t sum =>
          (index t.axis + t.shift.getD 0) * coefficient t.factor + sum) 0) := by
    intro ts
    induction ts with
    | nil =>
      intro _ r outer complete
      simp [String.join, Reader.read, tokens, Reader.result?, outer, complete]
    | cons t ts ih =>
      intro sub r outer complete
      obtain ⟨own, others⟩ := List.forall_mem_cons.mp sub
      rw [List.map_cons, String.join_cons, String.toList_append,
        Reader.read_term (indices t own) (factors t own) (stops_terms ts) complete,
        ih others _ (by exact outer) rfl]
      simp only [Reader.next, Reader.times, List.foldr_cons, Int.one_mul, Int.add_assoc]
  rw [eval?, text, String.toList_append, Reader.read_coefficient first (stops_terms terms) rfl,
    sum terms (fun _ ht => ht) _ rfl rfl]
  simp [Reader.times, eval]

end IndexExpr

end ArrayFusion
