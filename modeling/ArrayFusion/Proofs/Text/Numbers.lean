import ArrayFusion.Text.Quoted
import Mathlib.Data.List.Forall2
import Mathlib.Data.List.TakeWhile
import Mathlib.Data.Nat.Digits.Defs

/-!
# Numbers in texts

Numbers are written by their decimal digits, a negative one with a sign in front. A text that begins
with a number can be cut behind it if the next character is no digit. A list in brackets can be cut
anywhere.
-/

namespace ArrayFusion.Text

/-- The next character, if there is one, does not go on with characters of this kind. -/
def Stops (p : Char → Bool) (cs : List Char) : Prop := ∀ c ∈ cs.head?, p c = false

/-- Characters of one kind are cut from what follows in one way. -/
theorem append_inj_of_stops {p : Char → Bool} {xs ys rest rest' : List Char}
    (hx : ∀ c ∈ xs, p c = true) (hy : ∀ c ∈ ys, p c = true) (stops : Stops p rest)
    (stops' : Stops p rest') (same : xs ++ rest = ys ++ rest') : xs = ys ∧ rest = rest' := by
  have none : ∀ {cs : List Char}, Stops p cs → cs.takeWhile p = [] := by
    intro cs stops
    cases cs with
    | nil => rfl
    | cons c cs => simp [stops c rfl]
  have front := congrArg (List.takeWhile p) same
  rw [List.takeWhile_append_of_pos hx, List.takeWhile_append_of_pos hy, none stops, none stops',
    List.append_nil, List.append_nil] at front
  subst front
  exact ⟨rfl, List.append_cancel_left same⟩

@[simp] theorem stops_nil (p : Char → Bool) : Stops p [] := nofun

@[simp] theorem stops_cons {p : Char → Bool} {c : Char} {cs : List Char} :
    Stops p (c :: cs) ↔ p c = false := by
  simp [Stops]

/-! ## Digits -/

theorem isDigit_digits {n : Nat} : ∀ c ∈ Nat.toDigits 10 n, c.isDigit = true := fun _ =>
  Nat.isDigit_of_mem_toDigits (by decide) (by decide)

theorem digits_injective {m n : Nat} (same : Nat.toDigits 10 m = Nat.toDigits 10 n) : m = n := by
  have value := congrArg (Nat.ofDigitChars 10 · 0) same
  simpa only [Nat.ofDigitChars_ten_toDigits] using value

/-- Value of a hexadecimal digit. -/
def hexValue (c : Char) : Nat :=
  if c.isDigit then c.toNat - '0'.toNat else c.toNat - 'a'.toNat + 10

theorem hexValue_digitChar : ∀ k < 16, hexValue (Nat.digitChar k) = k := by decide

theorem hexDigits_value (n : Nat) :
    (Nat.toDigits 16 n).foldl (fun value c => 16 * value + hexValue c) 0 = n := by
  induction n using Nat.strongRecOn with
  | ind n ih =>
    rw [Nat.toDigits_eq_if (by decide)]
    split
    next small => simp [hexValue_digitChar n small]
    next large =>
      rw [List.foldl_append, ih (n / 16) (by omega)]
      have last := hexValue_digitChar (n % 16) (Nat.mod_lt n (by decide))
      simp only [List.foldl_cons, List.foldl_nil, last]
      exact Nat.div_add_mod n 16

theorem hexDigits_injective {m n : Nat} (same : Nat.toDigits 16 m = Nat.toDigits 16 n) : m = n := by
  rw [← hexDigits_value m, same, hexDigits_value]

theorem exists_of_mem_hexDigits {n : Nat} {c : Char} (h : c ∈ Nat.toDigits 16 n) :
    ∃ k < 16, c = Nat.digitChar k := by
  induction n using Nat.strongRecOn with
  | ind n ih =>
    rw [Nat.toDigits_eq_if (by decide)] at h
    split at h
    next small => exact ⟨n, small, List.mem_singleton.mp h⟩
    next large =>
      rcases List.mem_append.mp h with front | last
      · exact ih (n / 16) (by omega) front
      · exact ⟨n % 16, Nat.mod_lt n (by decide), List.mem_singleton.mp last⟩

/-- Characters of a number. -/
theorem toList_toString_nat (n : Nat) : (toString n).toList = Nat.toDigits 10 n := by
  rw [Nat.toString_eq_ofList_toDigits, String.toList_ofList]

/-- Characters of a number with its sign. -/
theorem toList_toString_int (x : Int) : (toString x).toList =
    if x < 0 then '-' :: Nat.toDigits 10 x.natAbs else Nat.toDigits 10 x.natAbs := by
  rw [Int.toString_eq_repr, Int.repr_eq_if]
  by_cases negative : x < 0
  · have abs : (-x).toNat = x.natAbs := by omega
    rw [if_neg (by omega), if_pos negative, String.toList_append, Nat.toList_repr, abs]
    rfl
  · have abs : x.toNat = x.natAbs := by omega
    rw [if_pos (by omega), if_neg negative, Nat.toList_repr, abs]

/-- Numbers are cut from what follows in one way. -/
theorem digits_append_inj {m n : Nat} {rest rest' : List Char} (stops : Stops Char.isDigit rest)
    (stops' : Stops Char.isDigit rest')
    (same : Nat.toDigits 10 m ++ rest = Nat.toDigits 10 n ++ rest') : m = n ∧ rest = rest' := by
  obtain ⟨digits, after⟩ :=
    append_inj_of_stops isDigit_digits isDigit_digits stops stops' same
  exact ⟨digits_injective digits, after⟩

theorem exists_digits_eq_cons (n : Nat) :
    ∃ c cs, Nat.toDigits 10 n = c :: cs ∧ c.isDigit = true := by
  cases digits : Nat.toDigits 10 n with
  | nil => exact absurd digits Nat.toDigits_ne_nil
  | cons c cs => exact ⟨c, cs, rfl, isDigit_digits c (digits ▸ List.mem_cons_self)⟩

/-- A number begins with a digit or with its sign. -/
theorem exists_toString_int_eq_cons (x : Int) :
    ∃ c cs, (toString x).toList = c :: cs ∧ (c.isDigit = true ∨ c = '-') := by
  rw [toList_toString_int]
  split
  next => exact ⟨'-', _, rfl, .inr rfl⟩
  next =>
    obtain ⟨c, cs, digits, digit⟩ := exists_digits_eq_cons x.natAbs
    exact ⟨c, cs, digits, .inl digit⟩

/-- Numbers with their signs are cut from what follows in one way. -/
theorem int_append_inj {x y : Int} {rest rest' : List Char} (stops : Stops Char.isDigit rest)
    (stops' : Stops Char.isDigit rest')
    (same : (toString x).toList ++ rest = (toString y).toList ++ rest') : x = y ∧ rest = rest' := by
  have signed : ∀ (m n : Nat) (u u' : List Char), '-' :: Nat.toDigits 10 m ++ u ≠
      Nat.toDigits 10 n ++ u' := by
    intro m n u u' same
    obtain ⟨c, cs, digits, digit⟩ := exists_digits_eq_cons n
    rw [digits] at same
    obtain rfl : '-' = c := (List.cons.inj same).1
    contradiction
  rw [toList_toString_int, toList_toString_int] at same
  by_cases negative : x < 0
  · by_cases negative' : y < 0
    · rw [if_pos negative, if_pos negative'] at same
      obtain ⟨abs, after⟩ := digits_append_inj stops stops' (List.cons.inj same).2
      exact ⟨by omega, after⟩
    · rw [if_pos negative, if_neg negative'] at same
      exact absurd same (signed _ _ _ _)
  · by_cases negative' : y < 0
    · rw [if_neg negative, if_pos negative'] at same
      exact absurd same.symm (signed _ _ _ _)
    · rw [if_neg negative, if_neg negative'] at same
      obtain ⟨abs, after⟩ := digits_append_inj stops stops' same
      exact ⟨by omega, after⟩

/-! ## Lists of pieces -/

/-- Pieces that can be cut one by one, where the end of a list is not taken for another piece. `E`
holds of all that can follow a piece. -/
theorem forall₂_of_flatMap {α β : Type} {P : α → β → Prop} {E : List Char → Prop}
    {f : α → List Char} {g : β → List Char} {rest rest' : List Char}
    {xs : List α} {ys : List β} (piece : ∀ x u, E u → E (f x ++ u))
    (piece' : ∀ y u, E u → E (g y ++ u)) (last : ∀ y ∈ ys, ∀ u, rest ≠ g y ++ u)
    (last' : ∀ x ∈ xs, ∀ u, rest' ≠ f x ++ u) (ends : E rest) (ends' : E rest')
    (cut : ∀ x ∈ xs, ∀ y ∈ ys, ∀ u u', E u → E u' → f x ++ u = g y ++ u' → P x y ∧ u = u')
    (same : xs.flatMap f ++ rest = ys.flatMap g ++ rest') :
    List.Forall₂ P xs ys ∧ rest = rest' := by
  have all : ∀ xs : List α, E (xs.flatMap f ++ rest) := by
    intro xs
    induction xs with
    | nil => exact ends
    | cons x xs ih => rw [List.flatMap_cons, List.append_assoc]; exact piece x _ ih
  have all' : ∀ ys : List β, E (ys.flatMap g ++ rest') := by
    intro ys
    induction ys with
    | nil => exact ends'
    | cons y ys ih => rw [List.flatMap_cons, List.append_assoc]; exact piece' y _ ih
  induction xs generalizing ys with
  | nil =>
    cases ys with
    | nil => exact ⟨.nil, same⟩
    | cons y ys =>
      rw [List.flatMap_cons, List.append_assoc] at same
      exact absurd same (last y List.mem_cons_self _)
  | cons x xs ih =>
    rw [List.flatMap_cons, List.append_assoc] at same
    cases ys with
    | nil => exact absurd same.symm (last' x List.mem_cons_self _)
    | cons y ys =>
      rw [List.flatMap_cons, List.append_assoc] at same
      obtain ⟨first, others⟩ := cut x List.mem_cons_self y List.mem_cons_self _ _ (all xs) (all' ys)
        same
      obtain ⟨pairs, after⟩ := ih (fun y hy => last y (List.mem_cons_of_mem _ hy))
        (fun x hx => last' x (List.mem_cons_of_mem _ hx))
        (fun x hx y hy => cut x (List.mem_cons_of_mem _ hx) y (List.mem_cons_of_mem _ hy)) others
      exact ⟨.cons first pairs, after⟩

/-- A further number of a list. -/
def further (x : Int) : List Char := ',' :: ' ' :: (toString x).toList

/-- Characters of a list in brackets, and of what follows. -/
theorem toList_bracketed_cons (x : Int) (xs : List Int) (rest : List Char) :
    (bracketed (x :: xs)).toList ++ rest =
      '[' :: ((toString x).toList ++ (xs.flatMap further ++ ']' :: rest)) := by
  have separated : (", ".intercalate ((x :: xs).map toString)).toList =
      (toString x).toList ++ xs.flatMap further := by
    induction xs generalizing x with
    | nil => simp
    | cons y xs ih =>
      rw [List.map_cons, List.map_cons, String.intercalate_cons_cons, String.toList_append,
        String.toList_append, ← List.map_cons, ih y, List.flatMap_cons, further]
      simp
  rw [bracketed, String.toList_append, String.toList_append, separated]
  simp

/-- Lists in brackets are cut from what follows in one way. -/
theorem bracketed_append_inj {xs ys : List Int} {rest rest' : List Char}
    (same : (bracketed xs).toList ++ rest = (bracketed ys).toList ++ rest') :
    xs = ys ∧ rest = rest' := by
  have closed : ∀ (x : Int) (u : List Char), ∀ v, ']' :: u ≠ (toString x).toList ++ v := by
    intro x u v same
    obtain ⟨c, cs, text, first⟩ := exists_toString_int_eq_cons x
    rw [text] at same
    obtain rfl : ']' = c := (List.cons.inj same).1
    revert first
    decide
  cases xs with
  | nil =>
    cases ys with
    | nil => exact ⟨rfl, List.append_cancel_left same⟩
    | cons y ys =>
      rw [toList_bracketed_cons] at same
      exact absurd (List.cons.inj same).2 (closed y _ _)
  | cons x xs =>
    cases ys with
    | nil =>
      rw [toList_bracketed_cons] at same
      exact absurd (List.cons.inj same).2.symm (closed x _ _)
    | cons y ys =>
      have stops : ∀ (zs : List Int) (u : List Char),
          Stops Char.isDigit (zs.flatMap further ++ ']' :: u) := by
        intro zs u
        cases zs <;> exact stops_cons.mpr rfl
      rw [toList_bracketed_cons, toList_bracketed_cons] at same
      obtain ⟨rfl, others⟩ := int_append_inj (stops _ _) (stops _ _) (List.cons.inj same).2
      obtain ⟨equal, after⟩ := forall₂_of_flatMap (P := Eq) (E := Stops Char.isDigit)
        (fun x u _ => stops_cons.mpr rfl) (fun y u _ => stops_cons.mpr rfl)
        (fun y _ u same => absurd (List.cons.inj same).1 (by decide))
        (fun y _ u same => absurd (List.cons.inj same).1 (by decide))
        (stops_cons.mpr rfl) (stops_cons.mpr rfl)
        (fun x _ y _ u u' ends ends' same =>
          int_append_inj ends ends' (List.cons.inj (List.cons.inj same).2).2) others
      exact ⟨congrArg (x :: ·) (List.forall₂_eq_eq_eq ▸ equal), (List.cons.inj after).2⟩

end ArrayFusion.Text
