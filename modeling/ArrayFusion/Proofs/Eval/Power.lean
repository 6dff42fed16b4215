import ArrayFusion.Proofs.Eval.Filling
import Mathlib.Algebra.Ring.Int.Parity

/-!
# Powers of integers

Powers are computed by squaring, in words of 64 bits. The invariant of the loop: the result so far
times the base to the rest of the exponent is the power, modulo `2 ^ 64`. The exponent is halved in
every round, so that no loop takes more than 63 rounds. A negative exponent stands for a quotient
toward zero. Unsigned exponents with the highest bit set are taken for negative ones, which spoils
the powers of all odd numbers but the first and the last.
-/

namespace ArrayFusion

open Shape View

/-- State of the loop that computes a power. -/
structure Powering where
  result : Int
  base : Int
  exponent : Nat

namespace Powering

/-- One round. -/
def next (l : Powering) : Powering where
  result := if l.exponent % 2 = 1 then IntType.int64.wrap (l.result * l.base) else l.result
  base := IntType.int64.wrap (l.base * l.base)
  exponent := l.exponent / 2

/-- What is left to be computed. -/
def value (l : Powering) : Int := l.result * l.base ^ l.exponent

/-- The invariant of a round. -/
theorem value_next (l : Powering) : l.next.value ≡ l.value [ZMOD 2 ^ 64] := by
  obtain ⟨r, b, e⟩ := l
  have word : ∀ z, IntType.int64.wrap z ≡ z [ZMOD 2 ^ 64] := IntType.int64.wrap_modEq
  have square : IntType.int64.wrap (b * b) ^ (e / 2) ≡ b ^ (2 * (e / 2)) [ZMOD 2 ^ 64] := by
    rw [pow_mul, pow_two]
    exact (word (b * b)).pow (e / 2)
  simp only [value, next]
  split
  next odd =>
    refine ((word (r * b)).mul square).trans ?_
    rw [Int.mul_assoc, ← Int.pow_succ', show 2 * (e / 2) + 1 = e by omega]
  next even =>
    refine (square.mul_left r).trans ?_
    rw [show 2 * (e / 2) = e by omega]

theorem value_iterate (n : Nat) (l : Powering) : (next^[n] l).value ≡ l.value [ZMOD 2 ^ 64] := by
  induction n generalizing l with
  | zero => exact Int.ModEq.refl _
  | succ n ih => exact (ih l.next).trans l.value_next

theorem exponent_iterate (n : Nat) (l : Powering) :
    (next^[n] l).exponent = l.exponent / 2 ^ n := by
  induction n generalizing l with
  | zero => exact (Nat.div_one _).symm
  | succ n ih =>
    rw [Function.iterate_succ_apply, ih, next, Nat.div_div_eq_div_mul, Nat.pow_succ']

/-- The loop ends as soon as nothing is left of the exponent, and more rounds change nothing. -/
theorem squareMultiply_eq {n : Nat} (l : Powering) (small : l.exponent < 2 ^ n) :
    Integer.squareMultiply l.result l.base l.exponent = (next^[n] l).result := by
  induction n generalizing l with
  | zero =>
    rw [Integer.squareMultiply, if_pos (by simpa using small)]
    rfl
  | succ n ih =>
    rw [Integer.squareMultiply, Function.iterate_succ_apply,
      ← ih l.next (by rw [next]; dsimp only; omega)]
    split
    next done =>
      rw [next, done, Integer.squareMultiply]
      rfl
    next => rfl

end Powering

namespace Integer

/-- A power of integers. A negative exponent stands for the quotient toward zero, and for zero if
zero is the base. -/
def truncatedPower (x y : Int) : Int :=
  if 0 ≤ y then x ^ y.toNat
  else if x = 1 then 1
  else if x = -1 then (-1) ^ y.natAbs
  else 0

theorem truncatedPower_eq_tdiv {y : Int} (x : Int) (negative : y < 0) :
    truncatedPower x y = Int.tdiv 1 (x ^ y.natAbs) := by
  rw [truncatedPower, if_neg (Int.not_le.mpr negative)]
  obtain ⟨e, exponent⟩ : ∃ e, y.natAbs = e + 1 := ⟨y.natAbs - 1, by omega⟩
  rw [exponent]
  split
  next one => rw [one, one_pow, Int.tdiv_one]
  split
  next minusOne =>
    rw [minusOne]
    rcases neg_one_pow_eq_or Int (e + 1) with plus | minus
    · rw [plus, Int.tdiv_one]
    · rw [minus]; rfl
  next notOne notMinusOne =>
    by_cases zero : x = 0
    · rw [zero, zero_pow (Nat.succ_ne_zero e), Int.tdiv_zero]
    · have large : 2 ≤ x.natAbs := by omega
      have power : 1 < (x ^ (e + 1)).natAbs := by
        rw [Int.natAbs_pow]
        exact Nat.one_lt_pow (Nat.succ_ne_zero e) large
      refine (Int.natAbs_eq_zero.mp ?_).symm
      rw [Int.natAbs_tdiv]
      exact Nat.div_eq_of_lt power

theorem squareMultiply_modEq (b : Int) (e : Nat) : squareMultiply 1 b e ≡ b ^ e [ZMOD 2 ^ 64] := by
  have loop := Powering.value_iterate e ⟨1, b, e⟩
  have finished : (Powering.next^[e] ⟨1, b, e⟩).exponent = 0 := by
    rw [Powering.exponent_iterate, Nat.div_eq_of_lt Nat.lt_two_pow_self]
  rw [Powering.value, finished, pow_zero, mul_one,
    ← Powering.squareMultiply_eq ⟨1, b, e⟩ Nat.lt_two_pow_self] at loop
  refine loop.trans ?_
  rw [Powering.value, one_mul]

/-- Powers are computed modulo `2 ^ 64`. -/
theorem power_modEq (x y : Int) : power x y ≡ truncatedPower x y [ZMOD 2 ^ 64] := by
  rw [power, truncatedPower]
  by_cases negative : y < 0
  · rw [if_pos negative, if_neg (Int.not_le.mpr negative)]
    split
    next => exact Int.ModEq.refl _
    split
    next =>
      have parity : (if y % 2 = 1 then -1 else 1 : Int) = (-1) ^ y.natAbs := by
        split
        next odd => exact (Odd.neg_one_pow (by rw [Nat.odd_iff]; omega)).symm
        next even => exact (Even.neg_one_pow (by rw [Nat.even_iff]; omega)).symm
      rw [parity]
    next => exact Int.ModEq.refl _
  · rw [if_neg negative, if_pos (Int.not_lt.mp negative)]
    exact squareMultiply_modEq x y.toNat

end Integer

namespace IntType

variable {t : IntType} {x y : Int}

/-- All types but the unsigned integers of 64 bits are part of the signed ones. -/
theorem Holds.int64 (h : t.Holds x) (other : t ≠ uint64) : int64.Holds x := by
  obtain ⟨signed, width⟩ := t
  cases signed with
  | true => exact h.widen rfl rfl
  | false =>
    rw [holds_iff, if_neg Bool.false_ne_true] at h
    have small : modulus ⟨false, width⟩ ≤ 2 ^ 32 := by
      cases width <;> first | contradiction | decide
    have lower : -(2 ^ 64 / 2) ≤ x := by omega
    have upper : x < (2 ^ 64 + 1) / 2 := by omega
    exact holds_iff.mpr ⟨lower, upper⟩

/-- An exponent that is so large that it is taken for a negative one, although the power is that of
an odd number and not zero. -/
def Misreads (t : IntType) (x y : Int) : Prop :=
  t = uint64 ∧ 2 ^ 63 ≤ y ∧ x % 2 = 1 ∧ x ≠ 1 ∧ x ≠ 2 ^ 64 - 1

instance (t : IntType) (x y : Int) : Decidable (t.Misreads x y) :=
  inferInstanceAs (Decidable (_ ∧ _))

/-- What the power of two numbers is stored as. -/
def storedPower (t : IntType) (x y : Int) : Int :=
  if t.Misreads x y then 0 else t.wrap (Integer.truncatedPower x y)

theorem wrap_truncatedPower_ne_zero (h : t.Misreads x y) :
    t.wrap (Integer.truncatedPower x y) ≠ 0 := by
  obtain ⟨rfl, large, odd, -, -⟩ := h
  intro zero
  have power : Integer.truncatedPower x y = x ^ y.toNat := if_pos (by omega)
  have even : (2 : Int) ∣ x ^ y.toNat := by
    have divides : (2 ^ 64 : Int) ∣ x ^ y.toNat := Int.dvd_of_emod_eq_zero (power ▸ zero)
    exact (by decide : (2 : Int) ∣ 2 ^ 64).trans divides
  have : Odd (x ^ y.toNat) := (Int.odd_iff.mpr odd).pow
  exact (Int.not_even_iff_odd.mpr this) (even_iff_two_dvd.mpr even)

/-- The signed 64 bit integer with the same bits. -/
theorem int64_wrap_of_uint64 (h : uint64.Holds x) :
    int64.wrap x = if x < 2 ^ 63 then x else x - 2 ^ 64 := by
  have least := Int.emod_nonneg x (show (2 ^ 64 : Int) ≠ 0 by decide)
  have most := Int.emod_lt_of_pos x (show (0 : Int) < 2 ^ 64 by decide)
  have word : x % 2 ^ 64 = x := h
  change Int.bmod x (2 ^ 64) = _
  rw [Int.bmod_def]
  omega

/-- Powers of even numbers have no low bits. -/
theorem pow_modEq_zero (even : x % 2 = 0) {e : Nat} (large : 64 ≤ e) :
    x ^ e ≡ 0 [ZMOD 2 ^ 64] := by
  refine Int.modEq_zero_iff_dvd.mpr ((pow_dvd_pow 2 large).trans ?_)
  exact pow_dvd_pow_of_dvd (Int.dvd_of_emod_eq_zero even) e

/-- Large unsigned exponents. -/
theorem wrap_power_of_large (hx : uint64.Holds x) (hy : uint64.Holds y) (large : 2 ^ 63 ≤ y) :
    uint64.wrap (Integer.power (int64.wrap x) (int64.wrap y)) = uint64.storedPower x y := by
  have exponent : int64.wrap y = y - 2 ^ 64 := by
    rw [int64_wrap_of_uint64 hy, if_neg (Int.not_lt.mpr large)]
  have range : ∀ {z}, uint64.Holds z → 0 ≤ z ∧ z < 2 ^ 64 := by
    intro z hz
    have word : z % 2 ^ 64 = z := hz
    omega
  have boundsX := range hx
  have boundsY := range hy
  have base := int64_wrap_of_uint64 hx
  have power : Integer.truncatedPower x y = x ^ y.toNat := if_pos (by omega)
  rw [storedPower, exponent, power]
  by_cases one : x = 1
  · subst one
    rw [if_neg fun h => h.2.2.2.1 rfl, Integer.power, if_pos (by omega), if_pos (by decide),
      one_pow]
  by_cases last : x = 2 ^ 64 - 1
  · subst last
    have bit : int64.wrap (2 ^ 64 - 1) = -1 := by decide
    rw [if_neg fun h => h.2.2.2.2 rfl, bit]
    refine wrap_congr ((Integer.power_modEq (-1) _).trans ?_)
    have parity : Integer.truncatedPower (-1) (y - 2 ^ 64) = (-1) ^ y.toNat := by
      rw [Integer.truncatedPower, if_neg (by omega), if_neg (by decide), if_pos rfl]
      exact neg_one_pow_congr (by rw [Nat.even_iff, Nat.even_iff]; omega)
    rw [parity]
    have congruent : (-1 : Int) ≡ 2 ^ 64 - 1 [ZMOD 2 ^ 64] := by decide
    exact congruent.pow _
  have none : Integer.power (int64.wrap x) (y - 2 ^ 64) = 0 := by
    rw [Integer.power, if_pos (by omega), if_neg, if_neg]
    all_goals
      rw [base]
      split <;> omega
  rw [none, wrap_zero]
  split
  next => rfl
  next even =>
    have even : x % 2 = 0 := by
      by_contra odd
      exact even ⟨rfl, large, by omega, one, last⟩
    rw [← wrap_zero uint64]
    exact (wrap_congr (t := uint64) (pow_modEq_zero even (by omega))).symm

/-- What is computed in signed words and stored. -/
theorem wrap_power (hx : t.Holds x) (hy : t.Holds y) :
    t.wrap (Integer.power (int64.wrap x) (int64.wrap y)) = t.storedPower x y := by
  have words : ∀ z, t.wrap (Integer.power z y) = t.wrap (Integer.truncatedPower z y) := fun z =>
    wrap_congr ((Integer.power_modEq z y).of_dvd
      (Int.natCast_dvd_natCast.mpr (modulus_dvd_of_w64 t (u := int64) rfl)))
  by_cases other : t ≠ uint64
  · rw [storedPower, if_neg fun h => other h.1, hx.int64 other, hy.int64 other]
    exact words x
  · obtain rfl := Decidable.not_not.mp other
    by_cases large : 2 ^ 63 ≤ y
    · exact wrap_power_of_large hx hy large
    · have nonneg : 0 ≤ y := hy ▸ Int.emod_nonneg y (by decide)
      rw [storedPower, if_neg fun h => large h.2.1, int64_wrap_of_uint64 hy,
        if_pos (Int.not_le.mp large), words]
      refine wrap_congr ?_
      rw [Integer.truncatedPower, Integer.truncatedPower, if_pos nonneg, if_pos nonneg]
      exact (int64.wrap_modEq x).pow _

example : uint64.wrap (Integer.power (int64.wrap 3) (int64.wrap (2 ^ 63))) = 0 := by decide

/-- The power of natural exponents. -/
theorem storedPower_of_nonneg (readable : ¬ t.Misreads x y) (nonneg : 0 ≤ y) :
    t.storedPower x y = t.wrap (x ^ y.toNat) := by
  rw [storedPower, if_neg readable, Integer.truncatedPower, if_pos nonneg]

/-- Only signed types have negative exponents, and these types hold what such powers are. -/
theorem storedPower_of_neg (hy : t.Holds y) (negative : y < 0) :
    t.storedPower x y = if x = 1 then 1 else if x = -1 then (-1) ^ y.natAbs else 0 := by
  obtain ⟨signed, width⟩ := t
  cases signed with
  | false =>
    have word : y % (modulus ⟨false, width⟩ : Int) = y := hy
    have := Int.emod_nonneg y (Int.natCast_pos.mpr (modulus_pos ⟨false, width⟩)).ne'
    omega
  | true =>
    have held : ∀ z ∈ [-1, 0, 1], wrap ⟨true, width⟩ z = z := by cases width <;> decide
    have readable : ¬ Misreads ⟨true, width⟩ x y := by
      rintro ⟨-, large, -⟩
      omega
    rw [storedPower, if_neg readable, Integer.truncatedPower, if_neg (Int.not_le.mpr negative)]
    split
    next => exact held 1 (by decide)
    split
    next =>
      rcases neg_one_pow_eq_or Int y.natAbs with plus | minus
      · rw [plus]; exact held 1 (by decide)
      · rw [minus]; exact held (-1) (by decide)
    next => exact held 0 (by decide)

/-- Powers are computed in words of 64 bits. -/
theorem stores_power (t : IntType) :
    Instruction.Stores .power t fun x y => .ok (t.storedPower x y) :=
  Instruction.stores_of_words (by decide) (fun _ _ => rfl) fun x y hx hy =>
    ⟨.ok (Integer.power (int64.wrap x) (int64.wrap y)), rfl, congrArg Except.ok (wrap_power hx hy)⟩

end IntType

namespace Statement

open Instruction

variable {s : Statement} {t : IntType} {out left right : View} {b : BaseId}

/-- Integer powers are exact modulo the width, except that unsigned exponents of 64 bits with the
highest bit set are taken for negative ones. The kernel of a power of two inputs writes the power of
what they supply to the element of the output at each position. A natural exponent gives the power,
wrapped into the type, and a negative one the quotient toward zero. A misread exponent gives zero,
where the power is not zero. The loop that computes a power ends after 63 rounds. -/
theorem run_power (h : s.instr.CombinesIntegers .power t out left right b) (n m : Nat) :
    ((s.alone n m).run =
      (positions s.instr.shape).forM fun p => Exec.change (s.instr.step (s.instr.turns p))) ∧
    (∀ (a : Arena) (old : Array Int) (x y : List Int → Int), s.instr.Supplies a t 1 x →
      s.instr.Supplies a t 2 y → a.buffer? b = some ⟨.integer t, old⟩ → out.Covers old →
      (∀ ts p, ts.At p → InRange s.instr.shape p → s.instr.step ts a = .ok (a.setCells b t
        (old.modify (out.address p).toNat fun _ => t.storedPower (x p) (y p)))) ∧
      (out.addresses.Nodup → s.instr.KeepsInputs out → ∃ new,
        (s.alone n m).run a = (.ok (), a.setCells b t new) ∧
        (∀ p, InRange s.instr.shape p → out.read new p = t.storedPower (x p) (y p)) ∧
        ∀ k : Nat, (k : Int) ∉ out.addresses → new[k]? = old[k]?)) ∧
    (∀ x y, t.Holds x → t.Holds y →
      (¬ t.Misreads x y → 0 ≤ y → t.storedPower x y = t.wrap (x ^ y.toNat)) ∧
      (y < 0 → t.storedPower x y = if x = 1 then 1 else if x = -1 then (-1) ^ y.natAbs else 0) ∧
      (y < 0 → Integer.truncatedPower x y = Int.tdiv 1 (x ^ y.natAbs)) ∧
      (t.Misreads x y → t.storedPower x y = 0 ∧ t.wrap (x ^ y.toNat) ≠ 0)) ∧
    ∀ (r z : Int) (e : Nat), e < 2 ^ 63 → (Powering.next^[63] ⟨r, z, e⟩).exponent = 0 ∧
      Integer.squareMultiply r z e = (Powering.next^[63] ⟨r, z, e⟩).result := by
  have pointwise := h.fills.pointwise
  have computes : s.Computes := ⟨not_isSystem_of_isElementwise pointwise.elementwise, h.views⟩
  refine ⟨run_kernel_positions computes pointwise.elementwise n m, ?_, ?_, ?_⟩
  · intro a old x y first second data covered
    constructor
    · exact fun ts p at_p range =>
        h.step_of_supplies t.stores_power first second data covered at_p range
    · intro once keeps
      obtain ⟨done, rest, new, r, split, filled, ends, run⟩ :=
        run_combines h t.stores_power once keeps first second data covered n m
      obtain ⟨rfl, stored⟩ := FillsIntegers.read_of_ends split filled ends
      exact ⟨new, run, stored, h.fills.outside split filled⟩
  · intro x y hx hy
    refine ⟨IntType.storedPower_of_nonneg, IntType.storedPower_of_neg hy,
      Integer.truncatedPower_eq_tdiv x, fun misread => ⟨if_pos misread, ?_⟩⟩
    have power : Integer.truncatedPower x y = x ^ y.toNat := if_pos (by have := misread.2.1; omega)
    exact power ▸ IntType.wrap_truncatedPower_ne_zero misread
  · intro r z e small
    refine ⟨?_, Powering.squareMultiply_eq ⟨r, z, e⟩ small⟩
    rw [Powering.exponent_iterate]
    exact Nat.div_eq_of_lt small

/-- Powers of bytes. The first one wraps, and the others have negative exponents. -/
theorem run_power_bytes :
    let t : IntType := ⟨true, .w8⟩
    let out : View := .whole 0 (.integer t) 3
    let s : Statement := .fresh { opcode := .binary .power, operands :=
      [out, .whole 1 (.integer t) 3, .whole 2 (.integer t) 3] }
    let a : Arena := .ofList [.ofBuffer ⟨.integer t, (#[9, 9, 9] : Array Int)⟩,
      .ofBuffer ⟨.integer t, (#[3, -1, 2] : Array Int)⟩,
      .ofBuffer ⟨.integer t, (#[5, -3, -1] : Array Int)⟩]
    ∃ new, (s.alone 0 0).run a = (.ok (), a.setCells 0 t new) ∧
      out.read new [0] = -13 ∧ out.read new [1] = -1 ∧ out.read new [2] = 0 := by
  intro t out s a
  have h : s.instr.CombinesIntegers .power t out (.whole 1 (.integer t) 3)
      (.whole 2 (.integer t) 3) 0 := {
    opcode := rfl
    operands := rfl
    views := by decide
    whole := by decide
    types := by decide
    output := rfl }
  have x : s.instr.Supplies a t 1 _ :=
    .array rfl rfl rfl rfl (View.covers_whole _ _ rfl) (by decide)
  have y : s.instr.Supplies a t 2 _ :=
    .array rfl rfl rfl rfl (View.covers_whole _ _ rfl) (by decide)
  obtain ⟨-, runs, -, -⟩ := run_power h 0 0
  obtain ⟨new, run, stored, -⟩ :=
    (runs a _ _ _ x y rfl (View.covers_whole _ _ rfl)).2 (by decide) (by decide)
  have element : ∀ k ∈ [0, 1, 2], InRange s.instr.shape [k] := fun k hk =>
    mem_positions.mp (by revert k; decide)
  refine ⟨new, run, ?_, ?_, ?_⟩
  · exact (stored [0] (element 0 (by decide))).trans (by decide)
  · exact (stored [1] (element 1 (by decide))).trans (by decide)
  · exact (stored [2] (element 2 (by decide))).trans (by decide)

end Statement

end ArrayFusion
