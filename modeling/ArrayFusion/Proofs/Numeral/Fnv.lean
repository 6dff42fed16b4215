import ArrayFusion.Numeral.Fnv
import Mathlib.Logic.Function.Basic

/-!
# What the kernel hash keeps apart

A byte is mixed into the state by an exclusive or and an odd factor. Both can be undone, so that a
byte takes different states to different states, and with it any further bytes do. Two byte strings
that differ in one place therefore have different hashes: up to there their states are the same,
there they part, and what follows is the same for both and never joins them again.
-/

namespace ArrayFusion.Fnv

variable {state : UInt64} {xs ys : List UInt8}

/-- Undoes the multiplication of a state, modulo `2 ^ 64`. -/
def inverse : UInt64 := 0xce965057aff6957b

theorem prime_mul_inverse : 0x100000001b3 * inverse = 1 := by decide

/-- The state before a byte. -/
def unstep (state : UInt64) (byte : UInt8) : UInt64 := (state * inverse) ^^^ byte.toUInt64

theorem unstep_step (state : UInt64) (byte : UInt8) : unstep (step state byte) byte = state := by
  rw [unstep, step, UInt64.mul_assoc, prime_mul_inverse, UInt64.mul_one, UInt64.xor_assoc,
    UInt64.xor_self, UInt64.xor_zero]

theorem step_unstep (state : UInt64) (byte : UInt8) : step (unstep state byte) byte = state := by
  rw [step, unstep, UInt64.xor_assoc, UInt64.xor_self, UInt64.xor_zero, UInt64.mul_assoc,
    UInt64.mul_comm inverse, prime_mul_inverse, UInt64.mul_one]

/-- A byte takes every state to a state of its own, and leaves none out. -/
theorem bijective_step (byte : UInt8) : Function.Bijective (step · byte) :=
  Function.bijective_iff_has_inverse.mpr
    ⟨(unstep · byte), (unstep_step · byte), (step_unstep · byte)⟩

/-- Any bytes take every state to a state of its own, and leave none out. -/
theorem bijective_write (bytes : List UInt8) : Function.Bijective (write · bytes) := by
  induction bytes with
  | nil => exact Function.bijective_id
  | cons byte bytes ih => exact ih.comp (bijective_step byte)

/-- From one state, different bytes lead to different states. -/
theorem injective_step (state : UInt64) : Function.Injective (step state) := by
  intro x y same
  have mixed := congrArg (· * inverse) same
  simp only [step, UInt64.mul_assoc, prime_mul_inverse, UInt64.mul_one] at mixed
  have bytes : x.toUInt64 = y.toUInt64 := (UInt64.xor_right_inj state).mp mixed
  exact UInt8.toUInt64_inj.mp bytes

/-- The byte strings have the same length and different bytes in exactly one place. -/
def DifferOnce (xs ys : List UInt8) : Prop :=
  xs.length = ys.length ∧ ∃! k : Nat, xs[k]? ≠ ys[k]?

/-- Strings that differ in one place agree in front of it and behind it. -/
theorem differOnce_iff : DifferOnce xs ys ↔
    ∃ front x y back, xs = front ++ x :: back ∧ ys = front ++ y :: back ∧ x ≠ y := by
  constructor
  · rintro ⟨length, k, differ, only⟩
    have agree : ∀ n, n ≠ k → xs[n]? = ys[n]? := fun n other => by
      by_contra parted
      exact other (only n parted)
    have inside : k < xs.length := by
      by_contra beyond
      apply differ
      rw [List.getElem?_eq_none (by omega), List.getElem?_eq_none (by omega)]
    have inside' : k < ys.length := length ▸ inside
    have front : xs.take k = ys.take k := by
      apply List.ext_getElem?
      intro n
      rw [List.getElem?_take, List.getElem?_take]
      split
      · exact agree n (by omega)
      · rfl
    have back : xs.drop (k + 1) = ys.drop (k + 1) := by
      apply List.ext_getElem?
      intro n
      rw [List.getElem?_drop, List.getElem?_drop]
      exact agree _ (by omega)
    refine ⟨xs.take k, xs[k], ys[k], xs.drop (k + 1), ?_, ?_, ?_⟩
    · rw [← List.drop_eq_getElem_cons inside, List.take_append_drop]
    · rw [front, back, ← List.drop_eq_getElem_cons inside', List.take_append_drop]
    · simpa [List.getElem?_eq_getElem inside, List.getElem?_eq_getElem inside'] using differ
  · rintro ⟨front, x, y, back, rfl, rfl, differ⟩
    refine ⟨by simp, front.length, by simpa using differ, fun n parted => ?_⟩
    by_contra other
    apply parted
    rcases Nat.lt_or_gt_of_ne other with before | behind
    · rw [List.getElem?_append_left before, List.getElem?_append_left before]
    · obtain ⟨m, rfl⟩ := Nat.exists_eq_add_of_lt behind
      rw [List.getElem?_append_right (by omega), List.getElem?_append_right (by omega),
        show front.length + m + 1 - front.length = m + 1 by omega]
      rfl

/-- States that part at the byte that is not the same never meet again. -/
theorem write_ne (state : UInt64) (h : DifferOnce xs ys) : write state xs ≠ write state ys := by
  obtain ⟨front, x, y, back, rfl, rfl, differ⟩ := differOnce_iff.mp h
  rw [write_append, write_append]
  intro met
  have parted : step (write state front) x = step (write state front) y :=
    (bijective_write back).injective met
  exact differ (injective_step _ parted)

/-- What the kernel hash keeps apart. Bytes may be written in pieces. No byte and no further bytes
join two states. So byte strings of one length that differ in exactly one byte have different
hashes, from whatever state, and so have texts whose bytes do. -/
theorem separates_edits :
    (∀ state xs ys, write (write state xs) ys = write state (xs ++ ys)) ∧
    (∀ byte, Function.Bijective (step · byte)) ∧
    (∀ state xs ys, DifferOnce xs ys → write state xs ≠ write state ys) ∧
    ∀ s t : String, DifferOnce s.toUTF8.toList t.toUTF8.toList → ofText s ≠ ofText t := by
  refine ⟨fun state xs ys => (write_append state xs ys).symm, bijective_step,
    fun state xs ys => write_ne state, fun s t differ same => ?_⟩
  apply write_ne start differ
  -- The closing byte of a text is one more step.
  exact (bijective_step 0xff).injective same

/-- Two sources that differ in one digit. -/
theorem separates_edits_digits :
    DifferOnce "a[3] = 1;".toUTF8.toList "a[3] = 2;".toUTF8.toList ∧
      ofText "a[3] = 1;" ≠ ofText "a[3] = 2;" := by
  have differ : DifferOnce "a[3] = 1;".toUTF8.toList "a[3] = 2;".toUTF8.toList :=
    differOnce_iff.mpr ⟨"a[3] = ".toUTF8.toList, 49, 50, [59],
      by decide +kernel, by decide +kernel, by decide⟩
  exact ⟨differ, separates_edits.2.2.2 _ _ differ⟩

end ArrayFusion.Fnv
