import ArrayFusion.Proofs.Eval.Filling
import Mathlib.Logic.Function.Basic

/-!
# Random numbers

The generator is a network of ten rounds on the halves of a counter. A round multiplies the low half
by an odd constant. The low half of the product becomes the new high half, and multiplying by the
inverse of the constant gives the old low half back, from which the product and then the old high
half can be computed. So every round is a bijection, and so is the generator, which is why a stream
never repeats a word. Arrays of 64 bit integers keep the words, narrower ones only their low bits.
-/

namespace ArrayFusion

open Shape View

namespace Philox

/-- Undoes the multiplication of a half, modulo `2 ^ 32`. -/
def inverse : UInt32 := 0xdcf5f49b

theorem inverse_mul_multiplier : inverse * multiplier.toUInt32 = 1 := by decide

/-- The low half of a product. -/
theorem toUInt32_product (x : UInt32) :
    (multiplier * x.toUInt64).toUInt32 = multiplier.toUInt32 * x := by
  simp

/-- The counter before a round. The low half comes from the product, the high half from what was
mixed with it. -/
def unround (key : UInt32) (c : Counter) : Counter :=
  let low := inverse * c.high
  ⟨low, ((multiplier * low.toUInt64) >>> 32).toUInt32 ^^^ key ^^^ c.low⟩

theorem unround_round (key : UInt32) (c : Counter) : unround key (round key c) = c := by
  have low : inverse * (multiplier * c.low.toUInt64).toUInt32 = c.low := by
    rw [toUInt32_product, ← UInt32.mul_assoc, inverse_mul_multiplier, UInt32.one_mul]
  simp only [unround, round, low]
  rw [← UInt32.xor_assoc, UInt32.xor_self, UInt32.zero_xor]

theorem round_unround (key : UInt32) (c : Counter) : round key (unround key c) = c := by
  have high : (multiplier * (inverse * c.high).toUInt64).toUInt32 = c.high := by
    rw [toUInt32_product, ← UInt32.mul_assoc, UInt32.mul_comm _ inverse, inverse_mul_multiplier,
      UInt32.one_mul]
  simp only [unround, round, high]
  rw [← UInt32.xor_assoc, UInt32.xor_self, UInt32.zero_xor]

theorem bijective_round (key : UInt32) : Function.Bijective (round key) :=
  Function.bijective_iff_has_inverse.mpr ⟨unround key, unround_round key, round_unround key⟩

theorem bijective_rounds (n : Nat) (key : UInt32) : Function.Bijective (rounds n key) := by
  induction n generalizing key with
  | zero => exact Function.bijective_id
  | succ n ih => exact (ih (key + keyStep)).comp (bijective_round key)

namespace Counter

/-- Halves of a word. -/
def ofWord (w : UInt64) : Counter := ⟨w.toUInt32, (w >>> 32).toUInt32⟩

/-- Word of two halves. -/
def toWord (c : Counter) : UInt64 := c.high.toUInt64 <<< 32 ||| c.low.toUInt64

theorem toNat_toWord (c : Counter) : c.toWord.toNat = c.high.toNat * 2 ^ 32 + c.low.toNat := by
  have low : c.low.toNat < 2 ^ 32 := c.low.toNat_lt
  have high : c.high.toNat < 2 ^ 32 := c.high.toNat_lt
  have shifted : (c.high.toUInt64 <<< 32).toNat = 2 ^ 32 * c.high.toNat := by
    simp [UInt64.toNat_shiftLeft, Nat.shiftLeft_eq]
    omega
  rw [toWord, UInt64.toNat_or, shifted, UInt32.toNat_toUInt64, ← Nat.two_pow_add_eq_or_of_lt low]
  omega

theorem toWord_ofWord (w : UInt64) : (ofWord w).toWord = w := by
  apply UInt64.toNat.inj
  rw [toNat_toWord]
  simp [ofWord, Nat.shiftRight_eq_div_pow]
  have := w.toNat_lt
  omega

theorem ofWord_toWord (c : Counter) : ofWord c.toWord = c := by
  obtain ⟨low, high⟩ := c
  have word := toNat_toWord ⟨low, high⟩
  have bounds : low.toNat < 2 ^ 32 ∧ high.toNat < 2 ^ 32 := ⟨low.toNat_lt, high.toNat_lt⟩
  dsimp only at word
  rw [ofWord, Counter.mk.injEq]
  constructor
  · apply UInt32.toNat.inj
    rw [UInt64.toNat_toUInt32, word]
    omega
  · apply UInt32.toNat.inj
    rw [UInt64.toNat_toUInt32, UInt64.toNat_shiftRight, word]
    simp only [Nat.shiftRight_eq_div_pow]
    change (_ / 2 ^ 32) % 2 ^ 32 = _
    omega

end Counter

theorem word_eq (start key index : UInt64) :
    word start key index = (rounds 10 key.toUInt32 (.ofWord (start + index))).toWord := rfl

/-- Every word is the random word of exactly one index. -/
theorem bijective_word (start key : UInt64) : Function.Bijective (word start key) := by
  have shift : Function.Bijective (start + ·) := by
    refine Function.bijective_iff_has_inverse.mpr ⟨(· - start), fun index => ?_, fun w => ?_⟩
    · change start + index - start = index
      rw [UInt64.add_comm, UInt64.add_sub_cancel]
    · change start + (w - start) = w
      rw [UInt64.add_comm, UInt64.sub_add_cancel]
  have cut : Function.Bijective Counter.ofWord := Function.bijective_iff_has_inverse.mpr
    ⟨Counter.toWord, Counter.toWord_ofWord, Counter.ofWord_toWord⟩
  have join : Function.Bijective Counter.toWord := Function.bijective_iff_has_inverse.mpr
    ⟨Counter.ofWord, Counter.ofWord_toWord, Counter.toWord_ofWord⟩
  exact join.comp ((bijective_rounds 10 _).comp (cut.comp shift))

/-- A stream is what comes after a part of it in the stream. -/
theorem word_congr {start start' index index' : UInt64} (key : UInt64)
    (same : start + index = start' + index') : word start key index = word start' key index' := by
  rw [word_eq, word_eq, same]

end Philox

namespace Instruction

/-- Random number at a position. -/
def randomAt (i : Instruction) (start key : UInt64) (p : List Int) : UInt64 :=
  Philox.word start key (UInt64.ofInt (number i.shape p))

variable {i : Instruction} {t : IntType} {out : View} {b : BaseId} {a : Arena} {ts : Turns}
  {p q : List Int} {cells : Array Int} {start key : UInt64}

/-- At every position the random word with the number of the position is written. -/
theorem effect?_random (evaluable : i.isEvaluable = true) (random : i.opcode = .random)
    (constant : i.constant = some (.random start key)) (at_p : ts.At p)
    (length : p.length = i.ndim) : i.effect? a ts =
      (i.writeTo (i.offset ts 0) (.unsigned (i.randomAt start key p).toNat)).map some := by
  have notSystem : i.opcode.isSystem = false := by rw [random]; rfl
  rw [effect?, notSystem, evaluable, random]
  simp only [constant]
  rw [randomAt, ← flatIndex_eq at_p length]
  rfl

namespace FillsIntegers

variable (h : i.FillsIntegers t out b)

include h

/-- A random number is narrowed and written to the element at the position. -/
theorem step_random (random : i.opcode = .random) (constant : i.constant = some (.random start key))
    (data : a.buffer? b = some ⟨.integer t, cells⟩) (covered : out.Covers cells) (at_p : ts.At p)
    (range : InRange i.shape p) : i.step ts a = .ok (a.setCells b t
      (cells.modify (out.address p).toNat fun _ => t.wrap (i.randomAt start key p).toNat)) := by
  have effect : i.effect? a ts = do
      return some (← i.writeTo (i.offset ts 0)
        (← Except.ok (.unsigned (i.randomAt start key p).toNat))) :=
    effect?_random h.evaluable random constant at_p range.length_eq
  exact h.step_eq data covered at_p range effect fun e =>
    congrArg Except.ok (t.store_unsigned _ e)

/-- An array with room for every position has fewer positions than elements. -/
theorem elementCount_le (once : out.addresses.Nodup) (covered : out.Covers cells) :
    elementCount i.shape ≤ cells.size := by
  have wf := h.pointwise.views out (List.mem_of_getElem? h.operand_zero)
  have count : out.addresses.length = (elementCount i.shape).toNat := by
    rw [addresses_eq wf.sizes, List.length_map, h.shape_eq,
      length_positions (shape_nonneg h.pointwise.views)]
  have apart : (out.addresses.map Int.toNat).Nodup := by
    refine once.map_on fun x hx y hy same => ?_
    have := (covered x hx).1
    have := (covered y hy).1
    omega
  have inside : out.addresses.map Int.toNat ⊆ List.range cells.size := by
    intro n hn
    obtain ⟨x, hx, rfl⟩ := List.mem_map.mp hn
    have := covered x hx
    exact List.mem_range.mpr (by omega)
  have few := (List.subperm_of_subset apart inside).length_le
  rw [List.length_map, List.length_range, count] at few
  omega

end FillsIntegers

/-- Different positions get different random numbers, unless there are too many of them. -/
theorem randomAt_ne (few : elementCount i.shape ≤ 2 ^ 64) (hp : InRange i.shape p)
    (hq : InRange i.shape q) (apart : p ≠ q) : i.randomAt start key p ≠ i.randomAt start key q := by
  intro same
  have index := (Philox.bijective_word start key).injective same
  have boundsP := And.intro (number_nonneg hp) (number_lt hp)
  have boundsQ := And.intro (number_nonneg hq) (number_lt hq)
  have words := congrArg UInt64.toNat index
  simp only [UInt64.ofInt, UInt64.toNat_ofNat'] at words
  exact apart (number_inj hp hq (by omega))

/-- Words stay different as 64 bit integers. -/
theorem wrap_toNat_ne (wide : t.width = .w64) {v w : UInt64} (apart : v ≠ w) :
    t.wrap v.toNat ≠ t.wrap w.toNat := by
  intro same
  have modulus : t.modulus = 2 ^ 64 := by
    rw [IntType.modulus, wide]
    rfl
  have small := And.intro v.toNat_lt w.toNat_lt
  have words : (v.toNat : Int) = w.toNat :=
    IntType.eq_of_wrap_eq same ⟨by omega, by omega⟩ ⟨by omega, by omega⟩
  exact apart (UInt64.toNat.inj (by omega))

end Instruction

namespace Statement

open Instruction

variable {s : Statement} {t : IntType} {out : View} {b : BaseId} {a : Arena} {old : Array Int}
  {start key : UInt64}

/-- The kernel of a random statement alone fills the output with its random numbers. -/
theorem run_fills_random (h : s.instr.FillsIntegers t out b) (random : s.instr.opcode = .random)
    (constant : s.instr.constant = some (.random start key)) (once : out.addresses.Nodup)
    (data : a.buffer? b = some ⟨.integer t, old⟩) (covered : out.Covers old) (n m : Nat) :
    ∃ new, (s.alone n m).run a = (.ok (), a.setCells b t new) ∧
      (∀ p, InRange s.instr.shape p →
        out.read new p = t.wrap (s.instr.randomAt start key p).toNat) ∧
      ∀ k : Nat, (k : Int) ∉ out.addresses → new[k]? = old[k]? := by
  refine run_fills h once data covered (fun a cells p range known covers => ?_) n m
  exact h.step_random random constant known covers (s.instr.standsAt_turns p).at_p range

/-- The random generator never repeats within a stream. For every start and key it is a bijection of
the words, it depends on the start and the index through their sum only, and a stream that goes on
from a later start is the tail of the stream. A random statement alone goes through its positions
and writes at each of them the word with the number of the position; at most `2 ^ 64` positions have
different words. An output of integers without overlaps gets the words narrowed to its type, so that
different positions have different elements if the integers have 64 bits. -/
theorem run_random (pointwise : s.instr.Pointwise) (evaluable : s.instr.isEvaluable = true)
    (random : s.instr.opcode = .random) (constant : s.instr.constant = some (.random start key))
    (n m : Nat) :
    (∀ start key, Function.Bijective (Philox.word start key)) ∧
    (∀ start start' key index index', start + index = start' + index' →
      Philox.word start key index = Philox.word start' key index') ∧
    (∀ start key count index,
      Philox.word (start + count) key index = Philox.word start key (count + index)) ∧
    ((s.alone n m).run =
      (positions s.instr.shape).forM fun p => Exec.change (s.instr.step (s.instr.turns p))) ∧
    (∀ a ts p, ts.At p → InRange s.instr.shape p → s.instr.effect? a ts =
      (s.instr.writeTo (s.instr.offset ts 0)
        (.unsigned (s.instr.randomAt start key p).toNat)).map some) ∧
    (elementCount s.instr.shape ≤ 2 ^ 64 → ∀ p q, InRange s.instr.shape p →
      InRange s.instr.shape q → p ≠ q →
        s.instr.randomAt start key p ≠ s.instr.randomAt start key q) ∧
    ∀ t out b, s.instr.FillsIntegers t out b → out.addresses.Nodup →
      ∀ (a : Arena) (old : Array Int), a.buffer? b = some ⟨.integer t, old⟩ → out.Covers old →
        ∃ new, (s.alone n m).run a = (.ok (), a.setCells b t new) ∧
          (∀ p, InRange s.instr.shape p →
            out.read new p = t.wrap (s.instr.randomAt start key p).toNat) ∧
          (∀ k : Nat, (k : Int) ∉ out.addresses → new[k]? = old[k]?) ∧
          (t.width = .w64 → old.size ≤ 2 ^ 64 → ∀ p q, InRange s.instr.shape p →
            InRange s.instr.shape q → p ≠ q → out.read new p ≠ out.read new q) := by
  have elementwise := pointwise.elementwise
  have computes : s.Computes := ⟨not_isSystem_of_isElementwise elementwise, pointwise.views⟩
  refine ⟨Philox.bijective_word, fun _ _ key _ _ => Philox.word_congr key,
    fun _ key _ _ => Philox.word_congr key (UInt64.add_assoc _ _ _),
    run_kernel_positions computes elementwise n m,
    fun a ts p at_p range => effect?_random evaluable random constant at_p range.length_eq,
    fun few p q => randomAt_ne few, fun t out b h once a old data covered => ?_⟩
  obtain ⟨new, run, stored, others⟩ := run_fills_random h random constant once data covered n m
  refine ⟨new, run, stored, others, fun wide small p q hp hq apart => ?_⟩
  have few : elementCount s.instr.shape ≤ 2 ^ 64 := by
    have := h.elementCount_le once covered
    omega
  have words : s.instr.randomAt start key p ≠ s.instr.randomAt start key q :=
    randomAt_ne few hp hq apart
  rw [stored p hp, stored q hq]
  exact wrap_toNat_ne wide words

/-- A stream of three words starts at the largest counter and goes on at zero. -/
theorem run_random_overflow :
    let t := IntType.uint64
    let out : View := .whole 0 (.integer t) 3
    let s : Statement := .fresh {
      opcode := .random, operands := [out, .constant .random]
      constant := some (.random (.ofNat (2 ^ 64 - 1)) 7) }
    let a : Arena := .ofList [.ofBuffer ⟨.integer t, (#[0, 0, 0] : Array Int)⟩]
    ∃ new, (s.alone 0 0).run a = (.ok (), a.setCells 0 t new) ∧
      out.read new [1] = (Philox.word 0 7 0).toNat ∧ out.read new [0] ≠ out.read new [2] := by
  intro t out s a
  have h : s.instr.FillsIntegers t out 0 := {
    pointwise := by decide
    evaluable := rfl
    operand_zero := rfl
    output := rfl
    outType := rfl }
  have covered : out.Covers #[0, 0, 0] := View.covers_whole 0 _ rfl
  obtain ⟨-, congr, -, -, -, -, fills⟩ := run_random h.pointwise h.evaluable rfl rfl 0 0
  obtain ⟨new, run, stored, -, apart⟩ := fills t out 0 h (by decide) a _ rfl covered
  have range : ∀ k ∈ [0, 1, 2], InRange s.instr.shape [k] := fun k hk =>
    mem_positions.mp (by revert k; decide)
  refine ⟨new, run, ?_, apart rfl (by decide) [0] [2] (range 0 (by decide)) (range 2 (by decide))
    (by decide)⟩
  rw [stored [1] (range 1 (by decide)), randomAt, congr _ 0 7 _ 0 (by decide +kernel)]
  exact Int.emod_eq_of_lt (Int.natCast_nonneg _) (by exact_mod_cast UInt64.toNat_lt _)

/-- The random numbers at two positions have the same low bits, so that two bytes are equal. -/
theorem random_repeats_bytes :
    let t : IntType := ⟨false, .w8⟩
    let out : View := .whole 0 (.integer t) 2
    let s : Statement := .fresh {
      opcode := .random, operands := [out, .constant .random]
      constant := some (.random 0 992) }
    let a : Arena := .ofList [.ofBuffer ⟨.integer t, (#[0, 0] : Array Int)⟩]
    ∃ new, (s.alone 0 0).run a = (.ok (), a.setCells 0 t new) ∧
      ¬ ∀ p q, InRange s.instr.shape p → InRange s.instr.shape q → p ≠ q →
        out.read new p ≠ out.read new q := by
  intro t out s a
  have h : s.instr.FillsIntegers t out 0 := {
    pointwise := by decide
    evaluable := rfl
    operand_zero := rfl
    output := rfl
    outType := rfl }
  have covered : out.Covers #[0, 0] := View.covers_whole 0 _ rfl
  obtain ⟨new, run, stored, -⟩ := run_fills_random (a := a) h rfl rfl (by decide) rfl covered 0 0
  have first := mem_positions.mp (show [0] ∈ positions s.instr.shape by decide)
  have second := mem_positions.mp (show [1] ∈ positions s.instr.shape by decide)
  refine ⟨new, run, fun distinct => distinct [0] [1] first second (by decide) ?_⟩
  rw [stored [0] first, stored [1] second]
  decide +kernel

end Statement

end ArrayFusion
