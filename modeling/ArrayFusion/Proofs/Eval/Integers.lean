import ArrayFusion.Eval.Arithmetic
import Mathlib.Data.Int.ModEq
import Mathlib.Tactic.Linarith

/-!
# Integers in 64 bit words

Elements of all integer types are computed as 64 bit integers and narrowed when they are stored. For
the operations of folds and scans this is the operation of the type itself: the number of the type
that is congruent to the result, bit by bit for bitwise operations.
-/

namespace ArrayFusion

namespace IntType

variable {t u : IntType} {x y : Int}

theorem modulus_pos (t : IntType) : 0 < t.modulus := by
  rw [modulus, Nat.one_shiftLeft]
  exact Nat.two_pow_pos _

/-- Every type is as wide as 64 bits or narrower. -/
theorem modulus_dvd_of_w64 (t : IntType) (wide : u.width = .w64) : t.modulus ∣ u.modulus := by
  rw [modulus, modulus, Nat.one_shiftLeft, Nat.one_shiftLeft, wide]
  refine Nat.pow_dvd_pow 2 ?_
  cases t.width <;> decide

theorem wrap_congr (h : x ≡ y [ZMOD t.modulus]) : t.wrap x = t.wrap y := by
  rw [wrap, wrap]
  split
  · rw [Int.bmod_def, Int.bmod_def, h]
  · exact h

theorem wrap_modEq (t : IntType) (x : Int) : t.wrap x ≡ x [ZMOD t.modulus] := by
  rw [wrap]
  split
  · exact Int.bmod_emod
  · exact Int.mod_modEq x _

/-- A number that is stored in a word and then in a narrower one is stored in the narrower one. -/
theorem wrap_wrap (wide : u.width = .w64) (x : Int) : t.wrap (u.wrap x) = t.wrap x :=
  wrap_congr ((u.wrap_modEq x).of_dvd (Int.natCast_dvd_natCast.mpr (modulus_dvd_of_w64 t wide)))

/-- Numbers from zero up to the modulus stay different. -/
theorem eq_of_wrap_eq (same : t.wrap x = t.wrap y) (hx : 0 ≤ x ∧ x < t.modulus)
    (hy : 0 ≤ y ∧ y < t.modulus) : x = y := by
  have congruent : x ≡ y [ZMOD t.modulus] :=
    (t.wrap_modEq x).symm.trans (same ▸ t.wrap_modEq y)
  rwa [Int.ModEq, Int.emod_eq_of_lt hx.1 hx.2, Int.emod_eq_of_lt hy.1 hy.2] at congruent

theorem wrap_zero (t : IntType) : t.wrap 0 = 0 := by
  rw [wrap]
  split
  · exact Int.zero_bmod
  · exact Int.zero_emod _

theorem holds_wrap (t : IntType) (x : Int) : t.Holds (t.wrap x) := wrap_congr (t.wrap_modEq x)

theorem modEq_of_w64 (t : IntType) (wide : u.width = .w64) (x : Int) :
    u.wrap x ≡ x [ZMOD t.modulus] :=
  (u.wrap_modEq x).of_dvd (Int.natCast_dvd_natCast.mpr (modulus_dvd_of_w64 t wide))

/-- The lowest bits of a 64 bit word are congruent to it. -/
theorem toInt_setWidth_modEq (t : IntType) (v : BitVec 64) :
    (v.setWidth t.width.bits).toInt ≡ v.toInt [ZMOD t.modulus] := by
  have wide : (v.toNat : Int) ≡ v.toInt [ZMOD t.modulus] := by
    refine Int.ModEq.of_dvd (Int.natCast_dvd_natCast.mpr (modulus_dvd_of_w64 t (u := int64) rfl)) ?_
    rw [BitVec.toInt_eq_toNat_bmod]
    exact (Int.bmod_emod (m := 2 ^ 64)).symm
  refine Int.ModEq.trans ?_ wide
  rw [BitVec.toInt_setWidth, modulus, Nat.one_shiftLeft]
  exact Int.bmod_emod

theorem setWidth_ofInt (t : IntType) (x : Int) :
    (BitVec.ofInt 64 x).setWidth t.width.bits = BitVec.ofInt t.width.bits x := by
  have narrow : (BitVec.ofInt 64 x).toInt ≡ x [ZMOD t.modulus] := by
    rw [BitVec.toInt_ofInt]
    exact modEq_of_w64 t (u := int64) rfl x
  have congruent := (toInt_setWidth_modEq t (BitVec.ofInt 64 x)).trans narrow
  refine BitVec.eq_of_toInt_eq ?_
  rw [modulus, Nat.one_shiftLeft] at congruent
  rw [BitVec.toInt_ofInt, ← BitVec.toInt_bmod_cancel (BitVec.setWidth _ _), Int.bmod_def,
    Int.bmod_def, congruent]

/-- A number of an integer type during evaluation. -/
def scalar (t : IntType) (x : Int) : Scalar := if t.signed then .signed x else .unsigned x

end IntType

/-- What a fold makes of the result so far and the next element. The words of bitwise operations are
as wide as the type. -/
def Fold.apply (f : Fold) (t : IntType) (x y : Int) : Int :=
  match f with
  | .add => x + y
  | .multiply => x * y
  | .minimum => min x y
  | .maximum => max x y
  | .logicalAnd => (x != 0 && y != 0).toInt
  | .logicalOr => (x != 0 || y != 0).toInt
  | .logicalXor => ((x != 0) != (y != 0)).toInt
  | .bitwiseAnd => (BitVec.ofInt t.width.bits x &&& BitVec.ofInt t.width.bits y).toInt
  | .bitwiseOr => (BitVec.ofInt t.width.bits x ||| BitVec.ofInt t.width.bits y).toInt
  | .bitwiseXor => (BitVec.ofInt t.width.bits x ^^^ BitVec.ofInt t.width.bits y).toInt

/-- The result of the type that is stored. -/
def Fold.join (f : Fold) (t : IntType) (x y : Int) : Int := t.wrap (f.apply t x y)

/-- A bitwise operation on words whose lowest bits depend on the lowest bits of the words. -/
theorem IntType.wrap_bitwise (t : IntType) {f : BitVec 64 → BitVec 64 → BitVec 64}
    {g : BitVec t.width.bits → BitVec t.width.bits → BitVec t.width.bits}
    (bits : ∀ u v, (f u v).setWidth t.width.bits =
      g (u.setWidth t.width.bits) (v.setWidth t.width.bits)) (x y : Int) :
    t.wrap (Integer.bitwise f x y) =
      t.wrap (g (.ofInt t.width.bits x) (.ofInt t.width.bits y)).toInt := by
  refine wrap_congr ?_
  rw [Integer.bitwise, ← setWidth_ofInt, ← setWidth_ofInt, ← bits]
  exact (toInt_setWidth_modEq t _).symm

namespace IntType

variable {t : IntType} {x y : Int}

/-- A type holds the numbers between its bounds. -/
theorem holds_iff : t.Holds x ↔
    if t.signed then -((t.modulus : Int) / 2) ≤ x ∧ x < ((t.modulus : Int) + 1) / 2
    else 0 ≤ x ∧ x < t.modulus := by
  have positive : (0 : Int) < t.modulus := Int.natCast_pos.mpr t.modulus_pos
  rw [Holds, wrap]
  split
  · constructor
    · intro h
      exact h ▸ ⟨Int.le_bmod t.modulus_pos, Int.bmod_lt t.modulus_pos⟩
    · rintro ⟨least, most⟩
      exact Int.bmod_eq_of_le least most
  · constructor
    · intro h
      exact h ▸ ⟨Int.emod_nonneg x positive.ne', Int.emod_lt_of_pos x positive⟩
    · rintro ⟨least, most⟩
      exact Int.emod_eq_of_lt least most

/-- A number of a type is a number of the widest type with the same sign. -/
theorem Holds.widen {u : IntType} (h : t.Holds x) (sign : u.signed = t.signed)
    (wide : u.width = .w64) : u.Holds x := by
  have few : t.modulus ≤ u.modulus := Nat.le_of_dvd u.modulus_pos (modulus_dvd_of_w64 t wide)
  rw [holds_iff] at h ⊢
  rw [sign]
  split at h
  · rw [if_pos ‹_›]
    omega
  · rw [if_neg ‹_›]
    omega

/-- What is read of an element. -/
theorem ofElem_eq_scalar (h : t.Holds x) : Scalar.ofElem (.integer t) x = t.scalar x := by
  cases sign : t.signed with
  | true =>
    have word : int64.wrap x = x := h.widen (u := int64) sign.symm rfl
    simp [Scalar.ofElem, DType.isFloat, DType.isUnsignedInteger, scalar, sign, Elem.toInt, word]
  | false =>
    have word : uint64.wrap x = x := h.widen (u := uint64) sign.symm rfl
    have narrowed : uint64.wrap (int64.wrap x) = x := (wrap_wrap rfl x).trans word
    simp [Scalar.ofElem, DType.isFloat, DType.isUnsignedInteger, scalar, sign, Elem.toInt, narrowed]

/-- What is read of a constant. -/
theorem ofConstant_eq_scalar (h : t.Holds x) : Scalar.ofConstant (.integer t x) = t.scalar x := by
  have same : Scalar.ofConstant (.integer t x) = Scalar.ofElem (.integer t) x := rfl
  exact same.trans (ofElem_eq_scalar h)

theorem store_signed (t : IntType) (x : Int) (e : Int) :
    (Scalar.signed x).store (.integer t) e = t.wrap x := rfl

theorem store_unsigned (t : IntType) (x : Int) (e : Int) :
    (Scalar.unsigned x).store (.integer t) e = t.wrap x := wrap_wrap rfl x

/-- An element that is copied stays as it is. -/
theorem store_scalar (h : t.Holds x) (e : Int) : (t.scalar x).store (.integer t) e = x := by
  rw [scalar]
  split
  · exact h
  · exact (store_unsigned t x e).trans h

/-- A result that is kept in a 64 bit word is narrowed when it is stored. -/
theorem store_wrap (t : IntType) (x : Int) (e : Int) :
    (scalar ⟨t.signed, .w64⟩ (wrap ⟨t.signed, .w64⟩ x)).store (.integer t) e = t.wrap x := by
  rw [scalar]
  split
  · exact (store_signed t _ e).trans (wrap_wrap rfl x)
  · exact (store_unsigned t _ e).trans (wrap_wrap rfl x)

end IntType

/-- Numbers of a type are computed as numbers of the widest type with the same sign. -/
theorem Scalar.binary_scalar {op : Binary} {t : IntType} {x y : Int}
    (numeric : op ≠ .logicalAnd ∧ op ≠ .logicalOr ∧ op ≠ .logicalXor)
    (plain : Integer.compare? op x y = none) :
    Scalar.binary op (.integer t) (t.scalar x) (t.scalar y) =
      (Integer.binary op ⟨t.signed, .w64⟩ x y).map (·.map (IntType.scalar ⟨t.signed, .w64⟩)) := by
  obtain ⟨notAnd, notOr, notXor⟩ := numeric
  obtain ⟨signed, width⟩ := t
  cases signed <;> cases op <;> first | contradiction | rfl

namespace Fold

variable {t : IntType} {x y : Int}

/-- Folds that are no truth functions compute with words. -/
theorem exists_word (f : Fold)
    (numeric : f.operation ≠ .logicalAnd ∧ f.operation ≠ .logicalOr ∧ f.operation ≠ .logicalXor)
    (t u : IntType) (x y : Int) : ∃ z, Integer.binary f.operation u x y = .ok (some (u.wrap z)) ∧
      t.wrap z = f.join t x y := by
  cases f with
  | add => exact ⟨_, rfl, rfl⟩
  | multiply => exact ⟨_, rfl, rfl⟩
  | minimum =>
    refine ⟨_, rfl, congrArg t.wrap ?_⟩
    rw [Fold.apply]
    split <;> omega
  | maximum =>
    refine ⟨_, rfl, congrArg t.wrap ?_⟩
    rw [Fold.apply]
    split <;> omega
  | bitwiseAnd => exact ⟨_, rfl, t.wrap_bitwise (fun _ _ => BitVec.setWidth_and) x y⟩
  | bitwiseOr => exact ⟨_, rfl, t.wrap_bitwise (fun _ _ => BitVec.setWidth_or) x y⟩
  | bitwiseXor => exact ⟨_, rfl, t.wrap_bitwise (fun _ _ => BitVec.setWidth_xor) x y⟩
  | logicalAnd => exact absurd rfl numeric.1
  | logicalOr => exact absurd rfl numeric.2.1
  | logicalXor => exact absurd rfl numeric.2.2

/-- Joining two elements of a type is what the interpreter computes and stores. -/
theorem binary_eq_join (f : Fold) (t : IntType) (x y : Int) :
    ∃ z, Scalar.binary f.operation (.integer t) (t.scalar x) (t.scalar y) = .ok (some z) ∧
      ∀ e : Int, z.store (.integer t) e = f.join t x y := by
  have truth : ∀ (b : Bool) (e : Int), (Scalar.ofBool b).store (.integer t) e = t.wrap b.toInt :=
    fun b e => IntType.store_signed t b.toInt e
  have isTrue : ∀ x, (t.scalar x).isTrue = (x != 0) := by
    intro x
    rw [IntType.scalar]
    split <;> rfl
  by_cases numeric :
    f.operation ≠ .logicalAnd ∧ f.operation ≠ .logicalOr ∧ f.operation ≠ .logicalXor
  · obtain ⟨z, words, same⟩ := exists_word f numeric t ⟨t.signed, .w64⟩ x y
    have plain : Integer.compare? f.operation x y = none := by cases f <;> rfl
    exact ⟨_, by rw [Scalar.binary_scalar numeric plain, words]; rfl,
      fun e => (t.store_wrap z e).trans same⟩
  · cases f with
    | logicalAnd => exact ⟨_, rfl, fun e => by rw [truth, isTrue, isTrue]; rfl⟩
    | logicalOr => exact ⟨_, rfl, fun e => by rw [truth, isTrue, isTrue]; rfl⟩
    | logicalXor => exact ⟨_, rfl, fun e => by rw [truth, isTrue, isTrue]; rfl⟩
    | _ => exact absurd ⟨nofun, nofun, nofun⟩ numeric

end Fold

end ArrayFusion
