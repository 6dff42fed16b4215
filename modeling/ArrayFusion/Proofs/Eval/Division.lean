import ArrayFusion.Proofs.Eval.Filling

/-!
# Division of integers

Elements of all integer types are divided as 64 bit integers, toward zero, and what this leaves is
put right by the signs. The result is floor division of the type itself: the quotient is rounded
down, with the remainder that belongs to it. The third operation has the remainder of division
toward zero. Remainders lie between zero and one of the operands and are never narrowed. Of the
quotients only the smallest number divided by minus one does not fit.
-/

namespace ArrayFusion

open Shape View

namespace Integer

variable {x y : Int}

theorem floorQuotient_eq_fdiv (nonzero : y ≠ 0) : floorQuotient x y = x.fdiv y := by
  rw [floorQuotient, Int.fdiv_eq_tdiv]
  by_cases divides : y ∣ x
  · have exact : x.tmod y = 0 := Int.tmod_eq_zero_of_dvd divides
    rw [if_neg fun h => h.2 exact, if_pos divides, Int.sub_zero]
  · have rest : x.tmod y ≠ 0 := fun h => divides (Int.dvd_of_tmod_eq_zero h)
    have dividend : x ≠ 0 := fun h => divides (h ▸ Int.dvd_zero y)
    rcases Int.lt_or_gt_of_ne nonzero with negative | positive
    · simp only [divides, Int.sign_eq_neg_one_of_neg negative]
      grind
    · simp only [divides, Int.sign_eq_one_of_pos positive]
      grind

theorem floorRemainder_eq_fmod (x y : Int) : floorRemainder x y = x.fmod y := by
  rw [floorRemainder, Int.fmod_eq_tmod]
  by_cases divides : y ∣ x
  · have exact : x.tmod y = 0 := Int.tmod_eq_zero_of_dvd divides
    simp [exact, divides]
  · have rest : x.tmod y ≠ 0 := fun h => divides (Int.dvd_of_tmod_eq_zero h)
    have dividend : x ≠ 0 := fun h => divides (h ▸ Int.dvd_zero y)
    have sign : (x.tmod y).sign = x.sign := by rw [Int.sign_tmod, if_neg divides]
    have below : x.tmod y < 0 ↔ x < 0 := by
      rw [← Int.sign_eq_neg_one_iff_neg, sign, Int.sign_eq_neg_one_iff_neg]
    simp only [divides, below]
    grind

/-- The rest of floor division lies between zero and the divisor. -/
theorem fmod_between (x : Int) (nonzero : y ≠ 0) :
    0 ≤ x.fmod y ∧ x.fmod y < y ∨ y < x.fmod y ∧ x.fmod y ≤ 0 := by
  rcases Int.lt_or_gt_of_ne nonzero with negative | positive
  · have least := Int.fmod_nonneg_of_pos (-x) (Int.neg_pos_of_neg negative)
    have most := Int.fmod_lt_of_pos (-x) (Int.neg_pos_of_neg negative)
    rw [Int.neg_fmod_neg] at least most
    omega
  · exact .inl ⟨Int.fmod_nonneg_of_pos x positive, Int.fmod_lt_of_pos x positive⟩

/-- The rest of division toward zero lies between zero and the dividend. -/
theorem tmod_between (x y : Int) : 0 ≤ x.tmod y ∧ x.tmod y ≤ x ∨ x ≤ x.tmod y ∧ x.tmod y ≤ 0 := by
  have small : (x.tmod y).natAbs ≤ x.natAbs := Int.natAbs_tmod x y ▸ Nat.mod_le _ _
  rcases Int.le_total 0 x with nonneg | nonpos
  · have := Int.tmod_nonneg y nonneg
    omega
  · have := Int.tmod_nonneg y (Int.neg_nonneg_of_nonpos nonpos)
    rw [Int.neg_tmod] at this
    omega

end Integer

theorem IntType.Holds.of_between {t : IntType} {x y : Int} (h : t.Holds y)
    (between : 0 ≤ x ∧ x ≤ y ∨ y ≤ x ∧ x ≤ 0) : t.Holds x := by
  have positive : 0 < t.modulus := t.modulus_pos
  rw [holds_iff] at h ⊢
  split at h
  · rw [if_pos ‹_›]
    omega
  · rw [if_neg ‹_›]
    omega

/-- Operations that divide integers. -/
inductive Division where
  /-- Rounded down. -/
  | quotient
  /-- Rest of division toward zero. -/
  | modulo
  /-- Rest of floor division. -/
  | remainder
  deriving DecidableEq

namespace Division

variable {d : Division} {t : IntType} {x y : Int}

def operation : Division → Binary
  | quotient => .divide
  | modulo => .mod
  | remainder => .remainder

/-- What is stored for a divisor that is not zero. -/
def apply (d : Division) (t : IntType) (x y : Int) : Int :=
  match d with
  | quotient => t.wrap (x.fdiv y)
  | modulo => x - y * x.tdiv y
  | remainder => x - y * x.fdiv y

/-- Nothing can be divided by zero. -/
def result (d : Division) (t : IntType) (x y : Int) : Except Fault Int :=
  if y = 0 then .error (.divisionByZero d.operation) else .ok (d.apply t x y)

theorem of_result_eq_ok {z : Int} (h : d.result t x y = .ok z) :
    (y != 0) = true ∧ z = d.apply t x y := by
  rw [result] at h
  split at h
  next => contradiction
  next nonzero => exact ⟨bne_iff_ne.mpr nonzero, (Except.ok.inj h).symm⟩

theorem of_result_eq_error {e : Fault} (h : d.result t x y = .error e) :
    y = 0 ∧ e = .divisionByZero d.operation := by
  rw [result] at h
  split at h
  next zero => exact ⟨zero, (Except.error.inj h).symm⟩
  next => contradiction

theorem holds_apply (d : Division) (hx : t.Holds x) (hy : t.Holds y) (nonzero : y ≠ 0) :
    t.Holds (d.apply t x y) := by
  cases d with
  | quotient => exact t.holds_wrap _
  | modulo =>
    rw [apply, ← Int.tmod_def]
    exact hx.of_between (Integer.tmod_between x y)
  | remainder =>
    rw [apply, ← Int.fmod_def]
    have := Integer.fmod_between x nonzero
    exact hy.of_between (by omega)

/-- Division in 64 bit words is division in the type. -/
theorem stores (d : Division) (t : IntType) : Instruction.Stores d.operation t (d.result t) := by
  refine Instruction.stores_of_words (by cases d <;> decide) (fun _ _ => by cases d <;> rfl)
    fun x y hx hy => ?_
  by_cases zero : y = 0
  · refine ⟨.error (.divisionByZero d.operation), ?_, by rw [result, if_pos zero]; rfl⟩
    cases d <;> exact if_pos zero
  · rw [result, if_neg zero]
    have held := d.holds_apply hx hy zero
    cases d with
    | quotient =>
      exact ⟨.ok (x.fdiv y),
        (if_neg zero).trans (by rw [Integer.floorQuotient_eq_fdiv zero]; rfl), rfl⟩
    | modulo =>
      refine ⟨.ok (x.tmod y), if_neg zero, congrArg Except.ok ?_⟩
      rw [apply, ← Int.tmod_def] at held ⊢
      exact held
    | remainder =>
      refine ⟨.ok (x.fmod y),
        (if_neg zero).trans (by rw [Integer.floorRemainder_eq_fmod]; rfl), congrArg Except.ok ?_⟩
      rw [apply, ← Int.fmod_def] at held ⊢
      exact held

/-- The remainder is zero or has the sign of the divisor, and it is smaller. -/
theorem apply_remainder (t : IntType) (x : Int) (nonzero : y ≠ 0) :
    (remainder.apply t x y = 0 ∨ (remainder.apply t x y).sign = y.sign) ∧
      (remainder.apply t x y).natAbs < y.natAbs := by
  have between := Integer.fmod_between x nonzero
  rw [apply, ← Int.fmod_def]
  refine ⟨?_, by omega⟩
  by_cases exact : x.fmod y = 0
  · exact .inl exact
  · right
    rcases Int.lt_or_gt_of_ne nonzero with negative | positive
    · rw [Int.sign_eq_neg_one_of_neg negative, Int.sign_eq_neg_one_of_neg (by omega)]
    · rw [Int.sign_eq_one_of_pos positive, Int.sign_eq_one_of_pos (by omega)]

/-- Quotient and remainder make up the dividend. -/
theorem quotient_mul_add_remainder (t : IntType) (x y : Int) :
    quotient.apply t x y * y + remainder.apply t x y ≡ x [ZMOD t.modulus] := by
  have sum : x.fdiv y * y + (x - y * x.fdiv y) = x := by
    rw [Int.mul_comm]
    omega
  have quotients := ((t.wrap_modEq (x.fdiv y)).mul_right y).add_right (x - y * x.fdiv y)
  rwa [sum] at quotients

end Division

namespace Statement

open Instruction

variable {s : Statement} {t : IntType} {out left right : View} {b : BaseId}

/-- Integer division is floor division on the whole range. The kernel of a division of two inputs
runs the division at its positions in row-major order. Wherever the inputs supply numbers of their
type, the element of the output there gets the quotient rounded down, or the rest of one of the
divisions, and where the divisor is zero nothing is written and the division faults. So an output
without overlaps is filled up to the first divisor that is zero, if there is one, and all its other
elements are kept. -/
theorem run_division (d : Division) (h : s.instr.CombinesIntegers d.operation t out left right b)
    (n m : Nat) :
    ((s.alone n m).run =
      (positions s.instr.shape).forM fun p => Exec.change (s.instr.step (s.instr.turns p))) ∧
    (∀ (a : Arena) (old : Array Int) (x y : List Int → Int), s.instr.Supplies a t 1 x →
      s.instr.Supplies a t 2 y → a.buffer? b = some ⟨.integer t, old⟩ → out.Covers old →
      (∀ ts p, ts.At p → InRange s.instr.shape p → s.instr.step ts a =
        if y p = 0 then .error (.divisionByZero d.operation)
        else .ok (a.setCells b t
          (old.modify (out.address p).toNat fun _ => d.apply t (x p) (y p)))) ∧
      (out.addresses.Nodup → s.instr.KeepsInputs out → ∃ new,
        (s.alone n m).run a = (if ∀ p ∈ positions s.instr.shape, y p ≠ 0 then .ok ()
          else .error (.divisionByZero d.operation), a.setCells b t new) ∧
        (∀ p ∈ (positions s.instr.shape).takeWhile (y · != 0),
          out.read new p = d.apply t (x p) (y p)) ∧
        (∀ p ∈ (positions s.instr.shape).dropWhile (y · != 0), out.read new p = out.read old p) ∧
        ∀ k : Nat, (k : Int) ∉ out.addresses → new[k]? = old[k]?)) ∧
    (Fault.divisionByZero d.operation).kind = .invalidArgument ∧
    ∀ x y : Int, y ≠ 0 →
      (Division.remainder.apply t x y = 0 ∨ (Division.remainder.apply t x y).sign = y.sign) ∧
      (Division.remainder.apply t x y).natAbs < y.natAbs ∧
      Division.quotient.apply t x y * y + Division.remainder.apply t x y ≡ x [ZMOD t.modulus] := by
  have pointwise := h.fills.pointwise
  have computes : s.Computes := ⟨not_isSystem_of_isElementwise pointwise.elementwise, h.views⟩
  refine ⟨run_kernel_positions computes pointwise.elementwise n m, ?_, rfl, ?_⟩
  · intro a old x y first second data covered
    constructor
    · intro ts p at_p range
      rw [h.step_of_supplies (d.stores t) first second data covered at_p range, Division.result]
      split <;> rfl
    · intro once keeps
      obtain ⟨done, rest, new, r, split, filled, ends, run⟩ :=
        run_combines h (d.stores t) once keeps first second data covered n m
      have stored : ∀ p ∈ done, (y p != 0) = true ∧ out.read new p = d.apply t (x p) (y p) :=
        fun p hp => Division.of_result_eq_ok (filled.stored p hp)
      have kept : ∀ p ∈ rest, out.read new p = out.read old p :=
        fun p hp => h.fills.read_eq once covered split filled hp
      have nonzero : ∀ p ∈ done, (y p != 0) = true := fun p hp => (stored p hp).1
      obtain ⟨before, behind⟩ := ends.splits nonzero fun p e fault => by
        simp [(Division.of_result_eq_error fault).1]
      refine ⟨new, run.trans (congrArg (·, a.setCells b t new) ?_), ?_, ?_,
        h.fills.outside split filled⟩
      all_goals rw [split]
      · cases ends with
        | done =>
          rw [List.append_nil, if_pos fun p hp => bne_iff_ne.mp (nonzero p hp)]
        | stopped rest fault =>
          obtain ⟨zero, rfl⟩ := Division.of_result_eq_error fault
          rw [if_neg fun all => all _ (by simp) zero]
      · rw [before]
        exact fun p hp => (stored p hp).2
      · rw [behind]
        exact kept
  · intro x y nonzero
    obtain ⟨sign, small⟩ := Division.apply_remainder t x nonzero
    exact ⟨sign, small, Division.quotient_mul_add_remainder t x y⟩

/-- Bytes are divided. The second quotient wraps, and at the third position the run stops. -/
theorem run_division_bytes :
    let t : IntType := ⟨true, .w8⟩
    let s : Statement := .fresh { opcode := .binary .divide, operands :=
      [.whole 0 (.integer t) 3, .whole 1 (.integer t) 3, .whole 2 (.integer t) 3] }
    let a : Arena := .ofList [.ofBuffer ⟨.integer t, (#[9, 9, 9] : Array Int)⟩,
      .ofBuffer ⟨.integer t, (#[-7, -128, 5] : Array Int)⟩,
      .ofBuffer ⟨.integer t, (#[2, -1, 0] : Array Int)⟩]
    ∃ new, (s.alone 0 0).run a = (.error (.divisionByZero .divide), a.setCells 0 t new) ∧
      (View.whole 0 (.integer t) 3).read new [0] = -4 ∧
      (View.whole 0 (.integer t) 3).read new [1] = -128 ∧
      (View.whole 0 (.integer t) 3).read new [2] = 9 := by
  intro t s a
  have h : s.instr.CombinesIntegers Division.quotient.operation t (.whole 0 (.integer t) 3)
      (.whole 1 (.integer t) 3) (.whole 2 (.integer t) 3) 0 := {
    opcode := rfl
    operands := rfl
    views := by decide
    whole := by decide
    types := by decide
    output := rfl }
  have x : s.instr.Supplies a t 1 _ :=
    .array rfl rfl rfl rfl (View.covers_whole _ _ rfl) (by decide)
  have y : s.instr.Supplies a t 2 _ :=
    .array rfl rfl rfl rfl (View.covers_whole _ _ rfl) (by decide)
  obtain ⟨-, runs, -, -⟩ := run_division .quotient h 0 0
  obtain ⟨new, run, stored, kept, -⟩ :=
    (runs a _ _ _ x y rfl (View.covers_whole _ _ rfl)).2 (by decide) (by decide)
  refine ⟨new, run.trans (congrArg (·, _) (if_neg (by decide))), ?_, ?_, ?_⟩
  · exact (stored [0] (by decide)).trans (by decide)
  · exact (stored [1] (by decide)).trans (by decide)
  · exact (kept [2] (by decide)).trans (by decide)

end Statement

end ArrayFusion
