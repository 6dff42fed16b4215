import ArrayFusion.Proofs.View.Overlap

/-!
# The addresses one after the other

The positions of a shape follow each other like the readings of an odometer: the last index moves
on, and an index that would leave its axis returns to its first value and lets the index before it
move on. Every turn raises the number of a position by one, and only the last position has no next
one. So walking from the first position on comes to an end, and lists the addresses of a view in the
order of the numbers.

The indices of a position are the digits of its number, an axis being a place whose base is the size
of the axis.
-/

namespace ArrayFusion

namespace Shape

variable {shape idx next : List Int} {k : Int}

/-! ## Turns -/

/-- The position behind a position, if there is one. -/
def turn : List Int → List Int → Option (List Int)
  | n :: shape, k :: idx =>
    match turn shape idx with
    | some next => some (k :: next)
    | none => if k + 1 < n then some ((k + 1) :: first shape) else none
  | _, _ => none

/-- The ways to turn: an inner index moves on, or all inner indices return and the outermost one
moves on. -/
theorem turn_cases {n : Int} (h : turn (n :: shape) (k :: idx) = some next) :
    (∃ rest, turn shape idx = some rest ∧ next = k :: rest) ∨
      (turn shape idx = none ∧ k + 1 < n ∧ next = (k + 1) :: first shape) := by
  rw [turn] at h
  cases inner : turn shape idx with
  | some rest =>
    rw [inner] at h
    exact .inl ⟨rest, rfl, (Option.some.inj h).symm⟩
  | none =>
    rw [inner] at h
    by_cases inside : k + 1 < n
    · simp only [inside, if_true, Option.some.injEq] at h
      exact .inr ⟨rfl, inside, h.symm⟩
    · simp [inside] at h

/-- Bound of the number of turns that are left. The indices may be any numbers. -/
def turnsLeft : List Int → List Int → Nat
  | n :: shape, k :: idx =>
    (n - 1 - k).toNat * (turnsLeft shape (first shape) + 1) + turnsLeft shape idx
  | _, _ => 0

/-- A turn of the outermost index is worth more than all turns of the inner ones. -/
theorem turnsLeft_lt (h : turn shape idx = some next) :
    turnsLeft shape next < turnsLeft shape idx := by
  induction shape generalizing idx next with
  | nil => simp [turn] at h
  | cons n shape ih =>
    cases idx with
    | nil => simp [turn] at h
    | cons k idx =>
      obtain ⟨rest, inner, rfl⟩ | ⟨-, inside, rfl⟩ := turn_cases h
      · have := ih inner
        simp only [turnsLeft]
        omega
      · have fewer : (n - 1 - k).toNat = (n - 1 - (k + 1)).toNat + 1 := by omega
        simp only [turnsLeft]
        rw [fewer, Nat.succ_mul]
        omega

theorem InRange.sizes_pos (h : InRange shape idx) : ∀ n ∈ shape, 1 ≤ n :=
  one_le_of_elementCount_ne_zero h.sizes_nonneg h.count_pos.ne'

/-- Only the last position has no next one. -/
theorem number_of_turn_eq_none (h : InRange shape idx) (last : turn shape idx = none) :
    number shape idx + 1 = elementCount shape := by
  induction h with
  | nil => rfl
  | @cons n k shape idx head tail ih =>
    rw [turn] at last
    cases inner : turn shape idx with
    | some rest => simp [inner] at last
    | none =>
      simp only [inner, ite_eq_right_iff, reduceCtorEq, imp_false] at last
      have atEnd : n = k + 1 := by omega
      rw [number, elementCount_cons, Int.add_assoc, ih inner, atEnd]
      ring

/-- A turn leads to the position with the next number. -/
theorem inRange_of_turn (h : InRange shape idx) (move : turn shape idx = some next) :
    InRange shape next ∧ number shape next = number shape idx + 1 := by
  induction h generalizing next with
  | nil => simp [turn] at move
  | @cons n k shape idx head tail ih =>
    obtain ⟨rest, inner, rfl⟩ | ⟨inner, inside, rfl⟩ := turn_cases move
    · obtain ⟨range, step⟩ := ih inner
      refine ⟨.cons head range, ?_⟩
      rw [number, number, step, Int.add_assoc]
    · have full := number_of_turn_eq_none tail inner
      have tail : InRange shape idx := tail
      refine ⟨.cons ⟨by omega, inside⟩ (inRange_first tail.sizes_pos), ?_⟩
      rw [number, number, number_first, ← full]
      ring

/-! ## Digits -/

/-- The indices of the position with a number. -/
def digits : List Int → Int → List Int
  | [], _ => []
  | n :: shape, k => k / elementCount shape % n :: digits shape k

theorem inRange_digits (sizes : ∀ n ∈ shape, 1 ≤ n) (k : Int) : InRange shape (digits shape k) := by
  induction shape with
  | nil => exact .nil
  | cons n shape ih =>
    have positive : 1 ≤ n := sizes n List.mem_cons_self
    refine .cons ⟨?_, ?_⟩ (ih fun m hm => sizes m (List.mem_cons_of_mem n hm))
    · exact Int.emod_nonneg _ (by omega)
    · exact Int.emod_lt_of_pos _ (by omega)

/-- The digits of a number are those of a position with this number, as far as there are places. -/
theorem number_digits (sizes : ∀ n ∈ shape, 1 ≤ n) (k : Int) :
    number shape (digits shape k) = k % elementCount shape := by
  induction shape with
  | nil => simp [number, elementCount]
  | cons n shape ih =>
    have tail : ∀ m ∈ shape, 1 ≤ m := fun m hm => sizes m (List.mem_cons_of_mem n hm)
    have count : 0 ≤ elementCount shape := elementCount_nonneg fun m hm => by have := tail m hm; omega
    have places : k / (elementCount shape * n) = k / elementCount shape / n :=
      (Int.ediv_ediv_of_nonneg count).symm
    rw [digits, number, ih tail, elementCount_cons, Int.mul_comm n, Int.emod_def, Int.emod_def,
      Int.emod_def, places]
    ring

end Shape

namespace View

open Shape

variable {v : View} {idx : List Int}

/-! ## The walk -/

/-- Address of the position with the given indices. -/
def addressOf (v : View) (idx : List Int) : Int := v.start + (List.zipWith (· * ·) idx v.strides).sum

theorem addressOf_eq (v : View) (idx : List Int) :
    v.addressOf idx = v.start + offsetAt v.axes idx := by
  suffices general : ∀ (axes : List Axis) (idx : List Int),
      (List.zipWith (· * ·) idx (axes.map (·.stride))).sum = offsetAt axes idx from
    congrArg (v.start + ·) (general v.axes idx)
  intro axes
  induction axes with
  | nil => intro idx; simp [offsetAt]
  | cons a axes ih =>
    intro idx
    cases idx with
    | nil => rfl
    | cons k idx => simp only [List.map_cons, List.zipWith_cons_cons, List.sum_cons, ih, offsetAt]

/-- The addresses from a position on, each found by a turn from the one before. -/
def addressesFrom (v : View) (idx : List Int) : List Int :=
  v.addressOf idx ::
    match _move : turn v.shape idx with
    | some next => addressesFrom v next
    | none => []
termination_by turnsLeft v.shape idx
decreasing_by exact turnsLeft_lt _move

/-- The addresses by walking through the view. -/
def walk (v : View) : List Int :=
  if v.elements ≤ 0 then [] else v.addressesFrom (first v.shape)

theorem addressesFrom_of_turn {next : List Int} (move : turn v.shape idx = some next) :
    v.addressesFrom idx = v.addressOf idx :: v.addressesFrom next := by
  rw [addressesFrom]
  split
  next found => rw [Option.some.inj (move.symm.trans found)]
  next none => rw [move] at none; contradiction

theorem addressesFrom_of_last (last : turn v.shape idx = none) :
    v.addressesFrom idx = [v.addressOf idx] := by
  rw [addressesFrom]
  split
  next found => rw [last] at found; contradiction
  next => rfl

/-- From a position in range on, the walk passes the addresses that the list has from the number of
the position on. -/
theorem addressesFrom_eq (sizes : ∀ a ∈ v.axes, 0 ≤ a.size) (h : InRange v.shape idx) :
    v.addressesFrom idx = v.addresses.drop (number v.shape idx).toNat := by
  -- Every turn leaves fewer turns, and moves on by one place in the list.
  induction left : turnsLeft v.shape idx using Nat.strong_induction_on generalizing idx with
  | _ left ih =>
    have here := getElem?_addresses sizes h
    rw [← addressOf_eq] at here
    obtain ⟨inside, at_⟩ := List.getElem?_eq_some_iff.mp here
    rw [List.drop_eq_getElem_cons inside, at_]
    cases move : turn v.shape idx with
    | some next =>
      obtain ⟨range, step⟩ := inRange_of_turn h move
      have place : (number v.shape next).toNat = (number v.shape idx).toNat + 1 := by
        have := number_nonneg h
        omega
      rw [addressesFrom_of_turn move, ← place]
      exact congrArg _ (ih _ (left ▸ turnsLeft_lt move) range rfl)
    | none =>
      have last := number_of_turn_eq_none h move
      have behind : v.addresses.length ≤ (number v.shape idx).toNat + 1 := by
        rw [length_addresses sizes, elements]
        omega
      rw [addressesFrom_of_last move, List.drop_eq_nil_of_le behind]

/-- Walking through a view without negative sizes lists its addresses. -/
theorem walk_eq (sizes : ∀ a ∈ v.axes, 0 ≤ a.size) : v.walk = v.addresses := by
  by_cases empty : v.elements ≤ 0
  · rw [walk, if_pos empty, addresses, if_pos empty]
  · have range : InRange v.shape (first v.shape) := by
      have shape : ∀ n ∈ v.shape, 0 ≤ n := by simpa [View.shape] using sizes
      exact inRange_first (one_le_of_elementCount_ne_zero shape (by rw [elements] at empty; omega))
    rw [walk, if_neg empty, addressesFrom_eq sizes range, number_first]
    rfl

/-- The address with a number is that of the position whose indices are the digits of the number. -/
theorem getElem?_addresses_digits (sizes : ∀ a ∈ v.axes, 0 ≤ a.size) {k : Nat}
    (h : (k : Int) < v.elements) : v.addresses[k]? = some (v.addressOf (digits v.shape k)) := by
  have positive : ∀ n ∈ v.shape, 1 ≤ n := by simpa [View.shape] using sizes_pos sizes (by omega)
  have place : (number v.shape (digits v.shape k)).toNat = k := by
    rw [number_digits positive, ← elements, Int.emod_eq_of_lt (Int.natCast_nonneg k) h]
    exact Int.toNat_natCast k
  have here := getElem?_addresses sizes (inRange_digits positive k)
  rwa [place, ← addressOf_eq] at here

end View

end ArrayFusion
