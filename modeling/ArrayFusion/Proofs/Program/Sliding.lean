import ArrayFusion.Proofs.Program.Motion
import Mathlib.Algebra.Order.Ring.Abs

/-!
# Windows that wrap and windows that return

A view with slides is a window that moves. Its slides are called one after the other, and each sees
the start that the ones before it have left, so that slides which share a start also share its
wrapping. What all of them together do depends on the start and on how the slides stand, and of the
calls that a slide has counted only the remainder by its delay matters (`InPhase`).

A single slide that never returns moves its view around its axis if no move is longer than the axis.
A longer move is corrected by one length only, and leaves the axis sooner or later. Slides that all
return make the window periodic, however they are combined: after a common multiple of their periods
every one of them has taken back what it did.
-/

namespace ArrayFusion

/-! ## One call of all slides -/

namespace Slide

/-- The start and the slides after one call of every slide. -/
def round (start : Int) : List Slide → Int × List Slide
  | [] => (start, [])
  | s :: slides =>
    let next := s.next start
    let rest := round (start + (next.startChange - s.startChange)) slides
    (rest.1, next :: rest.2)

end Slide

namespace View

variable {v w : View} {n m : Nat}

theorem stepSlides_eq_round {slides : List Slide} (exist : ∀ s ∈ slides, s.dim < v.ndim) :
    ∃ w, v.stepSlides slides = .ok (w, (Slide.round v.start slides).2) ∧
      w.start = (Slide.round v.start slides).1 := by
  induction slides generalizing v with
  | nil => exact ⟨v, rfl, rfl⟩
  | cons s slides ih =>
    obtain ⟨here, later⟩ := List.forall_mem_cons.mp exist
    have moved := stepSlide_eq here
    generalize hv₁ : ({ v with
      start := v.start + ((s.next v.start).startChange - s.startChange)
      axes := growAxes v.axes fun d =>
        if s.dim = d then (s.next v.start).sizeChange - s.sizeChange else 0 } : View) = v₁ at moved
    have start : v₁.start = v.start + ((s.next v.start).startChange - s.startChange) := by
      rw [← hv₁]
    have count : v₁.ndim = v.ndim := by
      rw [← hv₁]
      exact length_growAxes
    obtain ⟨w, steps, last⟩ := ih (v := v₁) (count ▸ later)
    rw [start] at steps last
    refine ⟨w, ?_, last⟩
    rw [stepSlides, moved]
    show (v₁.stepSlides slides >>= fun r => pure (r.1, s.next v.start :: r.2)) = _
    rw [steps]
    rfl

/-- An evaluation of the slides calls each of them once. -/
theorem start_slides_of_slide (exist : ∀ s ∈ v.slides, s.dim < v.ndim) (moved : v.slide = .ok w) :
    w.start = (Slide.round v.start v.slides).1 ∧ w.slides = (Slide.round v.start v.slides).2 := by
  rw [View.slide] at moved
  split at moved
  next still =>
    cases moved
    rw [List.isEmpty_iff.mp still]
    exact ⟨rfl, rfl⟩
  next =>
    obtain ⟨stepped, steps, start⟩ := stepSlides_eq_round exist
    rw [steps] at moved
    cases moved
    exact ⟨start, rfl⟩

/-! ## Many calls -/

/-- The view after a number of evaluations of its slides. -/
def slideBy (v : View) : Nat → Except Fault View
  | 0 => .ok v
  | n + 1 => v.slideBy n >>= View.slide

theorem slideBy_succ_of_ok (moved : v.slideBy n = .ok w) : v.slideBy (n + 1) = w.slide := by
  rw [slideBy, moved]
  rfl

/-- Slides along axes that exist can be evaluated any number of times. -/
theorem exists_slideBy (slides : ∀ s ∈ v.slides, s.dim < v.ndim ∧ s.Fresh) (n : Nat) :
    ∃ w, v.slideBy n = .ok w ∧ v.After n w := by
  induction n with
  | zero => exact ⟨v, rfl, after_of_fresh fun s hs => (slides s hs).2⟩
  | succ n ih =>
    obtain ⟨w, moved, after⟩ := ih
    obtain ⟨next, step, later⟩ := after.slide fun s hs => (slides s hs).1
    exact ⟨next, (slideBy_succ_of_ok moved).trans step, later⟩

/-- The start and the slides go on by themselves, whatever the sizes are. -/
theorem start_slides_of_slideBy_succ (slides : ∀ s ∈ v.slides, s.dim < v.ndim ∧ s.Fresh)
    (moved : v.slideBy n = .ok w) {next : View} (later : v.slideBy (n + 1) = .ok next) :
    next.start = (Slide.round w.start w.slides).1 ∧
      next.slides = (Slide.round w.start w.slides).2 := by
  obtain ⟨w', moved', after⟩ := exists_slideBy slides n
  obtain rfl : w = w' := Except.ok.inj (moved.symm.trans moved')
  have count : w.ndim = v.ndim := by
    rw [after.view]
    exact length_growAxes
  refine start_slides_of_slide (fun s hs => ?_) ((slideBy_succ_of_ok moved).symm.trans later)
  obtain ⟨s₀, hs₀, called⟩ := exists_of_forall₂ after.slides hs
  have dim : s.dim = s₀.dim := by rw [called]
  rw [dim, count]
  exact (slides s₀ hs₀).1

end View

/-! ## A slide that never returns -/

namespace Slide

variable {s : Slide} {start : Int}

/-- Length of the axis along which the slide moves, in elements. -/
def length (s : Slide) : Int := s.stride * s.extent

/-- A move that is not longer than the axis stays on it. -/
theorem add_change_of_le (short : |s.step * s.stride| ≤ s.length)
    (inside : 0 ≤ start ∧ start < s.length) :
    start + s.change start = (start + s.step * s.stride) % s.length := by
  obtain ⟨least, most⟩ := abs_le.mp short
  obtain ⟨lower, upper⟩ := inside
  have place : start.tmod s.length = start := Int.tmod_eq_of_lt lower upper
  have positive : s.length ≠ 0 := by omega
  rw [length] at place positive
  simp only [change, if_neg positive, place]
  generalize hc : s.step * s.stride = c at *
  rw [length] at *
  split
  next before =>
    rw [← Int.add_emod_right, Int.emod_eq_of_lt] <;> omega
  next =>
    split
    next behind => rw [← Int.sub_emod_right, Int.emod_eq_of_lt] <;> omega
    next => rw [Int.emod_eq_of_lt] <;> omega

/-- A longer move forward is shortened by one length only. -/
theorem change_of_forward (long : s.length < s.step * s.stride) (positive : 0 < s.length)
    (lower : 0 ≤ start) : s.change start = s.step * s.stride - s.length := by
  have place : 0 ≤ start.tmod s.length := Int.tmod_nonneg _ lower
  rw [length] at *
  simp only [change, if_neg (Int.ne_of_gt positive)]
  rw [if_neg (by omega), if_pos (by omega)]

/-- A longer move backward is shortened by one length only. -/
theorem change_of_backward (long : s.step * s.stride < -s.length) (positive : 0 < s.length) :
    s.change start = s.step * s.stride + s.length := by
  have place : start.tmod s.length < s.length := Int.tmod_lt_of_pos _ positive
  rw [length] at *
  simp only [change, if_neg (Int.ne_of_gt positive)]
  rw [if_pos (by omega)]

/-- What the slide promises of the axis along which it moves: it has elements, and the view starts on
it. -/
structure Inside (s : Slide) (start : Int) : Prop where
  stride : 0 < s.stride
  extent : 0 < s.extent
  lower : 0 ≤ start
  upper : start < s.length

instance (s : Slide) (start : Int) : Decidable (s.Inside start) :=
  decidable_of_iff (0 < s.stride ∧ 0 < s.extent ∧ 0 ≤ start ∧ start < s.length)
    ⟨fun ⟨stride, extent, lower, upper⟩ => ⟨stride, extent, lower, upper⟩,
      fun h => ⟨h.stride, h.extent, h.lower, h.upper⟩⟩

theorem Inside.length_pos (h : s.Inside start) : 0 < s.length := Int.mul_pos h.stride h.extent

/-- Where a view stands after a number of moves. -/
def placeAfter (s : Slide) (start : Int) (moves : Nat) : Int :=
  if |s.step| ≤ s.extent then (start + moves * (s.step * s.stride)) % s.length
  else start + moves * ((s.step - s.step.sign * s.extent) * s.stride)

theorem Inside.placeAfter_zero (h : s.Inside start) : s.placeAfter start 0 = start := by
  simp [placeAfter, Int.emod_eq_of_lt h.lower h.upper]

theorem Inside.placeAfter_succ (h : s.Inside start) (moves : Nat) :
    s.placeAfter start (moves + 1) =
      s.placeAfter start moves + s.change (s.placeAfter start moves) := by
  have positive := h.length_pos
  have next : ((moves + 1 : Nat) : Int) = moves + 1 := Int.natCast_succ moves
  by_cases short : |s.step| ≤ s.extent
  · have bound : |s.step * s.stride| ≤ s.length := by
      rw [abs_mul, abs_of_pos h.stride, length, Int.mul_comm s.stride]
      exact Int.mul_le_mul_of_nonneg_right short (Int.le_of_lt h.stride)
    simp only [placeAfter, if_pos short]
    rw [add_change_of_le bound ⟨Int.emod_nonneg _ (Int.ne_of_gt positive),
      Int.emod_lt_of_pos _ positive⟩, Int.emod_add_emod, next]
    congr 1
    ring
  simp only [placeAfter, if_neg short, next]
  rcases lt_abs.mp (not_le.mp short) with forward | backward
  · have sign : s.step.sign = 1 := Int.sign_eq_one_of_pos (Int.lt_trans h.extent forward)
    have drift : 0 ≤ (s.step - s.extent) * s.stride :=
      Int.mul_nonneg (by omega) (Int.le_of_lt h.stride)
    have long : s.length < s.step * s.stride := by
      rw [length, Int.mul_comm s.stride]
      exact Int.mul_lt_mul_of_pos_right forward h.stride
    have lower : 0 ≤ start + moves * ((s.step - s.extent) * s.stride) :=
      Int.add_nonneg h.lower (Int.mul_nonneg (Int.natCast_nonneg moves) drift)
    rw [sign, Int.one_mul, change_of_forward long positive lower, length]
    ring
  · have sign : s.step.sign = -1 := Int.sign_eq_neg_one_of_neg (by have := h.extent; omega)
    have long : s.step * s.stride < -s.length := by
      rw [length, Int.mul_comm s.stride, ← Int.neg_mul]
      exact Int.mul_lt_mul_of_pos_right (by omega) h.stride
    rw [sign, change_of_backward long positive, length]
    ring

theorem placeAfter_emod (s : Slide) (start : Int) (moves : Nat) :
    s.placeAfter start moves % s.length = (start + moves * (s.step * s.stride)) % s.length := by
  rw [placeAfter]
  split
  · exact Int.emod_emod_of_dvd _ (Int.dvd_refl _)
  · have turns : start + moves * ((s.step - s.step.sign * s.extent) * s.stride) =
        start + moves * (s.step * s.stride) - s.length * (moves * s.step.sign) := by
      rw [length]
      ring
    rw [turns, Int.sub_mul_emod_self_left]

/-- Moves that are longer than the axis lead away from it. -/
theorem Inside.exists_placeAfter (h : s.Inside start) (long : s.extent < |s.step|) :
    ∃ moves, ¬ (0 ≤ s.placeAfter start moves ∧ s.placeAfter start moves < s.length) := by
  have positive := h.length_pos
  have count : (s.length.toNat : Int) = s.length := Int.toNat_of_nonneg (Int.le_of_lt positive)
  refine ⟨s.length.toNat, ?_⟩
  rw [placeAfter, if_neg (not_le.mpr long), count]
  rcases lt_abs.mp long with forward | backward
  · have sign : s.step.sign = 1 := Int.sign_eq_one_of_pos (Int.lt_trans h.extent forward)
    have drift : 1 ≤ (s.step - s.step.sign * s.extent) * s.stride := by
      rw [sign, Int.one_mul]
      exact Int.mul_pos (by omega) h.stride
    have far := Int.mul_le_mul_of_nonneg_left drift (Int.le_of_lt positive)
    have := h.lower
    omega
  · have sign : s.step.sign = -1 := Int.sign_eq_neg_one_of_neg (by have := h.extent; omega)
    have drift : (s.step - s.step.sign * s.extent) * s.stride ≤ -1 := by
      have : 0 < -(s.step + s.extent) * s.stride := Int.mul_pos (by omega) h.stride
      rw [Int.neg_mul] at this
      rw [sign, Int.neg_one_mul, Int.sub_neg]
      omega
    have far := Int.mul_le_mul_of_nonneg_left drift (Int.le_of_lt positive)
    have := h.upper
    omega

end Slide

namespace View

variable {v w : View} {s : Slide} {n : Nat}

/-- A view with a single slide that never returns is where the number of full delays takes it. -/
theorem start_of_slideBy (alone : v.slides = [s]) (fresh : s.Fresh) (exist : s.dim < v.ndim)
    (endless : s.period = 0) (inside : s.Inside v.start) (moved : v.slideBy n = .ok w) :
    w.start = s.placeAfter v.start (n / max s.delay 1) := by
  have slides : ∀ s ∈ v.slides, s.dim < v.ndim ∧ s.Fresh := by
    rw [alone]
    exact List.forall_mem_singleton.mpr ⟨exist, fresh⟩
  induction n generalizing w with
  | zero =>
    cases moved
    rw [Nat.zero_div, inside.placeAfter_zero]
  | succ n ih =>
    obtain ⟨u, before, after⟩ := exists_slideBy slides n
    have here : u.start = s.placeAfter v.start (n / max s.delay 1) := ih before
    obtain ⟨t, called, single⟩ : ∃ t, s.After n t ∧ u.slides = [t] := by
      have related := after.slides
      rw [alone] at related
      obtain ⟨t, rest, called, none, slides⟩ := List.forall₂_cons_left_iff.mp related
      cases none
      exact ⟨t, called, slides⟩
    have round : w.start = u.start + ((t.next u.start).startChange - t.startChange) := by
      rw [(start_slides_of_slideBy_succ slides before moved).1, single]
      rfl
    have change : t.change u.start = s.change u.start := by
      rw [called]
      rfl
    have waits : t.waits = ((n + 1) % max s.delay 1 != 0) := by
      rw [called]
      rfl
    have returns : t.returns = false := by
      rw [called]
      simp [Slide.returns, endless]
    rw [round, Slide.next, waits, returns]
    by_cases moves : (n + 1) % max s.delay 1 = 0
    · have further : (n + 1) / max s.delay 1 = n / max s.delay 1 + 1 :=
        Nat.succ_div_of_dvd (Nat.dvd_of_mod_eq_zero moves)
      rw [further, inside.placeAfter_succ, ← here]
      simp [moves, change]
    · have still : (n + 1) / max s.delay 1 = n / max s.delay 1 :=
        Nat.succ_div_of_not_dvd fun divides => moves (Nat.mod_eq_zero_of_dvd divides)
      rw [still, ← here]
      simp [moves]

/-- A move by two and a half lengths of the axis is shortened by one of them. -/
example :
    let v : View := {
      base := some 0, dtype := .int64, axes := [⟨3, 1⟩]
      slides := [{ dim := 0, step := 25, stride := 1, extent := 10, growth := 0 }] }
    (v.slideBy 1).toOption.map (·.start) = some 15 := by decide

end View

/-! ## Slides that return -/

namespace Slide

variable {s t : Slide} {start : Int}

/-- A slide that stands at the beginning of its period has taken back what it did. -/
def Settled (s : Slide) : Prop := s.moves = 0 → s.startChange = 0 ∧ s.sizeChange = 0

theorem Fresh.settled (h : s.Fresh) : s.Settled := fun _ => ⟨h.startChange, h.sizeChange⟩

theorem Settled.next (h : s.Settled) (start : Int) : (s.next start).Settled := by
  rw [Slide.next]
  split
  · exact h
  · split
    · exact fun _ => ⟨rfl, rfl⟩
    · exact fun still => absurd still (Nat.succ_ne_zero s.moves)

theorem settled_round {slides : List Slide} (h : ∀ s ∈ slides, s.Settled) (start : Int) :
    ∀ s ∈ (round start slides).2, s.Settled := by
  induction slides generalizing start with
  | nil => exact List.forall_mem_nil _
  | cons s slides ih =>
    obtain ⟨here, later⟩ := List.forall_mem_cons.mp h
    exact List.forall_mem_cons.mpr ⟨here.next start, ih later _⟩

/-- Two slides stand alike, and their next moves come at the same calls from now on. -/
structure InPhase (s t : Slide) : Prop where
  same : t = { s with calls := t.calls }
  calls : t.calls % max s.delay 1 = s.calls % max s.delay 1

theorem InPhase.next (h : s.InPhase t) (start : Int) : (s.next start).InPhase (t.next start) := by
  obtain ⟨c, rfl⟩ : ∃ c, t = { s with calls := c } := ⟨_, h.same⟩
  have calls : (c + 1) % max s.delay 1 = (s.calls + 1) % max s.delay 1 := by
    rw [Nat.add_mod, h.calls, ← Nat.add_mod]
  have waits : ({ s with calls := c } : Slide).waits = s.waits := by
    rw [Slide.waits, Slide.waits, calls]
  rw [Slide.next, Slide.next, waits]
  split
  · exact ⟨rfl, calls⟩
  · show InPhase (if s.returns then _ else _) (if s.returns then _ else _)
    split
    · exact ⟨rfl, calls⟩
    · exact ⟨rfl, calls⟩

theorem InPhase.round {slides slides' : List Slide} (h : List.Forall₂ InPhase slides slides')
    (start : Int) : (Slide.round start slides').1 = (Slide.round start slides).1 ∧
      List.Forall₂ InPhase (Slide.round start slides).2 (Slide.round start slides').2 := by
  induction h generalizing start with
  | nil => exact ⟨rfl, .nil⟩
  | @cons s t slides slides' here rest ih =>
    have next := here.next start
    have moved : (t.next start).startChange - t.startChange =
        (s.next start).startChange - s.startChange := by
      have before : t.startChange = s.startChange := by rw [here.same]
      have after : (t.next start).startChange = (s.next start).startChange := by rw [next.same]
      rw [before, after]
    obtain ⟨same, later⟩ := ih (start + ((s.next start).startChange - s.startChange))
    simp only [Slide.round, moved]
    exact ⟨same, .cons next later⟩

/-- After a number of calls that is a multiple of its delay times its period, a slide stands as it
did at the beginning. -/
theorem After.inPhase {s₀ : Slide} {m : Nat} (fresh : s₀.Fresh)
    (whole : max s₀.delay 1 * s₀.period ∣ m) (h : s₀.After m s) (settled : s.Settled) :
    s₀.InPhase s := by
  have back : s₀.movesAfter m = 0 := by
    obtain ⟨k, rfl⟩ := whole
    rw [movesAfter, Nat.mul_assoc, Nat.mul_div_cancel_left _ (by omega)]
    exact Nat.mul_mod_right ..
  have moves : s.moves = 0 := by rw [h]; exact back
  have calls : s.calls = m := by rw [h]
  obtain ⟨startChange, sizeChange⟩ := settled moves
  constructor
  · rw [h]
    cases s₀
    obtain ⟨-, moves₀, startChange₀, sizeChange₀⟩ := fresh
    simp_all
  · rw [calls, fresh.calls]
    exact (Nat.mod_eq_zero_of_dvd (Nat.dvd_trans (Nat.dvd_mul_right ..) whole)).trans
      (Nat.zero_mod _).symm

/-- The size of an axis has changed by what the slides along it record. -/
theorem sum_growthAfter {slides₀ slides : List Slide} {n : Nat}
    (h : List.Forall₂ (fun s₀ s => s₀.After n s) slides₀ slides) (d : Nat) :
    (slides₀.map (·.growthAfter n d)).sum =
      ((slides.filter (·.dim = d)).map (·.sizeChange)).sum := by
  induction h with
  | nil => rfl
  | @cons s₀ s slides₀ slides called rest ih =>
    have dim : s.dim = s₀.dim := by rw [called]
    have size : s.sizeChange = s₀.growth * s₀.movesAfter n := by rw [called]
    rw [List.map_cons, List.sum_cons, ih, List.filter_cons, growthAfter, dim]
    split
    next along => simp [along, size]
    next other => simp [other]

/-- A slide has moved as often since its last return as it had one common multiple earlier. -/
theorem movesAfter_add {m : Nat} (whole : max s.delay 1 * s.period ∣ m) (n : Nat) :
    s.movesAfter (n + m) = s.movesAfter n := by
  obtain ⟨k, rfl⟩ := whole
  have positive : 0 < max s.delay 1 := by omega
  rw [movesAfter, movesAfter, Nat.mul_assoc, Nat.add_mul_div_left n _ positive,
    Nat.add_mul_mod_self_left]

end Slide

namespace View

variable {v w w' : View} {n m : Nat}

theorem settled_of_slideBy (slides : ∀ s ∈ v.slides, s.dim < v.ndim ∧ s.Fresh)
    (moved : v.slideBy n = .ok w) : ∀ s ∈ w.slides, s.Settled := by
  induction n generalizing w with
  | zero =>
    cases moved
    exact fun s hs => (slides s hs).2.settled
  | succ n ih =>
    obtain ⟨u, before, -⟩ := exists_slideBy slides n
    rw [(start_slides_of_slideBy_succ slides before moved).2]
    exact Slide.settled_round (ih before) u.start

/-- After a common multiple of the periods of all slides the view is where it was, and its slides
are in the same phase. -/
theorem inPhase_of_slideBy_add (slides : ∀ s ∈ v.slides, s.dim < v.ndim ∧ s.Fresh)
    (whole : ∀ s ∈ v.slides, max s.delay 1 * s.period ∣ m) (moved : v.slideBy n = .ok w)
    (later : v.slideBy (n + m) = .ok w') :
    w'.start = w.start ∧ List.Forall₂ Slide.InPhase w.slides w'.slides := by
  induction n generalizing w w' with
  | zero =>
    cases moved
    rw [Nat.zero_add] at later
    obtain ⟨u, moved, after⟩ := exists_slideBy slides m
    obtain rfl : u = w' := Except.ok.inj (moved.symm.trans later)
    have settled := settled_of_slideBy slides later
    have phases : List.Forall₂ Slide.InPhase v.slides u.slides := by
      refine (forall₂_with_mem after.slides).imp fun s₀ s called => ?_
      obtain ⟨hs₀, hs, called⟩ := called
      exact called.inPhase (slides s₀ hs₀).2 (whole s₀ hs₀) (settled s hs)
    refine ⟨?_, phases⟩
    have still : (u.slides.map (·.startChange)).sum = 0 := by
      refine List.sum_eq_zero fun x hx => ?_
      obtain ⟨s, hs, rfl⟩ := List.mem_map.mp hx
      obtain ⟨s₀, hs₀, phase⟩ := exists_of_forall₂ phases hs
      rw [phase.same]
      exact (slides s₀ hs₀).2.startChange
    rw [after.view, still]
    exact Int.add_zero v.start
  | succ n ih =>
    obtain ⟨u, before, -⟩ := exists_slideBy slides n
    obtain ⟨u', before', -⟩ := exists_slideBy slides (n + m)
    obtain ⟨start, phases⟩ := ih before before'
    have round := start_slides_of_slideBy_succ slides before moved
    rw [Nat.add_right_comm] at later
    have round' := start_slides_of_slideBy_succ slides before' later
    obtain ⟨same, next⟩ := Slide.InPhase.round phases u.start
    constructor
    · rw [round.1, round'.1, start]
      exact same
    · rw [round.2, round'.2, start]
      exact next

/-- A view is displaced by what its slides record, in its start and in the size of every axis. A
slide with a period has moved once for every full delay since its last return, and has taken
everything back when it has not. So a window whose slides all return is periodic, with every common
multiple of their periods. -/
theorem slideBy_returns (slides : ∀ s ∈ v.slides, s.dim < v.ndim ∧ s.Fresh) (n : Nat) :
    ∃ w, v.slideBy n = .ok w ∧
      w.start = v.start + (w.slides.map (·.startChange)).sum ∧
      (∀ d, w.shape[d]? = v.shape[d]?.map
        (· + ((w.slides.filter (·.dim = d)).map (·.sizeChange)).sum)) ∧
      List.Forall₂ (fun s₀ s =>
        s = { s₀ with
          calls := s.calls, moves := s.moves, startChange := s.startChange
          sizeChange := s.sizeChange } ∧
        (0 < s₀.period → s.moves = n / max s₀.delay 1 % s₀.period ∧
          (s.moves = 0 → s.startChange = 0 ∧ s.sizeChange = 0))) v.slides w.slides ∧
      ∀ m, (∀ s ∈ v.slides, max s.delay 1 * s.period ∣ m) →
        ∃ w', v.slideBy (n + m) = .ok w' ∧ w'.start = w.start ∧ w'.axes = w.axes := by
  obtain ⟨w, moved, after⟩ := exists_slideBy slides n
  have settled := settled_of_slideBy slides moved
  refine ⟨w, moved, ?_, fun d => ?_, ?_, fun m whole => ?_⟩
  · rw [after.view]
  · rw [shape, shape, List.getElem?_map, List.getElem?_map, ← Slide.sum_growthAfter after.slides,
      after.view]
    show (growAxes v.axes (v.growthAfter n))[d]?.map (·.size) = _
    rw [getElem?_growAxes, Option.map_map, Option.map_map]
    rfl
  · refine (forall₂_with_mem after.slides).imp fun s₀ s called => ?_
    obtain ⟨-, hs, called⟩ := called
    refine ⟨?_, fun _ => ⟨?_, settled s hs⟩⟩
    · rw [called]
    · rw [called]
      rfl
  · obtain ⟨w', later, after'⟩ := exists_slideBy slides (n + m)
    refine ⟨w', later, (inPhase_of_slideBy_add slides whole moved later).1, ?_⟩
    have grown : v.growthAfter (n + m) = v.growthAfter n := by
      funext d
      refine congrArg List.sum (List.map_congr_left fun s hs => ?_)
      rw [Slide.growthAfter, Slide.growthAfter, Slide.movesAfter_add (whole s hs)]
    rw [after.view, after'.view, grown]

/-- Two slides with delays and periods of their own share one start, which wraps for both. -/
theorem slideBy_returns_pair :
    let v : View := {
      base := some 0, dtype := .int64, start := 9, axes := [⟨3, 1⟩]
      slides := [⟨0, 3, 1, 10, 1, 2, 3, 0, 0, 0, 0⟩, ⟨0, -2, 2, 7, -1, 3, 2, 0, 0, 0, 0⟩] }
    (∀ s ∈ v.slides, s.dim < v.ndim ∧ s.Fresh) ∧
      (∀ s ∈ v.slides, max s.delay 1 * s.period ∣ 6) ∧
      ∃ w w', v.slideBy 4 = .ok w ∧ v.slideBy 10 = .ok w' ∧ w.start = 15 ∧ w'.start = 15 ∧
        w'.axes = w.axes := by
  intro v
  have slides : ∀ s ∈ v.slides, s.dim < v.ndim ∧ s.Fresh := by decide
  have whole : ∀ s ∈ v.slides, max s.delay 1 * s.period ∣ 6 := by decide
  obtain ⟨w, moved, -, -, -, periodic⟩ := slideBy_returns slides 4
  obtain ⟨w', later, start, axes⟩ := periodic 6 whole
  have here : (v.slideBy 4).toOption.map (·.start) = some 15 := by decide
  rw [moved] at here
  have place : w.start = 15 := Option.some.inj here
  exact ⟨slides, whole, w, w', moved, later, place, start.trans place, axes⟩

end View

end ArrayFusion
