import ArrayFusion.Proofs.Program.Resolve
import ArrayFusion.View.Edit
import Mathlib.Algebra.Order.BigOperators.Group.List

/-!
# How far views have moved

A slide counts its calls and its moves. After `n` calls it has moved once for every full delay, less
the full periods, each of which took the view back. So the sizes of a sliding view are known for
every number of calls, and its start is where it began plus what the slides record. Base, strides,
number of axes and index arrays stay.

Sizes are not checked while a view moves. A view that shrinks can be left with a negative size.
-/

namespace ArrayFusion

namespace Slide

/-- The slide has not been called. -/
structure Fresh (s : Slide) : Prop where
  calls : s.calls = 0
  moves : s.moves = 0
  startChange : s.startChange = 0
  sizeChange : s.sizeChange = 0

instance (s : Slide) : Decidable s.Fresh :=
  decidable_of_iff (s.calls = 0 ∧ s.moves = 0 ∧ s.startChange = 0 ∧ s.sizeChange = 0)
    ⟨fun ⟨calls, moves, start, size⟩ => ⟨calls, moves, start, size⟩,
      fun h => ⟨h.calls, h.moves, h.startChange, h.sizeChange⟩⟩

/-- Number of moves since the last return, after a number of calls. A period of zero never ends:
the remainder of a division by zero is the number itself. -/
def movesAfter (s : Slide) (n : Nat) : Nat := n / max s.delay 1 % s.period

/-- What the moves have changed about the size of an axis, after a number of calls. -/
def growthAfter (s : Slide) (n d : Nat) : Int := if s.dim = d then s.growth * s.movesAfter n else 0

/-- The second slide is the first one after a number of calls. -/
def After (s₀ : Slide) (n : Nat) (s : Slide) : Prop :=
  s = { s₀ with
    calls := n
    moves := s₀.movesAfter n
    startChange := s.startChange
    sizeChange := s₀.growth * s₀.movesAfter n }

variable {s s₀ : Slide} {n : Nat}

@[simp] theorem movesAfter_zero (s : Slide) : s.movesAfter 0 = 0 := by simp [movesAfter]

@[simp] theorem growthAfter_zero (s : Slide) (d : Nat) : s.growthAfter 0 d = 0 := by
  simp [growthAfter]

theorem Fresh.after (h : s.Fresh) : s.After 0 s := by
  cases s
  obtain ⟨calls, moves, startChange, sizeChange⟩ := h
  simp_all [After]

theorem movesAfter_succ_of_waits (waits : (n + 1) % max s.delay 1 ≠ 0) :
    s.movesAfter (n + 1) = s.movesAfter n := by
  rw [movesAfter, movesAfter, Nat.succ_div_of_not_dvd]
  rwa [Nat.dvd_iff_mod_eq_zero]

/-- A move counts, unless it completes a period. -/
theorem movesAfter_succ_of_moves (moves : (n + 1) % max s.delay 1 = 0) :
    s.movesAfter (n + 1) =
      if 0 < s.period ∧ s.movesAfter n + 1 = s.period then 0 else s.movesAfter n + 1 := by
  rw [movesAfter, movesAfter, Nat.succ_div_of_dvd (Nat.dvd_iff_mod_eq_zero.mpr moves)]
  generalize n / max s.delay 1 = k
  cases period : s.period with
  | zero => simp
  | succ p =>
    have below : k % (p + 1) < p + 1 := Nat.mod_lt k p.succ_pos
    have reduced : (k + 1) % (p + 1) = (k % (p + 1) + 1) % (p + 1) := (Nat.mod_add_mod ..).symm
    rw [reduced]
    by_cases full : k % (p + 1) = p
    · simp [full]
    · rw [Nat.mod_eq_of_lt (by omega)]
      simp [full]

end Slide

/-! ## Sizes -/

namespace View

/-- Axes whose sizes are changed. -/
def growAxes (axes : List Axis) (change : Nat → Int) : List Axis :=
  axes.mapIdx fun d axis => { axis with size := axis.size + change d }

variable {axes : List Axis} {change change' : Nat → Int}

@[simp] theorem length_growAxes : (growAxes axes change).length = axes.length :=
  List.length_mapIdx

theorem getElem?_growAxes (d : Nat) : (growAxes axes change)[d]? =
    axes[d]?.map fun axis => { axis with size := axis.size + change d } := List.getElem?_mapIdx

@[simp] theorem growAxes_zero : growAxes axes (fun _ => 0) = axes := by
  refine List.ext_getElem? fun d => ?_
  rw [getElem?_growAxes]
  cases axes[d]? <;> simp

theorem growAxes_growAxes :
    growAxes (growAxes axes change) change' = growAxes axes fun d => change d + change' d := by
  refine List.ext_getElem? fun d => ?_
  rw [getElem?_growAxes, getElem?_growAxes, getElem?_growAxes, Option.map_map]
  simp only [Function.comp_def, Int.add_assoc]

theorem growAxis_eq {v : View} {dim : Nat} (exist : dim < v.ndim) (size : Int) :
    v.growAxis dim size =
      .ok { v with axes := growAxes v.axes fun d => if dim = d then size else 0 } := by
  have here : v.axes[dim]? = some v.axes[dim] := List.getElem?_eq_getElem exist
  rw [growAxis, here]
  refine congrArg (fun axes => Except.ok { v with axes }) (List.ext_getElem? fun d => ?_)
  rw [getElem?_growAxes]
  by_cases same : dim = d
  · subst same
    rw [List.getElem?_set_self exist, here, if_pos rfl]
    rfl
  · rw [List.getElem?_set_ne same]
    cases v.axes[d]? <;> simp [same]

end View

/-! ## One call of the slides -/

namespace Slide

/-- The slide after one call, for a view with the given start. -/
def next (s : Slide) (start : Int) : Slide :=
  if s.waits then { s with calls := s.calls + 1 }
  else if s.returns then
    { s with calls := s.calls + 1, moves := 0, startChange := 0, sizeChange := 0 }
  else
    { s with
      calls := s.calls + 1
      moves := s.moves + 1
      startChange := s.startChange + s.change start
      sizeChange := s.sizeChange + s.growth }

variable {s s₀ : Slide} {n : Nat}

/-- How much a slide has moved after a number of calls does not depend on where the view started. -/
theorem After.next (h : s₀.After n s) (start : Int) : s₀.After (n + 1) (s.next start) := by
  obtain ⟨startChange, rfl⟩ : ∃ c, s = { s₀ with
      calls := n, moves := s₀.movesAfter n, startChange := c,
      sizeChange := s₀.growth * s₀.movesAfter n } := ⟨_, h⟩
  rw [After, Slide.next, waits, returns]
  by_cases still : (n + 1) % max s₀.delay 1 = 0
  · have moves := movesAfter_succ_of_moves still
    by_cases full : 0 < s₀.period ∧ s₀.movesAfter n + 1 = s₀.period
    · rw [if_pos full] at moves
      simp [still, full, moves]
    · rw [if_neg full] at moves
      simp [still, full, moves, Int.mul_add]
  · have moves := movesAfter_succ_of_waits still
    simp [still, moves]

end Slide

namespace View

variable {v w v₀ : View} {n : Nat}

/-- The view follows what the slide records. -/
theorem stepSlide_eq {s : Slide} (exist : s.dim < v.ndim) : v.stepSlide s = .ok
    ({ v with
      start := v.start + ((s.next v.start).startChange - s.startChange)
      axes := growAxes v.axes fun d =>
        if s.dim = d then (s.next v.start).sizeChange - s.sizeChange else 0 }, s.next v.start) := by
  rw [stepSlide, Slide.next]
  cases waits : s.waits with
  | true =>
    simp only [if_true, Int.sub_self, Int.add_zero, ite_self, growAxes_zero]
    rfl
  | false =>
    cases returns : s.returns with
    | true =>
      simp only [Bool.false_eq_true, if_false, if_true, growAxis_eq exist, Int.zero_sub]
      rfl
    | false =>
      simp only [Bool.false_eq_true, if_false, growAxis_eq exist, add_sub_cancel_left]
      rfl

/-- What all slides have changed about the size of an axis, after a number of calls. -/
def growthAfter (v : View) (n d : Nat) : Int := (v.slides.map (·.growthAfter n d)).sum

theorem stepSlides_after {slides₀ slides : List Slide}
    (h : List.Forall₂ (fun s₀ s => s₀.After n s) slides₀ slides)
    (exist : ∀ s ∈ slides₀, s.dim < v.ndim) :
    ∃ slides', List.Forall₂ (fun s₀ s => s₀.After (n + 1) s) slides₀ slides' ∧
      v.stepSlides slides = .ok
        ({ v with
          start := v.start + ((slides'.map (·.startChange)).sum - (slides.map (·.startChange)).sum)
          axes := growAxes v.axes fun d =>
            (slides₀.map (·.growthAfter (n + 1) d)).sum - (slides₀.map (·.growthAfter n d)).sum },
          slides') := by
  induction h generalizing v with
  | nil => exact ⟨[], .nil, by simp [stepSlides]⟩
  | @cons s₀ s slides₀ slides here rest ih =>
    obtain ⟨exist, existRest⟩ := List.forall_mem_cons.mp exist
    have called := here.next v.start
    have dim : s.dim = s₀.dim := by rw [here]
    have grown : s.sizeChange = s₀.growth * s₀.movesAfter n := by rw [here]
    have grows : (s.next v.start).sizeChange = s₀.growth * s₀.movesAfter (n + 1) := by rw [called]
    let v₁ : View := { v with
      start := v.start + ((s.next v.start).startChange - s.startChange)
      axes := growAxes v.axes fun d =>
        if s.dim = d then (s.next v.start).sizeChange - s.sizeChange else 0 }
    have moved : v.stepSlide s = .ok (v₁, s.next v.start) := stepSlide_eq (dim ▸ exist)
    obtain ⟨slides', after, steps⟩ := ih (v := v₁) (by simpa [ndim, v₁] using existRest)
    refine ⟨s.next v.start :: slides', .cons called after, ?_⟩
    have unfolded : v.stepSlides (s :: slides) =
        (v₁.stepSlides slides >>= fun r => pure (r.1, s.next v.start :: r.2)) := by
      rw [stepSlides, moved]
      rfl
    rw [unfolded, steps]
    refine congrArg₂ (fun start axes => Except.ok ({ v with start, axes }, _)) ?_ ?_
    · simp only [v₁, List.map_cons, List.sum_cons]
      omega
    · show growAxes (growAxes ..) _ = _
      rw [growAxes_growAxes]
      refine congrArg (growAxes v.axes) (funext fun d => ?_)
      simp only [List.map_cons, List.sum_cons, Slide.growthAfter, dim, grown, grows]
      split <;> omega

/-- What building a view and adding slides to it promises: sizes that make sense, and slides along
axes that exist, which have not been called. -/
structure Accepted (v : View) : Prop where
  parts : v.WellFormed
  slides : ∀ s ∈ v.slides, s.dim < v.ndim ∧ s.Fresh

instance (v : View) : Decidable v.Accepted :=
  decidable_of_iff (v.WellFormed ∧ ∀ s ∈ v.slides, s.dim < v.ndim ∧ s.Fresh)
    ⟨fun ⟨parts, slides⟩ => ⟨parts, slides⟩, fun h => ⟨h.parts, h.slides⟩⟩

theorem accepted_ofParts {b : BaseId} {t : DType} {start : Int} {shape strides : List Int}
    (h : ofParts b t start shape strides = .ok v) : v.Accepted := by
  refine ⟨wellFormed_ofParts h, ?_⟩
  rw [ofParts] at h
  split at h
  · contradiction
  split at h
  · contradiction
  split at h
  · contradiction
  cases h
  exact List.forall_mem_nil _

theorem accepted_constant (t : DType) : (constant t).Accepted :=
  ⟨wellFormed_constant t, List.forall_mem_nil _⟩

theorem Accepted.addSlide {s : Slide} (h : v.Accepted) (fresh : s.Fresh)
    (added : v.addSlide s = .ok w) : w.Accepted := by
  rw [View.addSlide] at added
  split at added
  · contradiction
  split at added
  · contradiction
  next exist =>
    cases added
    refine ⟨⟨h.parts.sizes, h.parts.axisCount, h.parts.scalar⟩, ?_⟩
    refine List.forall_mem_append.mpr ⟨h.slides, List.forall_mem_singleton.mpr ⟨?_, fresh⟩⟩
    exact Nat.not_le.mp exist

/-- The second view is the first one after its slides were called a number of times. -/
structure After (v₀ : View) (n : Nat) (v : View) : Prop where
  view : v = { v₀ with
    start := v₀.start + (v.slides.map (·.startChange)).sum
    axes := growAxes v₀.axes (v₀.growthAfter n)
    slides := v.slides
    slideCount := v.slideCount }
  slides : List.Forall₂ (fun s₀ s => s₀.After n s) v₀.slides v.slides

theorem growthAfter_of_slides_nil (none : v.slides = []) (n d : Nat) : v.growthAfter n d = 0 := by
  rw [growthAfter, none]
  rfl

theorem after_of_fresh (fresh : ∀ s ∈ v.slides, s.Fresh) : v.After 0 v := by
  have starts : (v.slides.map (·.startChange)).sum = 0 := by
    refine List.sum_eq_zero fun x hx => ?_
    obtain ⟨s, hs, rfl⟩ := List.mem_map.mp hx
    exact (fresh s hs).startChange
  have sizes : v.growthAfter 0 = fun _ => 0 := by
    funext d
    simp [growthAfter]
  refine ⟨?_, List.forall₂_same.mpr fun s hs => (fresh s hs).after⟩
  rw [starts, sizes, growAxes_zero, Int.add_zero]

theorem Accepted.after (h : v.Accepted) : v.After 0 v :=
  after_of_fresh fun s hs => (h.slides s hs).2

theorem After.isSliding (h : v₀.After n v) : v.isSliding = v₀.isSliding := by
  rw [View.isSliding, View.isSliding, isEmpty_eq_of_forall₂ h.slides]

theorem After.usesIndexArrays (h : v₀.After n v) : v.usesIndexArrays = v₀.usesIndexArrays := by
  rw [View.usesIndexArrays, View.usesIndexArrays, h.view]

/-- Sliding a view along axes that exist never fails. -/
theorem After.slide (exist : ∀ s ∈ v₀.slides, s.dim < v₀.ndim) (h : v₀.After n v) :
    ∃ w, v.slide = .ok w ∧ v₀.After (n + 1) w := by
  obtain ⟨rest, slides⟩ := h
  have axes : v.axes = growAxes v₀.axes (v₀.growthAfter n) := by rw [rest]
  by_cases still : v.slides.isEmpty = true
  · have none : v.slides = [] := List.isEmpty_iff.mp still
    have none₀ : v₀.slides = [] := by
      rw [none] at slides
      exact List.forall₂_nil_right_iff.mp slides
    refine ⟨v, by rw [View.slide, if_pos still], ?_, ?_⟩
    · have sizes : v₀.growthAfter (n + 1) = v₀.growthAfter n := by
        funext d
        rw [growthAfter_of_slides_nil none₀, growthAfter_of_slides_nil none₀]
      rw [sizes]
      exact rest
    · rw [none, none₀]
      exact .nil
  · have count : v.ndim = v₀.ndim := by rw [ndim, axes, length_growAxes, ndim]
    obtain ⟨slides', after, steps⟩ := stepSlides_after slides (count ▸ exist)
    have moved : v.slide = .ok { v with
        start := v.start + ((slides'.map (·.startChange)).sum - (v.slides.map (·.startChange)).sum)
        axes := growAxes v.axes fun d => v₀.growthAfter (n + 1) d - v₀.growthAfter n d
        slides := slides'
        slideCount := v.slideCount + 1 } := by
      rw [View.slide, if_neg still, steps]
      rfl
    refine ⟨_, moved, ?_, after⟩
    have start : v.start = v₀.start + (v.slides.map (·.startChange)).sum := by rw [rest]
    have others : v.base = v₀.base ∧ v.dtype = v₀.dtype ∧ v.index = v₀.index := by
      rw [rest]
      exact ⟨rfl, rfl, rfl⟩
    simp only [View.mk.injEq, others, true_and, and_true]
    constructor
    · omega
    · rw [axes, growAxes_growAxes]
      refine congrArg (growAxes v₀.axes) (funext fun d => ?_)
      omega

end View

/-! ## Numbers from index arrays -/

/-- Element of an index array, if there is one. -/
def Arena.number? (a : Arena) (b : BaseId) (position : Nat) : Option Int :=
  (a.buffer? b).bind (·.int? position)

namespace View

variable {v w v₀ : View} {a : Arena} {n : Nat}

theorem number?_of_readIndex {b : BaseId} {d : Nat} {x : Int} (h : v.readIndex a b d = .ok x) :
    a.number? b d = some x := by
  obtain ⟨data, found, element⟩ := exists_of_bind_eq_ok h
  have buffer : a.buffer? b = some data := by
    rw [Arena.buffer] at found
    split at found
    next found' =>
      cases found
      exact found'
    next => contradiction
  rw [Arena.number?, buffer]
  split at element
  next held =>
    cases element
    exact held
  next => contradiction

/-- Reading one number for each of some axes changes these axes and no others. -/
theorem axes_of_foldlM {b : BaseId} {set : Axis → Int → Axis} {ds : List Nat} (once : ds.Nodup)
    (h : ds.foldlM (fun v d => do
      let x ← v.readIndex a b d
      pure { v with axes := v.axes.modify d (set · x) }) v = .ok w) :
    w.ndim = v.ndim ∧ (∀ d ∉ ds, w.axes[d]? = v.axes[d]?) ∧
      ∀ d ∈ ds, ∃ x, a.number? b d = some x ∧ w.axes[d]? = v.axes[d]?.map (set · x) := by
  induction ds generalizing v with
  | nil =>
    cases h
    exact ⟨rfl, fun _ _ => rfl, fun _ hd => absurd hd List.not_mem_nil⟩
  | cons d ds ih =>
    obtain ⟨notLater, once⟩ := List.nodup_cons.mp once
    rw [List.foldlM_cons] at h
    obtain ⟨v₁, step, rest⟩ := exists_of_bind_eq_ok h
    obtain ⟨x, read, changed⟩ := exists_of_bind_eq_ok step
    cases changed
    obtain ⟨count, others, here⟩ := ih once rest
    have kept {k : Nat} (ne : d ≠ k) : (v.axes.modify d (set · x))[k]? = v.axes[k]? :=
      List.getElem?_modify_ne _ _ ne
    refine ⟨count.trans (List.length_modify ..), fun k hk => ?_, fun k hk => ?_⟩
    · rw [List.mem_cons, not_or] at hk
      exact (others k hk.2).trans (kept (Ne.symm hk.1))
    · rcases List.mem_cons.mp hk with rfl | later
      · refine ⟨x, number?_of_readIndex read, ?_⟩
        exact (others k notLater).trans (List.getElem?_modify_eq ..)
      · obtain ⟨y, read, axis⟩ := here k later
        have ne : d ≠ k := fun same => notLater (same ▸ later)
        exact ⟨y, read, axis.trans (congrArg _ (kept ne))⟩

theorem axes_of_readAxes {b : BaseId} {set : Axis → Int → Axis}
    (h : v.readAxes a (some b) set = .ok w) : w.ndim = v.ndim ∧
      ∀ d < v.ndim, ∃ x, a.number? b d = some x ∧ w.axes[d]? = v.axes[d]?.map (set · x) := by
  obtain ⟨count, -, read⟩ := axes_of_foldlM List.nodup_range h
  exact ⟨count, fun d hd => read d (List.mem_range.mpr hd)⟩

/-- Size of an axis: what the index array of the sizes holds, if there is one. -/
def sizeIn? (v : View) (a : Arena) (d : Nat) : Option Int :=
  match v.index.shape with
  | some b => a.number? b d
  | none => v.shape[d]?

theorem sizes_of_readSizes
    (h : v.readAxes a v.index.shape (fun axis x => { axis with size := x }) = .ok w) :
    w.ndim = v.ndim ∧ ∀ d < v.ndim, w.shape[d]? = v.sizeIn? a d := by
  cases index : v.index.shape with
  | none =>
    rw [index] at h
    cases h
    exact ⟨rfl, fun d _ => by rw [sizeIn?, index]⟩
  | some b =>
    rw [index] at h
    obtain ⟨count, read⟩ := axes_of_readAxes h
    refine ⟨count, fun d hd => ?_⟩
    obtain ⟨x, held, axis⟩ := read d hd
    have exist : v.axes[d]? = some v.axes[d] := List.getElem?_eq_getElem hd
    have unfolded : v.sizeIn? a d = a.number? b d := by rw [sizeIn?, index]
    rw [unfolded, held, shape, List.getElem?_map, axis, exist]
    rfl

/-- Strides have no influence on sizes. -/
theorem sizes_of_readStrides {b : Option BaseId}
    (h : v.readAxes a b (fun axis x => { axis with stride := x }) = .ok w) :
    w.ndim = v.ndim ∧ ∀ d < v.ndim, w.shape[d]? = v.shape[d]? := by
  cases b with
  | none =>
    cases h
    exact ⟨rfl, fun _ _ => rfl⟩
  | some b =>
    obtain ⟨count, read⟩ := axes_of_readAxes h
    refine ⟨count, fun d hd => ?_⟩
    obtain ⟨x, -, axis⟩ := read d hd
    rw [shape, shape, List.getElem?_map, List.getElem?_map, axis, Option.map_map]
    rfl

theorem sizes_of_resolveAxes (h : v.resolveAxes a = .ok w) :
    w.ndim = v.ndim ∧ ∀ d < v.ndim, w.shape[d]? = v.sizeIn? a d := by
  obtain ⟨u, readSizes, readStrides⟩ := exists_of_bind_eq_ok h
  obtain ⟨count, sizes⟩ := sizes_of_readSizes readSizes
  obtain ⟨count', kept⟩ := sizes_of_readStrides readStrides
  refine ⟨count'.trans count, fun d hd => ?_⟩
  exact (kept d (count ▸ hd)).trans (sizes d hd)

/-- Resolving changes sizes to what the index array of the sizes holds. -/
theorem sizes_of_resolve (h : v.resolve a = .ok w) :
    w.ndim = v.ndim ∧ ∀ d < v.ndim, w.shape[d]? = v.sizeIn? a d := by
  rw [resolve_eq] at h
  split at h
  · exact sizes_of_resolveAxes h
  · obtain ⟨x, -, rest⟩ := exists_of_bind_eq_ok h
    have read := sizes_of_resolveAxes rest
    exact read

/-! ## Views in a repeat -/

/-- Size of an axis in a repeat: what the index array of the sizes holds, or what the slides have
made of the size. -/
def sizeAt? (v : View) (turn : Nat) (a : Arena) (d : Nat) : Option Int :=
  match v.index.shape with
  | some b => a.number? b d
  | none => v.axes[d]?.map fun axis => axis.size + v.growthAfter turn d

/-- What the first view has become in a repeat, after as many calls of its slides, with numbers from
index arrays of the arena. -/
structure InRepeat (turn : Nat) (a : Arena) (v w : View) : Prop where
  base : w.base = v.base
  count : w.ndim = v.ndim
  sizes : ∀ d < v.ndim, w.shape[d]? = v.sizeAt? turn a d

/-- Sizes that are not read from an index array stay sizes while no slide makes the view shrink. -/
theorem Accepted.sizeAt?_nonneg (h : v.Accepted) (direct : v.index.shape = none)
    (grows : ∀ s ∈ v.slides, 0 ≤ s.growth) {turn d : Nat} {n : Int}
    (size : v.sizeAt? turn a d = some n) : 0 ≤ n := by
  rw [sizeAt?, direct] at size
  obtain ⟨axis, here, rfl⟩ := Option.map_eq_some_iff.mp size
  have first : 0 ≤ axis.size := h.parts.sizes axis (List.mem_of_getElem? here)
  have grown : 0 ≤ v.growthAfter turn d := by
    refine List.sum_nonneg fun x hx => ?_
    obtain ⟨s, hs, rfl⟩ := List.mem_map.mp hx
    rw [Slide.growthAfter]
    split
    · exact Int.mul_nonneg (grows s hs) (Int.natCast_nonneg _)
    · exact Int.le_refl 0
  exact Int.add_nonneg first grown

theorem After.sizeIn?_eq (h : v₀.After n v) (a : Arena) (d : Nat) :
    v.sizeIn? a d = v₀.sizeAt? n a d := by
  have index : v.index = v₀.index := by rw [h.view]
  have axes : v.axes = growAxes v₀.axes (v₀.growthAfter n) := by rw [h.view]
  rw [sizeIn?, sizeAt?, index]
  cases v₀.index.shape with
  | some b => rfl
  | none =>
    show v.shape[d]? = _
    rw [shape, List.getElem?_map, axes, getElem?_growAxes, Option.map_map]
    rfl

theorem After.inRepeat (h : v₀.After n v) (resolved : v.resolve a = .ok w) :
    InRepeat n a v₀ w := by
  have base : v.base = v₀.base := by rw [h.view]
  have count : v.ndim = v₀.ndim := by
    rw [h.view]
    exact length_growAxes
  obtain ⟨count', sizes⟩ := sizes_of_resolve resolved
  refine ⟨(renumbered_of_resolve resolved).1.trans base, count'.trans count, fun d hd => ?_⟩
  exact (sizes d (count ▸ hd)).trans (h.sizeIn?_eq a d)

theorem resolve_of_direct (direct : v.usesIndexArrays = false) (a : Arena) : v.resolve a = .ok v := by
  simp only [usesIndexArrays, Bool.or_eq_false_iff, Option.isSome_eq_false_iff,
    Option.isNone_iff_eq_none] at direct
  obtain ⟨⟨start, shape⟩, stride⟩ := direct
  rw [resolve_eq, start]
  show v.resolveAxes a = .ok v
  rw [resolveAxes, shape]
  show v.readAxes a v.index.stride _ = .ok v
  rw [stride]
  rfl

/-- Start, shape and strides of the view are accepted where views are built. -/
def PartsAccepted (v : View) : Prop :=
  ∀ b, ∃ w, ofParts b v.dtype v.start v.shape v.strides = .ok w

theorem partsAccepted_iff : v.PartsAccepted ↔ v.ndim ≤ maxAxes ∧ ∀ n ∈ v.shape, 0 ≤ n := by
  have lengths : v.shape.length = v.strides.length := by rw [shape, strides, List.length_map,
    List.length_map]
  have count := v.length_shape
  constructor
  · intro accepted
    obtain ⟨w, built⟩ := accepted 0
    rw [ofParts, if_neg (not_not.mpr lengths)] at built
    split at built
    · contradiction
    next few =>
      split at built
      · contradiction
      next sizes => exact ⟨by omega, by simpa using sizes⟩
  · rintro ⟨few, sizes⟩ b
    have nonneg : v.shape.any (· < 0) = false := by simpa using sizes
    rw [ofParts, if_neg (not_not.mpr lengths), if_neg (by omega), nonneg]
    exact ⟨_, rfl⟩

/-- A view in a repeat would be accepted if and only if its numbers are no negative sizes. -/
theorem InRepeat.partsAccepted_iff {turn : Nat} (accepted : v.Accepted) (h : InRepeat turn a v w) :
    w.PartsAccepted ↔ ∀ d < v.ndim, ∀ n ∈ v.sizeAt? turn a d, 0 ≤ n := by
  have few : w.ndim ≤ maxAxes := h.count ▸ accepted.parts.axisCount
  rw [View.partsAccepted_iff, and_iff_right few]
  constructor
  · intro nonneg d hd n size
    exact nonneg n (List.mem_of_getElem? ((h.sizes d hd).trans size))
  · intro nonneg n member
    obtain ⟨d, here⟩ := List.mem_iff_getElem?.mp member
    have inside : d < w.shape.length := (List.getElem?_eq_some_iff.mp here).1
    rw [length_shape] at inside
    have hd : d < v.ndim := h.count ▸ inside
    exact nonneg d hd n ((h.sizes d hd).symm.trans here)

end View

namespace Statement

/-- The second statement is the first one after the slides of its views were called a number of
times. -/
structure After (s₀ : Statement) (n : Nat) (s : Statement) : Prop where
  rest : s.instr = { s₀.instr with operands := s.instr.operands }
  operands : List.Forall₂ (fun v₀ v => v₀.After n v) s₀.instr.operands s.instr.operands

/-- All views of the statement were built. -/
def Accepted (s : Statement) : Prop := ∀ v ∈ s.instr.operands, v.Accepted

instance (s : Statement) : Decidable s.Accepted :=
  inferInstanceAs (Decidable (∀ v ∈ s.instr.operands, v.Accepted))

variable {s s₀ : Statement} {n : Nat}

theorem Accepted.after (h : s.Accepted) : s.After 0 s :=
  ⟨rfl, List.forall₂_same.mpr fun v hv => (h v hv).after⟩

theorem After.slide (accepted : s₀.Accepted) (h : s₀.After n s) :
    ∃ t, s.slide = .ok t ∧ s₀.After (n + 1) t := by
  obtain ⟨views, moved, after⟩ := exists_mapM_of_forall₂ (f := View.slide) h.operands
    fun v₀ hv₀ v _ moved => moved.slide fun s hs => ((accepted v₀ hv₀).slides s hs).1
  by_cases slides : s.instr.operands.any (·.isSliding) = true
  · refine ⟨fresh { s.instr with operands := views }, ?_, ?_, after⟩
    · rw [Statement.slide, if_pos slides, moved]
      rfl
    · rw [h.rest]
      rfl
  · have still : ∀ v ∈ s.instr.operands, v.slide = .ok v := by
      intro v hv
      have none : v.slides.isEmpty = true := by
        simpa [View.isSliding] using fun sliding => slides (List.any_eq_true.mpr ⟨v, hv, sliding⟩)
      rw [View.slide, if_pos none]
    have same : s.instr.operands.mapM View.slide = .ok s.instr.operands :=
      mapM_of_forall₂ (List.forall₂_same.mpr still)
    obtain rfl := Except.ok.inj (same.symm.trans moved)
    refine ⟨s, by rw [Statement.slide, if_neg slides], h.rest, after⟩

/-- What the first statement has become in a repeat. -/
structure InRepeat (turn : Nat) (a : Arena) (s t : Statement) : Prop where
  rest : t.instr = { s.instr with operands := t.instr.operands }
  operands : List.Forall₂ (View.InRepeat turn a) s.instr.operands t.instr.operands

theorem operands_of_resolve {a : Arena} {t : Statement} (resolved : s.resolve a = .ok t) :
    List.Forall₂ (fun v w => v.resolve a = .ok w) s.instr.operands t.instr.operands := by
  rw [resolve] at resolved
  split at resolved
  · obtain ⟨views, each, rest⟩ := exists_of_bind_eq_ok resolved
    cases rest
    exact forall₂_of_mapM each
  next direct =>
    cases resolved
    refine List.forall₂_same.mpr fun v hv => View.resolve_of_direct ?_ a
    simpa using fun uses => direct (List.any_eq_true.mpr ⟨v, hv, uses⟩)

theorem After.inRepeat {a : Arena} {t : Statement} (h : s₀.After n s)
    (resolved : s.resolve a = .ok t) : InRepeat n a s₀ t := by
  have renumbered := renumbered_of_resolve resolved
  refine ⟨?_, ?_⟩
  · rw [renumbered.rest, h.rest]
  · exact forall₂_trans h.operands (operands_of_resolve resolved) fun _ _ _ after read =>
      after.inRepeat read

/-- A statement without index arrays becomes what its slides make of it. -/
theorem After.inRepeat_of_direct (h : s₀.After n s)
    (direct : s₀.instr.operands.any (·.usesIndexArrays) = false) (a : Arena) :
    InRepeat n a s₀ s := by
  have same : s.instr.operands.any (·.usesIndexArrays) = false :=
    (any_eq_of_forall₂ h.operands fun _ _ after => after.usesIndexArrays).trans direct
  have resolved : s.resolve a = .ok s := by
    rw [resolve, same]
    rfl
  exact h.inRepeat resolved

/-- A statement without slides stays as it is. -/
theorem After.still (accepted : s₀.Accepted) (h : s₀.After n s)
    (still : s₀.instr.operands.any (·.isSliding) = false) : s₀.After (n + 1) s := by
  have same : s.instr.operands.any (·.isSliding) = false :=
    (any_eq_of_forall₂ h.operands fun _ _ after => after.isSliding).trans still
  have kept : s.slide = .ok s := by
    rw [Statement.slide, same]
    rfl
  obtain ⟨t, slid, after⟩ := h.slide accepted
  obtain rfl := Except.ok.inj (kept.symm.trans slid)
  exact after

end Statement

end ArrayFusion
