import ArrayFusion.Proofs.Eval.Elementwise
import Mathlib.Data.List.Nodup

/-!
# Compatible instructions run in step

Two instructions can share a loop if running both of them at one position after the other is the
same as running the first one everywhere and then the second one. The test `Instruction.compatible`
asks that one writes what the other accesses at the same position or not at all. This is enough for
elementwise instructions, unless one hands elements to the other on a view that has an element
twice: there, one position reads what another one writes.

A view that both only write to may have elements twice. The inputs are left alone then, and the
element keeps what the second instruction writes to it last, in step or not.
-/

namespace ArrayFusion

open Shape View

namespace Action

/-- The action that fails everywhere. -/
def fails : Action := ⟨fun _ => none⟩

theorem fails_mul (e : Action) : fails * e = fails := rfl

theorem mul_fails (e : Action) : e * fails = fails :=
  ext fun a => by
    rw [run_mul]
    cases e.run a <;> rfl

theorem prod_of_mem_fails {es : List Action} (h : fails ∈ es) : es.prod = fails := by
  induction es with
  | nil => simp at h
  | cons e es ih =>
      rw [List.prod_cons]
      rcases List.mem_cons.mp h with rfl | h
      · exact fails_mul _
      · rw [ih h, mul_fails]

end Action

open ArrayFusion.Action

/-- Two positions of a view without repeated elements have different addresses. -/
theorem View.eq_of_offsetAt_eq {v : View} {p q : List Int} (sizes : ∀ a ∈ v.axes, 0 ≤ a.size)
    (once : v.addresses.Nodup) (rangeP : InRange v.shape p) (rangeQ : InRange v.shape q)
    (same : offsetAt v.axes p = offsetAt v.axes q) : p = q := by
  rw [addresses_eq sizes] at once
  exact List.inj_on_of_nodup_map once (mem_positions.mpr rangeP) (mem_positions.mpr rangeQ)
    (by rw [same])

namespace Instruction

variable {i j : Instruction} {p q : List Int} {b : BaseId} {x : Int} {a a' : Arena}

/-- What `j` reads on the very view that `i` writes, `i` writes once. -/
def FeedsOnce (i j : Instruction) : Prop :=
  ∀ out ∈ i.operands[0]?, ∀ v ∈ j.operands.tail,
    out.isConstant = false → out.sameAccess v = true → out.addresses.Nodup

instance (i j : Instruction) : Decidable (i.FeedsOnce j) :=
  inferInstanceAs (Decidable (∀ out ∈ i.operands[0]?, ∀ v ∈ j.operands.tail,
    out.isConstant = false → out.sameAccess v = true → out.addresses.Nodup))

theorem writesInStep_of_compatible (hi : i.opcode.isSystem = false)
    (hj : j.opcode.isSystem = false) (h : i.compatible j = true) :
    i.writesInStep j = true ∧ j.writesInStep i = true := by
  rw [compatible, hi, hj] at h
  simp only [Bool.or_self, Bool.false_eq_true, if_false] at h
  split at h
  next empty =>
    simp only [Bool.or_eq_true, List.isEmpty_iff] at empty
    rcases empty with empty | empty
    · simp only [writesInStep, empty]
      cases j.operands[0]? <;> simp
    · simp only [writesInStep, empty]
      cases i.operands[0]? <;> simp
  next => rwa [Bool.and_eq_true] at h

/-- An array that one instruction writes to and the other one accesses as well. -/
theorem disjoint_or_sameAccess (inStep : i.writesInStep j = true) {out v : View} {l : Nat}
    (hout : i.operands[0]? = some out) (hv : j.operands[l]? = some v)
    (array : v.isConstant = false) (base : out.base = v.base) :
    out.disjoint v = true ∨ out.sameAccess v = true := by
  rw [writesInStep, hout] at inStep
  have checked := List.all_eq_true.mp inStep (v, l) (List.mem_zipIdx_iff_getElem?.mpr hv)
  simp only [array, base, bne_self_eq_false, Bool.or_self, Bool.false_eq_true, if_false] at checked
  split at checked
  · contradiction
  · simpa using checked

/-! ## Views without repeated elements -/

/-- At another position, nothing that is written is touched. -/
theorem not_touches_in_step (hi : i.Pointwise) (hj : j.Pointwise) (shape : i.shape = j.shape)
    (inStep : i.writesInStep j = true)
    (once : ∀ out ∈ i.operands[0]?, ∀ v ∈ j.operands, out.isConstant = false →
      out.sameAccess v = true → out.addresses.Nodup)
    (rangeP : InRange i.shape p) (rangeQ : InRange j.shape q) (apart : p ≠ q)
    (written : i.Writes (i.turns p) b x) : ¬ j.Touches (j.turns q) b x := by
  intro touched
  obtain ⟨out, hout, base, here⟩ := hi.of_writes written
  obtain ⟨l, v, hv, base', here'⟩ := hj.of_touches touched
  have array := isConstant_of_base base
  have array' := isConstant_of_base base'
  have memOut := List.mem_of_getElem? hout
  have memV := List.mem_of_getElem? hv
  have same : out.base = v.base := base.trans base'.symm
  rcases disjoint_or_sameAccess inStep hout hv array' same with disjoint | access
  · refine not_mem_of_disjoint disjoint array same (hi.views out memOut) (hj.views v memV) ?_
      (hj.offset_mem_addresses rangeQ hv array')
    rw [← here', here]
    exact hi.offset_mem_addresses rangeP hout array
  · obtain ⟨-, start, axes⟩ := sameAccess_iff.mp access
    have wide := hi.whole out memOut array
    refine apart (eq_of_offsetAt_eq (hi.views out memOut).sizes (once out hout v memV array access)
      (wide ▸ rangeP) (wide ▸ shape ▸ rangeQ) ?_)
    rw [hi.offset_eq rangeP hout array] at here
    rw [hj.offset_eq rangeQ hv array', ← start, ← axes] at here'
    omega

/-! ## A view that both write to

What the inputs hold does not change, so that the instructions write what they find at the
beginning, wherever they stand in the order. -/

/-- What the instruction does where the loops stand if it finds what an arena holds. -/
def foreseen (i : Instruction) (a : Arena) (ts : Turns) : Action :=
  match (i.effect? a ts).toOption with
  | some w => writeAct w
  | none => fails

theorem run_foreseen (i : Instruction) (a : Arena) (ts : Turns) :
    (i.foreseen a ts).run a = (i.act ts).run a := by
  rw [run_act, foreseen]
  cases (i.effect? a ts).toOption <;> rfl

/-- Steps that do not see what the others write do what was foreseen before the first one. -/
theorem run_prod_foreseen {steps : List (Instruction × List Int)}
    (blind : ∀ e ∈ steps, ∀ d ∈ steps, ∀ a a' : Arena,
      (e.1.foreseen a (e.1.turns e.2)).run a = some a' →
        d.1.foreseen a' (d.1.turns d.2) = d.1.foreseen a (d.1.turns d.2)) (a : Arena) :
    (steps.map fun e : Instruction × List Int => e.1.actAt e.2).prod.run a =
      (steps.map fun e : Instruction × List Int => e.1.foreseen a (e.1.turns e.2)).prod.run a := by
  induction steps generalizing a with
  | nil => rfl
  | cons e steps ih =>
      have first : (e.1.actAt e.2).run a = (e.1.foreseen a (e.1.turns e.2)).run a :=
        (run_foreseen e.1 a _).symm
      rw [List.map_cons, List.prod_cons, List.map_cons, List.prod_cons, run_mul, run_mul, first]
      cases reached : (e.1.foreseen a (e.1.turns e.2)).run a with
      | none => rfl
      | some a' =>
          have same : ∀ d ∈ steps, d.1.foreseen a' (d.1.turns d.2) =
              d.1.foreseen a (d.1.turns d.2) := fun d hd =>
            blind e (by simp) d (by simp [hd]) a a' reached
          rw [Option.bind_some, Option.bind_some,
            ih fun d hd d' hd' => blind d (by simp [hd]) d' (by simp [hd']),
            List.map_congr_left same]

/-- Foreseen or not, an elementwise instruction fails or writes to its output. -/
theorem Pointwise.foreseen_eq (h : i.Pointwise) (a : Arena) (ts : Turns) :
    i.foreseen a ts = fails ∨ ∃ w : Write, i.foreseen a ts = w.act ∧
      i.outputBase? = some w.base ∧ i.offset ts 0 = w.position := by
  rw [foreseen, toOption_effect? h.elementwise]
  cases i.result? a ts with
  | none => exact .inl rfl
  | some x =>
      rw [Option.bind_some]
      cases written : (i.writeTo (i.offset ts 0) x).toOption with
      | none => exact .inl rfl
      | some w => exact .inr ⟨w, rfl, writeTo_eq_some written⟩

/-- No input of the instruction has one of the elements. -/
def ReadsNone (i : Instruction) (b : BaseId) (xs : List Int) : Prop :=
  ∀ k v, k ≠ 0 → i.operands[k]? = some v → v.base = some b → ∀ x ∈ xs, x ∉ v.addresses

theorem foreseen_of_readsNone {xs : List Int} (h : i.Pointwise) (unread : i.ReadsNone b xs)
    (range : InRange i.shape p) {w : Write} (base : w.base = b) (position : (w.position : Int) ∈ xs)
    (written : w.act.run a = some a') : i.foreseen a' (i.turns p) = i.foreseen a (i.turns p) := by
  have loads : ∀ k, k ≠ 0 → (i.loadAt a' (i.turns p) k).toOption =
      (i.loadAt a (i.turns p) k).toOption := by
    intro k input
    refine load_congr fun v c hv hc => ?_
    refine value?_of_writeAct (w := some w) written ?_
    rintro _ ⟨⟩ rfl here
    refine unread k v input hv (base ▸ hc) w.position position ?_
    rw [← here]
    exact h.offset_mem_addresses range hv (isConstant_of_base hc)
  rw [foreseen, foreseen, toOption_effect? h.elementwise, toOption_effect? h.elementwise,
    result?_congr loads]

/-- Two instructions that write to the same view at every position. -/
structure WriteTogether (i j : Instruction) (out out' : View) : Prop where
  first : i.Pointwise
  second : j.Pointwise
  shape : i.shape = j.shape
  output : i.operands[0]? = some out
  output' : j.operands[0]? = some out'
  array : out.isConstant = false
  access : out.sameAccess out' = true

namespace WriteTogether

variable {out out' : View}

theorem array' (h : WriteTogether i j out out') : out'.isConstant = false := by
  rw [isConstant, ← (sameAccess_iff.mp h.access).1]
  exact h.array

theorem outputBase?_eq (h : WriteTogether i j out out') : j.outputBase? = i.outputBase? := by
  rw [outputBase?, outputBase?, List.head?_eq_getElem?, List.head?_eq_getElem?, h.output,
    h.output', Option.bind_some, Option.bind_some, (sameAccess_iff.mp h.access).1]

theorem offset_eq (h : WriteTogether i j out out') (range : InRange i.shape p) :
    j.offset (j.turns p) 0 = i.offset (i.turns p) 0 := by
  obtain ⟨-, start, axes⟩ := sameAccess_iff.mp h.access
  rw [h.first.offset_eq range h.output h.array,
    h.second.offset_eq (h.shape ▸ range) h.output' h.array', start, axes]

/-- Of what both were foreseen to write, the second one counts, in step or not. -/
theorem prod_foreseen (h : WriteTogether i j out out') (a : Arena) :
    ((positions i.shape).map fun p => i.foreseen a (i.turns p) * j.foreseen a (j.turns p)).prod =
      ((positions i.shape).map fun p => i.foreseen a (i.turns p)).prod *
        ((positions i.shape).map fun p => j.foreseen a (j.turns p)).prod := by
  by_cases failing : ∃ p ∈ positions i.shape,
      i.foreseen a (i.turns p) = fails ∨ j.foreseen a (j.turns p) = fails
  · obtain ⟨p, hp, failing⟩ := failing
    rw [← List.prod_append, prod_of_mem_fails, prod_of_mem_fails]
    · refine List.mem_append.mpr (failing.imp ?_ ?_) <;> exact fun failing =>
        List.mem_map.mpr ⟨p, hp, failing⟩
    · refine List.mem_map.mpr ⟨p, hp, ?_⟩
      rcases failing with failing | failing
      · rw [failing, fails_mul]
      · rw [failing, mul_fails]
  · have succeeds : ∀ p ∈ positions i.shape, ∃ w w' : Write,
        i.foreseen a (i.turns p) = w.act ∧ j.foreseen a (j.turns p) = w'.act ∧
          w.base = w'.base ∧ i.outputBase? = some w.base ∧
          i.offset (i.turns p) 0 = w.position ∧ w.position = w'.position := by
      intro p hp
      obtain ⟨w, act, base, position⟩ := (h.first.foreseen_eq a (i.turns p)).resolve_left
        fun fail => failing ⟨p, hp, .inl fail⟩
      obtain ⟨w', act', base', position'⟩ := (h.second.foreseen_eq a (j.turns p)).resolve_left
        fun fail => failing ⟨p, hp, .inr fail⟩
      rw [h.outputBase?_eq, base] at base'
      rw [h.offset_eq (mem_positions.mp hp), position] at position'
      exact ⟨w, w', act, act', Option.some.inj base', base, position, by omega⟩
    refine prod_mul_prod_of_covered (fun p hp => ?_) fun p hp q hq => ?_
    · obtain ⟨w, w', act, act', base, -, -, position⟩ := succeeds p hp
      rw [act, act', Write.act_mul_of_same base position]
    · obtain ⟨w, -, act, -, -, base, -, -⟩ := succeeds p hp
      obtain ⟨v, w', -, act', base', first, -, -⟩ := succeeds q hq
      rw [act, act']
      by_cases same : w.position = w'.position
      · have bases : w.base = w'.base :=
          (Option.some.inj (base.symm.trans first)).trans base'
        exact .inl (Write.act_mul_of_same bases same)
      · exact .inr (Write.commute fun _ => same)

/-- What either of them was foreseen to do is a write to the view. -/
theorem exists_write (h : WriteTogether i j out out') (base : out.base = some b)
    {e : Instruction × List Int} (one : e.1 = i ∨ e.1 = j) (inside : e.2 ∈ positions i.shape)
    (reached : (e.1.foreseen a (e.1.turns e.2)).run a = some a') :
    ∃ w : Write, w.base = b ∧ (w.position : Int) ∈ out.addresses ∧ w.act.run a = some a' := by
  have range := mem_positions.mp inside
  have output : i.outputBase? = some b := by
    rw [outputBase?, List.head?_eq_getElem?, h.output]
    exact base
  have place := h.first.offset_mem_addresses range h.output h.array
  have written : ∀ k : Instruction, k.Pointwise → k.outputBase? = some b →
      k.offset (k.turns e.2) 0 = i.offset (i.turns e.2) 0 →
      (k.foreseen a (k.turns e.2)).run a = some a' →
      ∃ w : Write, w.base = b ∧ (w.position : Int) ∈ out.addresses ∧ w.act.run a = some a' := by
    intro k pointwise output offset reached
    rcases pointwise.foreseen_eq a (k.turns e.2) with fail | ⟨w, act, base', position⟩
    · rw [fail] at reached
      contradiction
    · refine ⟨w, Option.some.inj (base'.symm.trans output), ?_, act ▸ reached⟩
      rw [← position, offset]
      exact place
  rcases one with one | one
  · rw [one] at reached
    exact written i h.first output rfl reached
  · rw [one] at reached
    exact written j h.second (h.outputBase?_eq.trans output) (h.offset_eq range) reached

/-- The two instructions run in step if their inputs are left alone. -/
theorem prod_actAt (h : WriteTogether i j out out') (base : out.base = some b)
    (unread : i.ReadsNone b out.addresses) (unread' : j.ReadsNone b out.addresses) :
    ((positions i.shape).map fun p => i.actAt p * j.actAt p).prod =
      ((positions i.shape).map i.actAt).prod * ((positions i.shape).map j.actAt).prod := by
  let inStep := (positions i.shape).flatMap fun p => [(i, p), (j, p)]
  let inTurn := (positions i.shape).map (i, ·) ++ (positions i.shape).map (j, ·)
  have prod_inStep : ∀ f : Instruction × List Int → Action, (inStep.map f).prod =
      ((positions i.shape).map fun p => f (i, p) * f (j, p)).prod := by
    intro f
    simp only [inStep]
    induction positions i.shape with
    | nil => rfl
    | cons p ps ih => simp [ih, mul_assoc]
  have prod_inTurn : ∀ f : Instruction × List Int → Action, (inTurn.map f).prod =
      ((positions i.shape).map fun p => f (i, p)).prod *
        ((positions i.shape).map fun p => f (j, p)).prod := by
    intro f
    simp [inTurn, Function.comp_def]
  -- No step sees what another one writes.
  have blind : ∀ e : Instruction × List Int, (e.1 = i ∨ e.1 = j) ∧ e.2 ∈ positions i.shape →
      ∀ d : Instruction × List Int, (d.1 = i ∨ d.1 = j) ∧ d.2 ∈ positions i.shape →
      ∀ a a' : Arena, (e.1.foreseen a (e.1.turns e.2)).run a = some a' →
        d.1.foreseen a' (d.1.turns d.2) = d.1.foreseen a (d.1.turns d.2) := by
    rintro e ⟨oneE, insideE⟩ d ⟨oneD, insideD⟩ a a' reached
    obtain ⟨w, base', position, written⟩ := h.exists_write base oneE insideE reached
    have range := mem_positions.mp insideD
    rcases oneD with one | one
    · rw [one]
      exact foreseen_of_readsNone h.first unread range base' position written
    · rw [one]
      exact foreseen_of_readsNone h.second unread' (h.shape ▸ range) base' position written
  have step : ∀ e ∈ inStep, (e.1 = i ∨ e.1 = j) ∧ e.2 ∈ positions i.shape := by
    intro e he
    obtain ⟨p, hp, here⟩ := List.mem_flatMap.mp he
    simp only [List.mem_cons, List.not_mem_nil, or_false] at here
    rcases here with rfl | rfl <;> simp [hp]
  have turn : ∀ e ∈ inTurn, (e.1 = i ∨ e.1 = j) ∧ e.2 ∈ positions i.shape := by
    intro e he
    rcases List.mem_append.mp he with here | here
    all_goals
      obtain ⟨p, hp, rfl⟩ := List.mem_map.mp here
      simp [hp]
  refine ext fun a => ?_
  calc ((positions i.shape).map fun p => i.actAt p * j.actAt p).prod.run a
      = (inStep.map fun e : Instruction × List Int => e.1.actAt e.2).prod.run a := by
        rw [prod_inStep]
    _ = (inStep.map fun e : Instruction × List Int =>
          e.1.foreseen a (e.1.turns e.2)).prod.run a :=
        run_prod_foreseen (fun e he d hd => blind e (step e he) d (step d hd)) a
    _ = (inTurn.map fun e : Instruction × List Int =>
          e.1.foreseen a (e.1.turns e.2)).prod.run a := by
        rw [prod_inStep, prod_inTurn, h.prod_foreseen a]
    _ = (inTurn.map fun e : Instruction × List Int => e.1.actAt e.2).prod.run a :=
        (run_prod_foreseen (fun e he d hd => blind e (turn e he) d (turn d hd)) a).symm
    _ = (((positions i.shape).map i.actAt).prod *
          ((positions i.shape).map j.actAt).prod).run a := by
        rw [prod_inTurn]

end WriteTogether

/-! ## Compatible instructions -/

/-- Apart from a view that both write to, compatible instructions do not meet on a view with
repeated elements. -/
theorem nodup_of_feedsOnce (feeds : i.FeedsOnce j) {out v : View} (hout : i.operands[0]? = some out)
    (hv : v ∈ j.operands) (array : out.isConstant = false) (access : out.sameAccess v = true)
    (outputs : ∀ out', j.operands[0]? = some out' → out.sameAccess out' = true →
      out.addresses.Nodup) : out.addresses.Nodup := by
  cases operands : j.operands with
  | nil => simp [operands] at hv
  | cons out' inputs =>
      rw [operands] at hv
      rcases List.mem_cons.mp hv with rfl | input
      · exact outputs v (by simp [operands]) access
      · exact feeds out hout v (by simpa [operands] using input) array access

/-- Inputs that meet no view with repeated elements ignore one that both instructions write to. -/
theorem readsNone_of_feedsOnce (hi : i.Pointwise) (hj : j.Pointwise)
    (inStep : i.writesInStep j = true) (feeds : i.FeedsOnce j) {out : View}
    (hout : i.operands[0]? = some out) (base : out.base = some b)
    (repeated : ¬ out.addresses.Nodup) : j.ReadsNone b out.addresses := by
  intro k v input hv hb x hx
  have array := isConstant_of_base base
  have same : out.base = v.base := base.trans hb.symm
  rcases disjoint_or_sameAccess inStep hout hv (isConstant_of_base hb) same with disjoint | access
  · exact not_mem_of_disjoint disjoint array same (hi.views out (List.mem_of_getElem? hout))
      (hj.views v (List.mem_of_getElem? hv)) hx
  · obtain ⟨n, rfl⟩ := Nat.exists_eq_succ_of_ne_zero input
    have member : v ∈ j.operands.tail := by
      apply List.mem_of_getElem? (i := n)
      rwa [List.getElem?_tail]
    exact absurd (feeds out hout v member array access) repeated

/-- Compatible instructions act in step as they act one after the other. -/
theorem prod_actAt_of_compatible (hi : i.Pointwise) (hj : j.Pointwise) (shape : i.shape = j.shape)
    (compatible : i.compatible j = true) (feeds : i.FeedsOnce j) (feeds' : j.FeedsOnce i) :
    ((positions i.shape).map fun p => i.actAt p * j.actAt p).prod =
      ((positions i.shape).map i.actAt).prod * ((positions i.shape).map j.actAt).prod := by
  obtain ⟨inStep, inStep'⟩ := writesInStep_of_compatible
    (not_isSystem_of_isElementwise hi.elementwise) (not_isSystem_of_isElementwise hj.elementwise)
    compatible
  by_cases shared : ∃ out out', i.operands[0]? = some out ∧ j.operands[0]? = some out' ∧
      out.isConstant = false ∧ out.sameAccess out' = true ∧ ¬ out.addresses.Nodup
  · obtain ⟨out, out', hout, hout', array, access, repeated⟩ := shared
    have together : WriteTogether i j out out' := ⟨hi, hj, shape, hout, hout', array, access⟩
    obtain ⟨b, base⟩ : ∃ b, out.base = some b := by
      rwa [isConstant, Option.isNone_eq_false_iff, Option.isSome_iff_exists] at array
    have base' : out'.base = some b := (sameAccess_iff.mp access).1 ▸ base
    have addresses := addresses_of_sameAccess access
    refine together.prod_actAt base ?_
      (readsNone_of_feedsOnce hi hj inStep feeds hout base repeated)
    rw [addresses] at repeated ⊢
    exact readsNone_of_feedsOnce hj hi inStep' feeds' hout' base' repeated
  · have outputs : ∀ out out', i.operands[0]? = some out → j.operands[0]? = some out' →
        out.isConstant = false → out.sameAccess out' = true → out.addresses.Nodup := by
      intro out out' hout hout' array access
      by_contra repeated
      exact shared ⟨out, out', hout, hout', array, access, repeated⟩
    have once : ∀ out ∈ i.operands[0]?, ∀ v ∈ j.operands, out.isConstant = false →
        out.sameAccess v = true → out.addresses.Nodup := fun out hout v hv array access =>
      nodup_of_feedsOnce feeds hout hv array access fun out' hout' =>
        outputs out out' hout hout' array
    have once' : ∀ out' ∈ j.operands[0]?, ∀ v ∈ i.operands, out'.isConstant = false →
        out'.sameAccess v = true → out'.addresses.Nodup := fun out' hout' v hv array access =>
      nodup_of_feedsOnce feeds' hout' hv array access fun out hout access => by
        obtain ⟨base, start, axes⟩ := sameAccess_iff.mp access
        have back : out.sameAccess out' = true :=
          sameAccess_iff.mpr ⟨base.symm, start.symm, axes.symm⟩
        rw [← addresses_of_sameAccess back]
        exact outputs out out' hout hout' (by rwa [isConstant, ← base]) back
    refine prod_mul_prod ((nodup_positions i.shape).imp_of_mem fun {p q} hp hq apart => ?_)
    have rangeP := mem_positions.mp hp
    have rangeQ := mem_positions.mp hq
    exact commute_of_apart
      (fun b x => not_touches_in_step hj hi shape.symm inStep' once' (shape ▸ rangeP) rangeQ apart)
      (fun b x => not_touches_in_step hi hj shape inStep once rangeQ (shape ▸ rangeP) apart.symm)

/-- Carries out the instruction at a position. -/
def runAt (i : Instruction) (p : List Int) : Exec Unit := Exec.change (i.step (i.turns p))

theorem act_runAt (i : Instruction) (p : List Int) : (i.runAt p).act = i.actAt p :=
  Exec.act_change _

/-- Compatible instructions can share a loop. For elementwise instructions on one shape, carrying
out both at each position in turn ends as carrying out the first one at all positions and then the
second one does, unless one reads on the very view that the other one writes and this view has an
element twice. -/
theorem run_in_step_of_compatible (hi : i.Pointwise) (hj : j.Pointwise) (shape : i.shape = j.shape)
    (compatible : i.compatible j = true) (feeds : i.FeedsOnce j) (feeds' : j.FeedsOnce i)
    (a a' : Arena) :
    ((positions i.shape).forM fun p => do i.runAt p; j.runAt p) a = (.ok (), a') ↔
      (do (positions i.shape).forM i.runAt; (positions j.shape).forM j.runAt : Exec Unit) a =
        (.ok (), a') := by
  have inStep : ((positions i.shape).forM fun p => do i.runAt p; j.runAt p).act =
      ((positions i.shape).map fun p => i.actAt p * j.actAt p).prod := by
    simp only [Exec.act_forM, Exec.act_bind, act_runAt]
  have inTurn :
      (do (positions i.shape).forM i.runAt; (positions j.shape).forM j.runAt : Exec Unit).act =
        ((positions i.shape).map i.actAt).prod * ((positions i.shape).map j.actAt).prod := by
    simp only [Exec.act_forM, Exec.act_bind, act_runAt, ← shape]
  have same := prod_actAt_of_compatible hi hj shape compatible feeds feeds'
  constructor
  · intro run
    exact Exec.eq_of_run_act (inTurn ▸ same ▸ inStep ▸ Exec.run_act_of_ok run)
  · intro run
    exact Exec.eq_of_run_act (inStep ▸ same ▸ inTurn ▸ Exec.run_act_of_ok run)

/-- A square is copied into a transposed one, which is doubled. -/
theorem run_in_step_of_compatible_transposed :
    let square (b : BaseId) : View :=
      { base := some b, dtype := .int64, axes := View.rowMajor [2, 2] }
    let turned : View := { base := some 1, dtype := .int64, axes := [⟨2, 1⟩, ⟨2, 2⟩] }
    let i : Instruction := { opcode := .unary .identity, operands := [turned, square 0] }
    let j : Instruction := { opcode := .binary .add, operands := [square 2, turned, turned] }
    let data : Base := ⟨.int64, 4, some (.zeros .int64 4)⟩
    let a : Arena := .ofList [data, data, data]
    ∃ a', ((positions i.shape).forM fun p => do i.runAt p; j.runAt p) a = (.ok (), a') ∧
      (do (positions i.shape).forM i.runAt; (positions j.shape).forM j.runAt : Exec Unit) a =
        (.ok (), a') := by
  intro square turned i j data a
  have succeeded : ((do (positions i.shape).forM i.runAt
                        (positions j.shape).forM j.runAt : Exec Unit) a).1 = .ok () :=
    ok_of_toOption (by decide +kernel)
  obtain ⟨a', inTurn⟩ := Exec.exists_of_ok succeeded
  exact ⟨a', (run_in_step_of_compatible (by decide) (by decide) (by decide) (by decide) (by decide)
    (by decide) a a').mpr inTurn, inTurn⟩

/-- The last element of a line, written and read where every position has the same element. The
test passes, but one at a time the copy would have the last element only. -/
example :
    let last : View := { base := some 1, dtype := .int64, axes := [⟨2, 0⟩] }
    let i : Instruction := { opcode := .unary .identity, operands := [last, .whole 0 .int64 2] }
    let j : Instruction := { opcode := .unary .identity, operands := [.whole 2 .int64 2, last] }
    i.compatible j = true ∧ ¬ i.FeedsOnce j := by
  decide

end Instruction

end ArrayFusion
