import ArrayFusion.Proofs.Eval.Sequential

/-!
# A scalar in the place of a base

A base can be replaced by one scalar that the body of one loop declares. Wherever the loops stand,
all views of the base are the scalar then, and the scalar has an arbitrary value whenever the body
starts. Such runs are compared with plain runs computation by computation: the two arenas agree on
all other bases, and as long as the scalar is live it holds the element at which the loops stand.
-/

namespace ArrayFusion

/-! ## Runs with a scalar -/

namespace Base

/-- Type of the elements that the base has, or will have when it is allocated. -/
def cellType (base : Base) : DType := (base.data.map (·.dtype)).getD base.dtype

/-- Number of the elements that the base has, or will have when it is allocated. -/
def capacity (base : Base) : Nat := (base.data.map (·.size)).getD base.size

/-- A base with a single element. -/
def scalar (base : Base) : Base :=
  { base with size := 1, data := some (.zeros base.cellType 1) }

end Base

namespace Arena

/-- The arena with a scalar in the place of a base. -/
def withScalar (a : Arena) (b : BaseId) : Arena := a.modify b Base.scalar

/-- Gives the first element of a base a value of its type. -/
def fill (a : Arena) (b : BaseId) (x : (t : DType) → t.Elem) : Arena :=
  a.modify b fun base => { base with data := base.data.map (·.change 0 fun t _ => x t) }

/-- The arenas have the same contents apart from one base. -/
def AgreeBut (b : BaseId) (a a' : Arena) : Prop := ∀ c, c ≠ b → a'.get? c = a.get? c

end Arena

/-- The view with all positions at the first element, if it is a view of the base. -/
def View.onScalar (b : BaseId) (v : View) : View :=
  if v.base = some b then { v with start := 0, axes := v.axes.map fun a => { a with stride := 0 } }
  else v

/-- The instruction with a scalar in the place of a base. -/
def Instruction.onScalar (b : BaseId) (i : Instruction) : Instruction :=
  { i with operands := i.operands.map (View.onScalar b) }

/-- A scalar that takes the place of a base. -/
structure LocalScalar where
  base : BaseId
  /-- Number of the loop that declares the scalar in its body. -/
  loop : Nat
  /-- What the scalar holds when the body starts. -/
  initial : Turns → (t : DType) → t.Elem

/-- The start of a loop body. -/
def LocalScalar.declare (x : LocalScalar) (id : Nat) (ts : Turns) : Exec Unit :=
  if id = x.loop then Exec.change fun a => .ok (a.fill x.base (x.initial ts)) else pure ()

namespace Node

mutual

/-- Runs a node with a scalar in the place of a base. -/
def runScalar (x : LocalScalar) (ts : Turns) : Node → Exec Unit
  | leaf s _ => Exec.change ((s.instr.onScalar x.base).step ts)
  | loop head body =>
    if head.rank < 0 then pure ()
    else (List.range head.size.toNat).forM fun k : Nat => do
      x.declare head.id (ts ++ [turn head k])
      runScalarBody x (ts ++ [turn head k]) body

/-- Runs the nodes of a body in order. -/
def runScalarBody (x : LocalScalar) (ts : Turns) : List Node → Exec Unit
  | [] => pure ()
  | n :: body => do
    n.runScalar x ts
    runScalarBody x ts body

end

end Node

/-- Runs a kernel with a scalar in the place of a base. -/
def Nest.runScalar (kernel : Nest) (x : LocalScalar) : Exec Unit := do
  (kernel.allTemps.filter (· ≠ x.base)).forM fun b => Exec.change (·.allocate b)
  x.declare kernel.head.id []
  Node.runScalarBody x [] kernel.body

/-! ## Comparing runs -/

namespace Exec

/-- From arenas that are related by `P`, the second computation succeeds where the first one does,
and then the arenas are related by `Q`. Under a condition it also fails where the first one does,
and then the arenas agree apart from one base. -/
structure Simulates (b : BaseId) (condition : Prop) (P : Arena → Arena → Prop) (x y : Exec Unit)
    (Q : Arena → Arena → Prop) : Prop where
  ok : ∀ a a' c, P a a' → x a = (.ok (), c) → ∃ c', y a' = (.ok (), c') ∧ Q c c'
  error : condition → ∀ a a' f c, P a a' → x a = (.error f, c) →
    ∃ f' c', y a' = (.error f', c') ∧ c.AgreeBut b c'

variable {b : BaseId} {condition : Prop} {P P' Q Q' R : Arena → Arena → Prop}
  {x x' y y' : Exec Unit}

theorem bind_of_ok {α β : Type} {x : Exec α} {y : α → Exec β} {a c : Arena} {u : α}
    (h : x a = (.ok u, c)) : (x >>= y) a = y u c := by
  rw [run_bind, h]

theorem bind_of_error {α β : Type} {x : Exec α} {y : α → Exec β} {a c : Arena} {f : Fault}
    (h : x a = (.error f, c)) : (x >>= y) a = (.error f, c) := by
  rw [run_bind, h]

theorem change_eq_ok_iff {f : Arena → Except Fault Arena} {a c : Arena} :
    change f a = (.ok (), c) ↔ f a = .ok c := by
  rw [run_change]
  cases f a with
  | error e => exact ⟨nofun, nofun⟩
  | ok d =>
    constructor
    · rintro ⟨⟩
      rfl
    · rintro ⟨⟩
      rfl

theorem change_eq_error_iff {f : Arena → Except Fault Arena} {a c : Arena} {e : Fault} :
    change f a = (.error e, c) ↔ f a = .error e ∧ a = c := by
  rw [run_change]
  cases f a with
  | ok d => exact ⟨nofun, fun h => nomatch h.1⟩
  | error e' =>
    constructor
    · rintro ⟨⟩
      exact ⟨rfl, rfl⟩
    · rintro ⟨⟨⟩, rfl⟩
      rfl

namespace Simulates

theorem consequence (h : Simulates b condition P x y Q) (pre : ∀ a a', P' a a' → P a a')
    (post : ∀ a a', Q a a' → Q' a a') : Simulates b condition P' x y Q' where
  ok a a' c related ran := by
    obtain ⟨c', ran', after⟩ := h.ok a a' c (pre a a' related) ran
    exact ⟨c', ran', post c c' after⟩
  error given a a' f c related := h.error given a a' f c (pre a a' related)

theorem skip (P : Arena → Arena → Prop) : Simulates b condition P (pure ()) (pure ()) P where
  ok a a' c related ran := by
    cases ran
    exact ⟨a', rfl, related⟩
  error _ a a' f c _ failed := by
    cases failed

theorem seq (first : Simulates b condition P x y Q) (second : Simulates b condition Q x' y' R) :
    Simulates b condition P (x >>= fun _ => x') (y >>= fun _ => y') R where
  ok a a' c related ran := by
    rcases here : x a with ⟨_ | ⟨⟩, d⟩
    · rw [bind_of_error here] at ran
      cases ran
    · rw [bind_of_ok here] at ran
      obtain ⟨d', here', after⟩ := first.ok a a' d related here
      rw [bind_of_ok here']
      exact second.ok d d' c after ran
  error given a a' f c related failed := by
    rcases here : x a with ⟨g | ⟨⟩, d⟩
    · rw [bind_of_error here] at failed
      cases failed
      obtain ⟨g', d', here', agree⟩ := first.error given a a' f c related here
      exact ⟨g', d', bind_of_error here', agree⟩
    · rw [bind_of_ok here] at failed
      obtain ⟨d', here', after⟩ := first.ok a a' d related here
      rw [bind_of_ok here']
      exact second.error given d d' f c after failed

/-- Rounds that keep a relation keep it one after the other. -/
theorem forM {α : Type} {xs : List α} {f g : α → Exec Unit}
    (round : ∀ z ∈ xs, Simulates b condition P (f z) (g z) P) :
    Simulates b condition P (xs.forM f) (xs.forM g) P := by
  induction xs with
  | nil => exact skip P
  | cons z xs ih =>
      exact (round z List.mem_cons_self).seq (ih fun z hz => round z (List.mem_cons_of_mem _ hz))

/-- A change of the arena that fails changes nothing. -/
theorem change {f g : Arena → Except Fault Arena} (agree : ∀ a a', P a a' → a.AgreeBut b a')
    (both : ∀ a a', P a a' → condition ∨ (f a).toOption ≠ none →
      Option.Rel Q (f a).toOption (g a').toOption) :
    Simulates b condition P (Exec.change f) (Exec.change g) Q where
  ok a a' c related ran := by
    have result := change_eq_ok_iff.mp ran
    have after := both a a' related (.inr (by rw [result]; exact Option.some_ne_none c))
    rw [result] at after
    cases other : g a' with
    | error e =>
        rw [other] at after
        cases after
    | ok c' =>
        rw [other] at after
        cases after with
        | some after => exact ⟨c', change_eq_ok_iff.mpr other, after⟩
  error given a a' e c related failed := by
    obtain ⟨result, rfl⟩ := change_eq_error_iff.mp failed
    have after := both a a' related (.inl given)
    rw [result] at after
    cases other : g a' with
    | ok c' =>
        rw [other] at after
        cases after
    | error e' => exact ⟨e', a', change_eq_error_iff.mpr ⟨other, rfl⟩, agree a a' related⟩

end Simulates

/-- Both runs succeed or both fail, and they leave the same contents of all bases but one. -/
structure EndsAlike (b : BaseId) (r r' : Except Fault Unit × Arena) : Prop where
  outcome : r'.1 = .ok () ↔ r.1 = .ok ()
  contents : r.2.AgreeBut b r'.2

theorem Simulates.endsAlike (h : Simulates b condition P x y Q)
    (agree : ∀ c c', Q c c' → c.AgreeBut b c') {a a' : Arena} (related : P a a')
    (proceeds : (x a).1 = .ok () ∨ condition) : EndsAlike b (x a) (y a') := by
  rcases ran : x a with ⟨f | ⟨⟩, c⟩
  · rw [ran] at proceeds
    obtain ⟨f', c', ran', contents⟩ :=
      h.error (proceeds.resolve_left (by simp)) a a' f c related ran
    rw [ran']
    exact ⟨by simp, contents⟩
  · obtain ⟨c', ran', after⟩ := h.ok a a' c related ran
    rw [ran']
    exact ⟨by simp, agree c c' after⟩

end Exec

end ArrayFusion
