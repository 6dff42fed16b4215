import ArrayFusion.Storage.Arena

/-!
# Elements of an arena

An arena consists of its layout, which says what bases there are and how many elements of which type
they hold, and of the elements themselves. An update that succeeds changes one element and keeps the
layout.
-/

namespace ArrayFusion

/-- An element with its type. -/
abbrev Cell := (t : DType) × t.Elem

/-- Everything about a base but its elements. -/
def Base.layout (x : Base) : DType × Nat × Option (DType × Nat) :=
  (x.dtype, x.size, x.data.map fun data => (data.dtype, data.size))

namespace Buffer

variable {i p : Nat} {f : (t : DType) → t.Elem → t.Elem}

/-- Element of a buffer with its type. -/
def cell? (x : Buffer) (p : Nat) : Option Cell := x.cells[p]?.map (Sigma.mk x.dtype)

theorem cell?_change_self (x : Buffer) (i : Nat) (f : (t : DType) → t.Elem → t.Elem) :
    (x.change i f).cell? i = (x.cell? i).map fun c => ⟨c.1, f c.1 c.2⟩ := by
  obtain ⟨t, cells⟩ := x
  change (cells.modify i (f t))[i]?.map (Sigma.mk t) = _
  rw [Array.getElem?_modify, if_pos rfl, cell?]
  cases cells[i]? <;> rfl

theorem cell?_change_of_ne (x : Buffer) (h : p ≠ i) : (x.change i f).cell? p = x.cell? p := by
  obtain ⟨t, cells⟩ := x
  change (cells.modify i (f t))[p]?.map (Sigma.mk t) = _
  rw [Array.getElem?_modify, if_neg h.symm]
  rfl

theorem cell?_eq_none_iff {x : Buffer} : x.cell? p = none ↔ x.size ≤ p := by
  simp [cell?, size]

end Buffer

/-- Changing an element does not touch the layout of its base. -/
theorem Base.layout_change (x : Base) (i : Nat) (f : (t : DType) → t.Elem → t.Elem) :
    layout { x with data := x.data.map (·.change i f) } = x.layout := by
  cases data : x.data with
  | none => simp [layout, data]
  | some d => simp [layout, data, Buffer.change, Buffer.size]

namespace Arena

/-- What bases there are, with everything but their elements. -/
def layout (a : Arena) (b : BaseId) : Option (DType × Nat × Option (DType × Nat)) :=
  (a.get? b).map Base.layout

/-- Element of a base with its type. -/
def cell? (a : Arena) (b : BaseId) (p : Nat) : Option Cell := (a.buffer? b).bind (·.cell? p)

variable {a a' : Arena} {b : BaseId} {i p : Nat} {f : (t : DType) → t.Elem → t.Elem}

theorem buffer_eq_ok {x : Buffer} : a.buffer b = .ok x ↔ a.buffer? b = some x := by
  rw [buffer]
  cases a.buffer? b <;> simp

theorem cell?_eq_none_iff :
    a.cell? b p = none ↔ ∀ t n, ((a.layout b).bind (·.2.2)) = some (t, n) → n ≤ p := by
  rw [cell?, buffer?, layout]
  cases a.get? b with
  | none => simp
  | some x => cases data : x.data <;> simp [Base.layout, data, Buffer.cell?_eq_none_iff]

/-- Arenas with the same layout have elements at the same places. -/
theorem cell?_eq_none_of_layout (same : a'.layout = a.layout) (missing : a'.cell? b p = none) :
    a.cell? b p = none := by
  rw [cell?_eq_none_iff] at missing ⊢
  rwa [← same]

/-- An update fails only if there is no such element. -/
theorem cell?_of_update_eq_error {e : Fault} (h : a.update b i f = .error e) :
    a.cell? b i = none := by
  rw [update] at h
  rw [cell?]
  cases data : a.buffer? b with
  | none => rfl
  | some x =>
    simp only [data, Option.map_some] at h
    by_cases inside : i < x.size
    · simp [inside] at h
    · exact Buffer.cell?_eq_none_iff.mpr (Nat.le_of_not_lt inside)

/-- A successful update changes one element and keeps the layout. -/
theorem of_update_eq_ok (h : a.update b i f = .ok a') :
    a'.layout = a.layout ∧
      (∃ x : Cell, a.cell? b i = some x ∧ a'.cell? b i = some ⟨x.1, f x.1 x.2⟩) ∧
      ∀ c p, (c = b → p ≠ i) → a'.cell? c p = a.cell? c p := by
  rw [update] at h
  cases data : a.buffer? b with
  | none => simp [data] at h
  | some x =>
    simp only [data, Option.map_some] at h
    have inside : i < x.size := by
      refine Nat.lt_of_not_le fun outside => ?_
      simp [Nat.not_lt.mpr outside] at h
    simp only [inside, if_true, Except.ok.injEq] at h
    subst h
    have changed : ∀ p, (a.modify b fun base =>
        { base with data := base.data.map (·.change i f) }).cell? b p =
          (x.change i f).cell? p := by
      intro p
      obtain ⟨base, found, content⟩ := Option.bind_eq_some_iff.mp data
      rw [cell?, buffer?, get?_modify, if_pos rfl, found, Option.map_some, Option.bind_some,
        content]
      rfl
    refine ⟨?_, ⟨⟨x.dtype, x.cells[i]⟩, ?_, ?_⟩, fun c p other => ?_⟩
    · funext c
      rw [layout, get?_modify, layout]
      split
      · rw [Option.map_map]
        exact congrArg (Option.map · _) (funext fun base => base.layout_change i f)
      · rfl
    · rw [cell?, data]
      exact congrArg (Option.map _) (Array.getElem?_eq_getElem inside)
    · rw [changed, Buffer.cell?_change_self, Buffer.cell?, Array.getElem?_eq_getElem inside]
      rfl
    · by_cases same : c = b
      · subst same
        rw [changed, Buffer.cell?_change_of_ne x (other rfl), cell?, data]
        rfl
      · rw [cell?, buffer?, get?_modify, if_neg (Ne.symm same)]
        rfl

end Arena

end ArrayFusion
