import ArrayFusion.Program.Motion
import ArrayFusion.Proofs.Instruction.Reshape

/-!
# Statements with numbers from index arrays

Resolving a statement changes starts, sizes and strides of its views only. The statement names the
same bases before and after, and what it becomes depends on its index arrays and nothing else.
-/

namespace ArrayFusion

namespace View

variable {a a' : Arena} {v w : View}

/-- The second view accesses the same base with the same index arrays. -/
def Renumbered (v w : View) : Prop := w.base = v.base ∧ w.index = v.index

theorem Renumbered.trans {u : View} (h : Renumbered u v) (h' : Renumbered v w) : Renumbered u w :=
  ⟨h'.1.trans h.1, h'.2.trans h.2⟩

theorem renumbered_of_readAxes {b : Option BaseId} {set : Axis → Int → Axis}
    (h : v.readAxes a b set = .ok w) : Renumbered v w := by
  have each : ∀ (c : BaseId) (ds : List Nat) (u : View),
      ds.foldlM (fun v d => do
        let x ← v.readIndex a c d
        pure { v with axes := v.axes.modify d (set · x) }) u = .ok w → Renumbered u w := by
    intro c ds
    induction ds with
    | nil =>
      rintro u ⟨⟩
      exact ⟨rfl, rfl⟩
    | cons d ds ih =>
      intro u h
      rw [List.foldlM_cons] at h
      obtain ⟨u', step, rest⟩ := exists_of_bind_eq_ok h
      obtain ⟨x, -, changed⟩ := exists_of_bind_eq_ok step
      cases changed
      have later := ih _ rest
      exact later
  cases b with
  | none =>
    cases h
    exact ⟨rfl, rfl⟩
  | some c => exact each c _ v h

/-- Sizes and strides are read after the start. -/
def resolveAxes (v : View) (a : Arena) : Except Fault View := do
  let v ← v.readAxes a v.index.shape fun axis x => { axis with size := x }
  v.readAxes a v.index.stride fun axis x => { axis with stride := x }

theorem resolve_eq (v : View) (a : Arena) : v.resolve a =
    match v.index.start with
    | none => v.resolveAxes a
    | some b => v.readIndex a b 0 >>= fun x => { v with start := x }.resolveAxes a := by
  rw [resolve]
  cases v.index.start <;> rfl

theorem renumbered_of_resolveAxes (h : v.resolveAxes a = .ok w) : Renumbered v w := by
  obtain ⟨u, sizes, strides⟩ := exists_of_bind_eq_ok h
  exact (renumbered_of_readAxes sizes).trans (renumbered_of_readAxes strides)

/-- Resolving keeps the base and the index arrays of a view. -/
theorem renumbered_of_resolve (h : v.resolve a = .ok w) : Renumbered v w := by
  rw [resolve_eq] at h
  split at h
  · exact renumbered_of_resolveAxes h
  · obtain ⟨x, -, rest⟩ := exists_of_bind_eq_ok h
    have later := renumbered_of_resolveAxes rest
    exact later

theorem readIndex_congr {b : BaseId} (same : a'.buffer? b = a.buffer? b) (v : View)
    (position : Nat) : v.readIndex a' b position = v.readIndex a b position := by
  rw [readIndex, readIndex, Arena.buffer, Arena.buffer, same]

theorem readAxes_congr {b : Option BaseId} {set : Axis → Int → Axis}
    (same : ∀ c ∈ b, a'.buffer? c = a.buffer? c) (v : View) :
    v.readAxes a' b set = v.readAxes a b set := by
  cases b with
  | none => rfl
  | some c => simp only [readAxes, readIndex_congr (same c rfl)]

theorem resolveAxes_congr (sizes : ∀ c ∈ v.index.shape, a'.buffer? c = a.buffer? c)
    (strides : ∀ c ∈ v.index.stride, a'.buffer? c = a.buffer? c) :
    v.resolveAxes a' = v.resolveAxes a := by
  rw [resolveAxes, resolveAxes, readAxes_congr sizes]
  cases read : v.readAxes a v.index.shape fun axis x => { axis with size := x } with
  | error e => rfl
  | ok w =>
    have same := (renumbered_of_readAxes read).2
    exact readAxes_congr (same ▸ strides) w

/-- What a view becomes depends on its index arrays only. -/
theorem resolve_congr (same : ∀ c ∈ v.indexBases, a'.buffer? c = a.buffer? c) :
    v.resolve a' = v.resolve a := by
  have index : ∀ b ∈ [v.index.start, v.index.shape, v.index.stride], ∀ c ∈ b,
      a'.buffer? c = a.buffer? c := fun b hb c hc =>
    same c (List.mem_filterMap.mpr ⟨b, hb, hc⟩)
  have axes : ∀ u : View, u.index = v.index → u.resolveAxes a' = u.resolveAxes a := fun u hu =>
    resolveAxes_congr (hu.symm ▸ index v.index.shape (by simp))
      (hu.symm ▸ index v.index.stride (by simp))
  rw [resolve_eq, resolve_eq]
  cases start : v.index.start with
  | none => exact axes v rfl
  | some b =>
    simp only [readIndex_congr (index _ (by simp) b start)]
    cases v.readIndex a b 0 with
    | error e => rfl
    | ok x => exact axes { v with start := x } rfl

end View

/-- The second instruction is the first one on views with other numbers. -/
structure Instruction.Renumbered (i j : Instruction) : Prop where
  rest : j = { i with operands := j.operands }
  operands : List.Forall₂ View.Renumbered i.operands j.operands

namespace Instruction.Renumbered

variable {i j : Instruction}

theorem refl (i : Instruction) : Renumbered i i :=
  ⟨rfl, List.forall₂_same.mpr fun _ _ => ⟨rfl, rfl⟩⟩

theorem opcode (h : Renumbered i j) : j.opcode = i.opcode := by rw [h.rest]

theorem bases (h : Renumbered i j) : j.bases = i.bases := by
  have same : j.operands.map (·.base) = i.operands.map (·.base) :=
    map_eq_of_forall₂ h.operands fun _ _ h => h.1
  have filtered := congrArg (List.filterMap id) same
  rw [List.filterMap_map, List.filterMap_map] at filtered
  exact congrArg BaseSet.ofList filtered

theorem indexBases (h : Renumbered i j) : j.indexBases = i.indexBases := by
  have same : j.operands.map (·.indexBases) = i.operands.map (·.indexBases) :=
    map_eq_of_forall₂ h.operands fun v w h => by rw [View.indexBases, View.indexBases, h.2]
  rw [Instruction.indexBases, Instruction.indexBases, List.flatMap_def, List.flatMap_def, same]

theorem outputBase? (h : Renumbered i j) : j.outputBase? = i.outputBase? := by
  have same := forall₂_getElem? h.operands 0
  rw [Instruction.outputBase?, Instruction.outputBase?, List.head?_eq_getElem?,
    List.head?_eq_getElem?]
  generalize i.operands[0]? = x at same
  generalize j.operands[0]? = y at same
  cases same with
  | none => rfl
  | some related => exact related.1

theorem mentions (h : Renumbered i j) (b : BaseId) : j.mentions b = i.mentions b := by
  rw [Instruction.mentions, Instruction.mentions, h.bases, h.indexBases]

end Instruction.Renumbered

namespace Statement

variable {a a' : Arena} {s t : Statement}

/-- Resolving changes nothing but numbers of views. -/
theorem renumbered_of_resolve (h : s.resolve a = .ok t) : s.instr.Renumbered t.instr := by
  rw [resolve] at h
  split at h
  · obtain ⟨operands, resolved, same⟩ := exists_of_bind_eq_ok h
    cases same
    exact ⟨rfl, (forall₂_of_mapM resolved).imp fun _ _ h => View.renumbered_of_resolve h⟩
  · cases h
    exact .refl s.instr

theorem mem_indexBases_of_operand {i : Instruction} {v : View} (hv : v ∈ i.operands) {c : BaseId}
    (hc : c ∈ v.indexBases) : c ∈ i.indexBases := by
  rw [Instruction.indexBases, BaseSet.mem_ofList]
  exact List.mem_flatMap.mpr ⟨v, hv, hc⟩

/-- What a statement becomes depends on its index arrays only. -/
theorem resolve_congr (same : ∀ c ∈ s.instr.indexBases, a'.buffer? c = a.buffer? c) :
    s.resolve a' = s.resolve a := by
  have each : ∀ vs : List View, (∀ v ∈ vs, v.resolve a' = v.resolve a) →
      vs.mapM (·.resolve a') = vs.mapM (·.resolve a) := by
    intro vs
    induction vs with
    | nil => intro _; rfl
    | cons v vs ih =>
      intro h
      have ⟨first, rest⟩ := List.forall_mem_cons.mp h
      rw [List.mapM_cons, List.mapM_cons, first, ih rest]
  rw [resolve, resolve, each s.instr.operands fun v hv => View.resolve_congr fun c hc =>
    same c (mem_indexBases_of_operand hv hc)]

/-- Statements that can all be resolved are resolved one by one. -/
theorem resolveAll_of_forall₂ {ss ts : List Statement}
    (h : List.Forall₂ (fun s t => s.resolve a = .ok t) ss ts) : resolveAll a ss = (ts, none) := by
  induction h with
  | nil => rfl
  | cons first _ ih => rw [resolveAll, first, ih]

theorem forall₂_of_resolveAll {ss ts : List Statement} (h : resolveAll a ss = (ts, none)) :
    List.Forall₂ (fun s t => s.resolve a = .ok t) ss ts := by
  induction ss generalizing ts with
  | nil =>
    cases h
    exact .nil
  | cons s ss ih =>
    rw [resolveAll] at h
    split at h
    · cases h
    next t resolved =>
      cases later : resolveAll a ss with
      | mk us failure =>
        rw [later] at h
        cases h
        exact .cons resolved (ih later)

end Statement

end ArrayFusion
