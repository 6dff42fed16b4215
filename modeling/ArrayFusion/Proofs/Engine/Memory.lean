import ArrayFusion.Proofs.Eval.Action

/-!
# Bases that are allocated and freed

A kernel allocates bases, computes, and frees bases. If no later kernel needs what an earlier one
frees, all allocations can be moved to the beginning and all frees to the end. What remains between
them is what is computed.
-/

namespace ArrayFusion

namespace Base

/-- The base with data, zeros if it had none. -/
def granted (base : Base) : Base :=
  if base.isAllocated then base else { base with data := some (.zeros base.dtype base.size) }

/-- The base without data. -/
def cleared (base : Base) : Base := { base with data := none }

@[simp] theorem isAllocated_granted (base : Base) : base.granted.isAllocated = true := by
  rw [granted]
  split
  · assumption
  · rfl

theorem granted_of_isAllocated {base : Base} (h : base.isAllocated = true) :
    base.granted = base := if_pos h

@[simp] theorem granted_granted (base : Base) : base.granted.granted = base.granted :=
  granted_of_isAllocated base.isAllocated_granted

@[simp] theorem cleared_granted (base : Base) : base.granted.cleared = base.cleared := by
  rw [granted]
  split <;> rfl

@[simp] theorem cleared_cleared (base : Base) : base.cleared.cleared = base.cleared := rfl

end Base

namespace Action

/-- Gives data to the bases of a list. -/
def grant (bs : List BaseId) : Action :=
  mapBases fun b base => if b ∈ bs then base.granted else base

/-- Takes the data of the bases of a list. -/
def clear (bs : List BaseId) : Action :=
  mapBases fun b base => if b ∈ bs then base.cleared else base

variable {bs cs : List BaseId} {e e' : Action}

theorem grant_congr (h : ∀ b, b ∈ bs ↔ b ∈ cs) : grant bs = grant cs :=
  mapBases_congr fun b base => by simp only [h]

theorem clear_congr (h : ∀ b, b ∈ bs ↔ b ∈ cs) : clear bs = clear cs :=
  mapBases_congr fun b base => by simp only [h]

theorem grant_mul_grant (bs cs : List BaseId) : grant bs * grant cs = grant (bs ++ cs) := by
  rw [grant, grant, mapBases_mul]
  refine mapBases_congr fun b base => ?_
  simp only [List.mem_append]
  split <;> split <;> simp_all

theorem clear_mul_clear (bs cs : List BaseId) : clear bs * clear cs = clear (bs ++ cs) := by
  rw [clear, clear, mapBases_mul]
  refine mapBases_congr fun b base => ?_
  simp only [List.mem_append]
  split <;> split <;> simp_all

/-- A base that is freed afterwards need not be allocated. -/
theorem grant_mul_clear (h : ∀ b ∈ bs, b ∈ cs) : grant bs * clear cs = clear cs := by
  rw [grant, clear, mapBases_mul]
  refine mapBases_congr fun b base => ?_
  by_cases allocated : b ∈ bs
  · simp [allocated, h b allocated]
  · simp [allocated]

theorem grant_nil : grant [] = 1 :=
  ext fun a => congrArg some (a.mapBases_id fun _ _ _ => rfl)

theorem clear_nil : clear [] = 1 :=
  ext fun a => congrArg some (a.mapBases_id fun _ _ _ => rfl)

theorem prod_clear (bs : List BaseId) : (bs.map fun b => clear [b]).prod = clear bs := by
  induction bs with
  | nil => exact clear_nil.symm
  | cons b bs ih =>
      rw [List.map_cons, List.prod_cons, ih, clear_mul_clear, List.singleton_append]

theorem commute_clear_grant (h : ∀ b ∈ bs, b ∉ cs) : Commute (clear bs) (grant cs) := by
  rw [Commute, SemiconjBy, clear, grant, mapBases_mul, mapBases_mul]
  refine mapBases_congr fun b base => ?_
  split <;> split <;> simp_all

/-- The action changes data of the given bases only, and allocates and frees nothing. -/
structure Local (e : Action) (bs : List BaseId) : Prop where
  frame : ∀ f : BaseId → Base → Base, (∀ b ∈ bs, ∀ base, f b base = base) →
    Commute e (mapBases f)
  keeps : ∀ a a', e.run a = some a' →
    ∀ b, (a'.get? b).map (·.isAllocated) = (a.get? b).map (·.isAllocated)

theorem Local.one (bs : List BaseId) : Local 1 bs := by
  refine ⟨fun f _ => Commute.one_left _, fun a a' h b => ?_⟩
  cases h
  rfl

theorem Local.mono (h : Local e bs) (sub : ∀ b ∈ bs, b ∈ cs) : Local e cs :=
  ⟨fun f alone => h.frame f fun b hb => alone b (sub b hb), h.keeps⟩

theorem Local.mul (h : Local e bs) (h' : Local e' bs) : Local (e * e') bs := by
  refine ⟨fun f alone => (h.frame f alone).mul_left (h'.frame f alone), fun a a'' hrun b => ?_⟩
  rw [run_mul, Option.bind_eq_some_iff] at hrun
  obtain ⟨a', first, second⟩ := hrun
  rw [h'.keeps a' a'' second, h.keeps a a' first]

theorem Local.prod {es : List Action} (h : ∀ e ∈ es, Local e bs) : Local es.prod bs := by
  induction es with
  | nil => exact .one bs
  | cons e es ih =>
      rw [List.prod_cons]
      exact (h e (by simp)).mul (ih fun e' he' => h e' (by simp [he']))

/-- Bases that were allocated before an action need not be allocated after it. -/
theorem Local.grant_absorb (h : Local e bs) (cs : List BaseId) :
    grant bs * e * grant cs = grant (bs ++ cs) * e := by
  -- What the action does not touch is allocated first, the rest is allocated already.
  have others : Commute e (grant (cs.filter (· ∉ bs))) := by
    refine h.frame _ fun b hb base => ?_
    rw [if_neg (by simp [hb])]
  have split : grant cs = grant (cs.filter (· ∈ bs)) * grant (cs.filter (· ∉ bs)) := by
    rw [grant_mul_grant]
    refine grant_congr fun b => ?_
    by_cases hb : b ∈ bs <;> simp [hb]
  have known : grant bs * e * grant (cs.filter (· ∈ bs)) = grant bs * e := by
    refine ext fun a => ?_
    rw [run_mul]
    cases run : (grant bs * e).run a with
    | none => rfl
    | some a' =>
        rw [Option.bind_some, grant, run_mapBases]
        refine congrArg some (Arena.mapBases_id fun b base hbase => ?_)
        split
        next member =>
          have hb : b ∈ bs := by simpa using (List.mem_filter.mp member).2
          have status := h.keeps _ _ run b
          rw [hbase, Arena.get?_mapBases, Option.map_map] at status
          refine Base.granted_of_isAllocated ?_
          cases before : a.get? b with
          | none => simp [before] at status
          | some base' => simpa [before, hb] using status
        next => rfl
  rw [split, ← mul_assoc, known, mul_assoc, others.eq, ← mul_assoc, grant_mul_grant]
  congr 1
  refine grant_congr fun b => ?_
  by_cases hb : b ∈ bs <;> simp [hb]

end Action

/-- Part of a run that allocates bases, computes, and frees bases. -/
structure Piece where
  needs : List BaseId
  action : Action
  drops : List BaseId

namespace Piece

open ArrayFusion.Action

def act (p : Piece) : Action := grant p.needs * p.action * clear p.drops

/-- Allocating what is freed afterwards makes no difference. -/
theorem act_of_allocated {p : Piece} (inside : Local p.action p.needs) {bs : List BaseId}
    (allocated : ∀ b, b ∈ bs ↔ b ∈ p.needs ∨ b ∈ p.drops) :
    grant bs * p.action * clear p.drops = p.act := by
  have others : Commute p.action (grant (p.drops.filter (· ∉ p.needs))) := by
    refine inside.frame _ fun b needed base => ?_
    rw [if_neg (by simp [needed])]
  have split : grant bs = grant p.needs * grant (p.drops.filter (· ∉ p.needs)) := by
    rw [grant_mul_grant]
    refine grant_congr fun b => ?_
    rw [allocated]
    by_cases needed : b ∈ p.needs <;> simp [needed]
  rw [split, mul_assoc (grant p.needs), ← others.eq, ← mul_assoc, mul_assoc,
    grant_mul_clear fun b dropped => (List.mem_filter.mp dropped).1, act]

/-- Pieces act like one piece, if none needs what an earlier one frees. -/
theorem prod_act {α : Type} {xs : List α} {f : α → Piece}
    (inside : ∀ x ∈ xs, Local (f x).action (f x).needs)
    (apart : xs.Pairwise fun x y => ∀ b ∈ (f x).drops, b ∉ (f y).needs) :
    (xs.map fun x => (f x).act).prod = act ⟨xs.flatMap fun x => (f x).needs,
      (xs.map fun x => (f x).action).prod, xs.flatMap fun x => (f x).drops⟩ := by
  induction xs with
  | nil => simp [act, grant_nil, clear_nil]
  | cons x xs ih =>
      obtain ⟨first, rest⟩ := List.pairwise_cons.mp apart
      have later := ih (fun y hy => inside y (by simp [hy])) rest
      generalize hneeds : (xs.flatMap fun x => (f x).needs) = needs at later
      generalize hdrops : (xs.flatMap fun x => (f x).drops) = drops at later
      generalize haction : (xs.map fun x => (f x).action).prod = action at later
      have inside' : Local action needs := by
        rw [← haction]
        refine Local.prod fun e he => ?_
        obtain ⟨y, hy, rfl⟩ := List.mem_map.mp he
        refine (inside y (by simp [hy])).mono fun b hb => ?_
        exact hneeds ▸ List.mem_flatMap.mpr ⟨y, hy, hb⟩
      have unneeded : ∀ b ∈ (f x).drops, b ∉ needs := by
        intro b hb needed
        obtain ⟨y, hy, needed⟩ := List.mem_flatMap.mp (hneeds ▸ needed)
        exact first y hy b hb needed
      have pastGrant := commute_clear_grant unneeded
      have pastAction : Commute (clear (f x).drops) action := by
        refine (inside'.frame _ fun b needed base => ?_).symm
        rw [if_neg fun dropped => unneeded b dropped needed]
      have here := inside x (by simp)
      calc ((x :: xs).map fun x => (f x).act).prod
          = grant (f x).needs * (f x).action * (clear (f x).drops * grant needs) * action *
              clear drops := by
            rw [List.map_cons, List.prod_cons, later]
            simp only [act, mul_assoc]
        _ = (grant (f x).needs * (f x).action * grant needs) * (clear (f x).drops * action) *
              clear drops := by
            rw [pastGrant.eq]
            simp only [mul_assoc]
        _ = (grant ((f x).needs ++ needs) * (f x).action) * (action * clear (f x).drops) *
              clear drops := by
            rw [here.grant_absorb, pastAction.eq]
        _ = grant ((f x).needs ++ needs) * ((f x).action * action) *
              (clear (f x).drops * clear drops) := by
            simp only [mul_assoc]
        _ = _ := by
            rw [clear_mul_clear, act, List.flatMap_cons, List.flatMap_cons, List.map_cons,
              List.prod_cons, hneeds, hdrops, haction]

/-- Pieces change places if neither frees what the other one needs and their computations do. -/
theorem commute {p q : Piece} (insideP : Local p.action p.needs) (insideQ : Local q.action q.needs)
    (apartP : ∀ b ∈ p.drops, b ∉ q.needs) (apartQ : ∀ b ∈ q.drops, b ∉ p.needs)
    (actions : Commute p.action q.action) : Commute p.act q.act := by
  have joined : ∀ {p q : Piece}, Local p.action p.needs → Local q.action q.needs →
      (∀ b ∈ p.drops, b ∉ q.needs) → p.act * q.act =
        grant (p.needs ++ q.needs) * (p.action * q.action) * clear (p.drops ++ q.drops) := by
    intro p q insideP insideQ apart
    have both := @prod_act Piece [p, q] id (by simp [insideP, insideQ]) (by simpa using apart)
    simpa [act] using both
  have needs : ∀ b, b ∈ p.needs ++ q.needs ↔ b ∈ q.needs ++ p.needs := by simp [or_comm]
  have drops : ∀ b, b ∈ p.drops ++ q.drops ↔ b ∈ q.drops ++ p.drops := by simp [or_comm]
  calc p.act * q.act
      = grant (p.needs ++ q.needs) * (p.action * q.action) * clear (p.drops ++ q.drops) :=
        joined insideP insideQ apartP
    _ = grant (q.needs ++ p.needs) * (q.action * p.action) * clear (q.drops ++ p.drops) := by
        rw [actions.eq, grant_congr needs, clear_congr drops]
    _ = q.act * p.act := (joined insideQ insideP apartQ).symm

end Piece

end ArrayFusion
