import ArrayFusion.Storage.Arena

/-!
# Changes of an arena, base by base

Every operation on an arena changes its bases one by one and leaves their numbers alone. So the
order of two operations does not matter if it does not matter for any single base.
-/

namespace ArrayFusion

namespace Arena

/-- Changes every base. -/
def mapBases (a : Arena) (f : BaseId → Base → Base) : Arena :=
  ⟨a.slots.mapIdx fun b slot => slot.map (f b)⟩

variable {a : Arena} {b : BaseId} {f g : BaseId → Base → Base}

theorem get?_mapBases (a : Arena) (f : BaseId → Base → Base) (b : BaseId) :
    (a.mapBases f).get? b = (a.get? b).map (f b) := by
  simp only [mapBases, get?, Array.getElem?_mapIdx]
  cases a.slots[b]? <;> rfl

theorem mapBases_mapBases (a : Arena) (f g : BaseId → Base → Base) :
    (a.mapBases f).mapBases g = a.mapBases fun b x => g b (f b x) := by
  simp only [mapBases, Array.mapIdx_mapIdx, Function.comp_def, Option.map_map]

/-- Two changes agree if they agree on the bases that there are. -/
theorem mapBases_congr (h : ∀ b base, a.get? b = some base → f b base = g b base) :
    a.mapBases f = a.mapBases g := by
  simp only [mapBases, mk.injEq]
  refine Array.ext_getElem? fun b => ?_
  simp only [Array.getElem?_mapIdx]
  cases slot : a.slots[b]? with
  | none => rfl
  | some content =>
      cases content with
      | none => rfl
      | some base => simp [h b base (by simp [get?, slot])]

/-- A change that leaves every base as it is. -/
theorem mapBases_id (h : ∀ b base, a.get? b = some base → f b base = base) : a.mapBases f = a := by
  rw [mapBases_congr (g := fun _ base => base) h]
  have slots : a.slots.mapIdx (fun _ slot => slot) = a.slots :=
    Array.ext_getElem? fun b => by simp
  simp [mapBases, slots]

theorem mapBases_comm (h : ∀ b base, f b (g b base) = g b (f b base)) (a : Arena) :
    (a.mapBases f).mapBases g = (a.mapBases g).mapBases f := by
  simp only [mapBases_mapBases, h]

theorem modify_eq_mapBases (a : Arena) (b : BaseId) (f : Base → Base) :
    a.modify b f = a.mapBases fun c base => if c = b then f base else base := by
  simp only [modify, mapBases, mk.injEq]
  refine Array.ext_getElem? fun c => ?_
  simp only [Array.getElem?_modify, Array.getElem?_mapIdx, eq_comm (a := c)]
  split <;> cases a.slots[c]? <;> simp

end Arena

end ArrayFusion
