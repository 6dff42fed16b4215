import Mathlib.Data.List.Forall2

/-!
# Lists that correspond

Two lists whose elements in the same places are related have corresponding parts, and whatever is
computed alike from related elements is the same for both.
-/

namespace ArrayFusion

/-- A computation in two parts succeeds only if both do. -/
theorem exists_of_bind_eq_ok {ε α β : Type} {x : Except ε α} {f : α → Except ε β} {r : β}
    (h : x >>= f = .ok r) : ∃ y, x = .ok y ∧ f y = .ok r := by
  cases x with
  | error e => contradiction
  | ok y => exact ⟨y, rfl, h⟩

theorem ok_of_toOption {α ε : Type} {x : Except ε α} {y : α} (h : x.toOption = some y) :
    x = .ok y := by
  cases x with
  | error e => simp [Except.toOption] at h
  | ok z => simpa [Except.toOption] using h

variable {α β γ : Type} {R : α → β → Prop} {xs : List α} {ys : List β}

theorem forall₂_of_mapM {ε : Type} {f : α → Except ε β}
    (h : xs.mapM f = .ok ys) : List.Forall₂ (fun x y => f x = .ok y) xs ys := by
  induction xs generalizing ys with
  | nil =>
      cases h
      exact .nil
  | cons x xs ih =>
      rw [List.mapM_cons] at h
      cases hx : f x with
      | error e =>
          rw [hx] at h
          contradiction
      | ok y =>
          cases hxs : xs.mapM f with
          | error e =>
              rw [hx, hxs] at h
              contradiction
          | ok rest =>
              rw [hx, hxs] at h
              cases h
              exact .cons hx (ih hxs)

theorem mapM_of_forall₂ {ε : Type} {f : α → Except ε β}
    (h : List.Forall₂ (fun x y => f x = .ok y) xs ys) : xs.mapM f = .ok ys := by
  induction h with
  | nil => rfl
  | cons head _ ih =>
      rw [List.mapM_cons, head, ih]
      rfl

/-- A computation that succeeds on every one of corresponding elements succeeds on all of them. -/
theorem exists_mapM_of_forall₂ {ε : Type} {f : β → Except ε γ} {S : α → γ → Prop}
    (h : List.Forall₂ R xs ys)
    (step : ∀ x ∈ xs, ∀ y ∈ ys, R x y → ∃ z, f y = .ok z ∧ S x z) :
    ∃ zs, ys.mapM f = .ok zs ∧ List.Forall₂ S xs zs := by
  induction h with
  | nil => exact ⟨[], rfl, .nil⟩
  | cons first _ ih =>
      obtain ⟨z, here, related⟩ := step _ List.mem_cons_self _ List.mem_cons_self first
      obtain ⟨zs, later, rest⟩ := ih fun x hx y hy =>
        step x (List.mem_cons_of_mem _ hx) y (List.mem_cons_of_mem _ hy)
      refine ⟨z :: zs, ?_, .cons related rest⟩
      rw [List.mapM_cons, here, later]
      rfl

theorem forall₂_getElem? (h : List.Forall₂ R xs ys) (k : Nat) : Option.Rel R xs[k]? ys[k]? := by
  induction h generalizing k with
  | nil => exact .none
  | cons head _ ih =>
      cases k with
      | zero => exact .some head
      | succ k => exact ih k

theorem forall₂_of_getElem? (h : ∀ k : Nat, Option.Rel R xs[k]? ys[k]?) : List.Forall₂ R xs ys := by
  induction xs generalizing ys with
  | nil =>
      cases ys with
      | nil => exact .nil
      | cons y ys => cases h 0
  | cons x xs ih =>
      cases ys with
      | nil => cases h 0
      | cons y ys =>
          cases h 0 with
          | some head => exact .cons head (ih fun k => h (k + 1))

/-- A function that related elements share gives the same list. -/
theorem map_eq_of_forall₂ {f : α → γ} {g : β → γ} (h : List.Forall₂ R xs ys)
    (same : ∀ x y, R x y → g y = f x) : ys.map g = xs.map f := by
  induction h with
  | nil => rfl
  | cons head _ ih => rw [List.map_cons, List.map_cons, same _ _ head, ih]

/-- Every element corresponds to some element of the other list. -/
theorem exists_of_forall₂ (h : List.Forall₂ R xs ys) {y : β} (hy : y ∈ ys) : ∃ x ∈ xs, R x y := by
  induction h with
  | nil => simp at hy
  | cons head _ ih =>
      rcases List.mem_cons.mp hy with rfl | hy
      · exact ⟨_, List.mem_cons_self .., head⟩
      · obtain ⟨x, hx, related⟩ := ih hy
        exact ⟨x, List.mem_cons_of_mem _ hx, related⟩

theorem isEmpty_eq_of_forall₂ (h : List.Forall₂ R xs ys) : ys.isEmpty = xs.isEmpty := by
  cases h <;> rfl

theorem any_eq_of_forall₂ {p : α → Bool} {q : β → Bool} (h : List.Forall₂ R xs ys)
    (same : ∀ x y, R x y → q y = p x) : ys.any q = xs.any p := by
  have images := congrArg (List.any · id) (map_eq_of_forall₂ h same)
  rwa [List.any_map, List.any_map] at images

theorem all_eq_of_forall₂ {p : α → Bool} {q : β → Bool} (h : List.Forall₂ R xs ys)
    (same : ∀ x y, R x y → q y = p x) : ys.all q = xs.all p := by
  have images := congrArg (List.all · id) (map_eq_of_forall₂ h same)
  rwa [List.all_map, List.all_map] at images

theorem findSome?_eq_of_forall₂ {f : α → Option γ} {g : β → Option γ} (h : List.Forall₂ R xs ys)
    (same : ∀ x y, R x y → g y = f x) : ys.findSome? g = xs.findSome? f := by
  have images := congrArg (List.findSome? id) (map_eq_of_forall₂ h same)
  rwa [List.findSome?_map, List.findSome?_map] at images

theorem flatMap_eq_of_forall₂ {f : α → List γ} {g : β → List γ} (h : List.Forall₂ R xs ys)
    (same : ∀ x y, R x y → g y = f x) : ys.flatMap g = xs.flatMap f := by
  have images := congrArg (List.flatMap id) (map_eq_of_forall₂ h same)
  rwa [List.flatMap_map, List.flatMap_map] at images

theorem filterMap_eq_of_forall₂ {f : α → Option γ} {g : β → Option γ} (h : List.Forall₂ R xs ys)
    (same : ∀ x y, R x y → g y = f x) : ys.filterMap g = xs.filterMap f := by
  have images := congrArg (List.filterMap id) (map_eq_of_forall₂ h same)
  rwa [List.filterMap_map, List.filterMap_map] at images

theorem mapM_eq_of_forall₂ {m : Type → Type} [Monad m] [LawfulMonad m] {f : α → m γ} {g : β → m γ}
    (h : List.Forall₂ R xs ys) (same : ∀ x y, R x y → g y = f x) : ys.mapM g = xs.mapM f := by
  have images := congrArg (List.mapM id) (map_eq_of_forall₂ h same)
  rwa [List.mapM_map, List.mapM_map] at images

theorem forall₂_filter {p : α → Bool} {q : β → Bool} (h : List.Forall₂ R xs ys)
    (same : ∀ x y, R x y → q y = p x) : List.Forall₂ R (xs.filter p) (ys.filter q) :=
  List.rel_filter (fun x y related => Bool.eq_iff_iff.mp (same x y related).symm) h

/-- Images of the elements that are chosen alike. -/
theorem map_filter_eq_of_forall₂ {p : α → Bool} {q : β → Bool} {f : α → γ} {g : β → γ}
    (h : List.Forall₂ R xs ys) (same : ∀ x y, R x y → q y = p x)
    (images : ∀ x y, R x y → p x = true → g y = f x) :
    (ys.filter q).map g = (xs.filter p).map f := by
  induction h with
  | nil => rfl
  | @cons x y _ _ first _ ih =>
    rw [List.filter_cons, List.filter_cons, same x y first]
    split
    next chosen => rw [List.map_cons, List.map_cons, ih, images x y first chosen]
    next => exact ih

/-- Corresponding elements have the same places. -/
theorem forall₂_zipIdx (h : List.Forall₂ R xs ys) (n : Nat) :
    List.Forall₂ (fun p q : _ × Nat => R p.1 q.1 ∧ q.2 = p.2) (xs.zipIdx n) (ys.zipIdx n) := by
  induction h generalizing n with
  | nil => exact .nil
  | cons first _ ih => exact .cons ⟨first, rfl⟩ (ih (n + 1))

/-- Two lists correspond in their first parts and in the rest. -/
theorem forall₂_of_append {xs' : List α} {ys' : List β} (length : xs.length = ys.length)
    (h : List.Forall₂ R (xs ++ xs') (ys ++ ys')) :
    List.Forall₂ R xs ys ∧ List.Forall₂ R xs' ys' := by
  have first := List.forall₂_take_append _ _ _ h
  have rest := List.forall₂_drop_append _ _ _ h
  rw [List.take_left' length] at first
  rw [List.drop_left' length] at rest
  exact ⟨first, rest⟩

/-- What corresponds through a list between the two. -/
theorem forall₂_trans {S : β → γ → Prop} {T : α → γ → Prop} {zs : List γ}
    (h : List.Forall₂ R xs ys) (h' : List.Forall₂ S ys zs)
    (both : ∀ x y z, R x y → S y z → T x z) : List.Forall₂ T xs zs := by
  induction h generalizing zs with
  | nil =>
      cases h'
      exact .nil
  | cons first _ ih =>
      cases h' with
      | cons second rest => exact .cons (both _ _ _ first second) (ih rest)

/-- Elements that correspond are elements of the two lists. -/
theorem forall₂_with_mem (h : List.Forall₂ R xs ys) :
    List.Forall₂ (fun x y => x ∈ xs ∧ y ∈ ys ∧ R x y) xs ys := by
  obtain ⟨length, related⟩ := List.forall₂_iff_zip.mp h
  refine List.forall₂_iff_zip.mpr ⟨length, fun here => ?_⟩
  obtain ⟨left, right⟩ := List.of_mem_zip here
  exact ⟨left, right, related here⟩

/-- Lists with the same images correspond. -/
theorem forall₂_of_map_eq {f : α → γ} {g : β → γ} (h : ys.map g = xs.map f) :
    List.Forall₂ (fun x y => g y = f x) xs ys := by
  have equal : List.Forall₂ (fun a b : γ => b = a) (xs.map f) (ys.map g) := by
    rw [h]
    exact List.forall₂_same.mpr fun _ _ => rfl
  exact List.forall₂_map_left_iff.mp (List.forall₂_map_right_iff.mp equal)

end ArrayFusion
