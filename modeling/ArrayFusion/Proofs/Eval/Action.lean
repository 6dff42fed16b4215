import ArrayFusion.Eval.Nest
import ArrayFusion.Proofs.Storage.Arena
import Mathlib.Algebra.BigOperators.Group.List.Basic

/-!
# Computations as actions on the arena

An action is what a computation does to the arena if its fault is left out. Actions that follow one
another are multiplied, so loops and bodies are products over lists. When two loops share their
iterations, or when nests change places, the factors of such a product are carried out in another
order, and the product stays the same if the factors that change places commute.
-/

namespace ArrayFusion

/-! ## Products in another order -/

section Products

variable {M α β : Type} [Monoid M]

/-- Two loops over one list become one loop, if every later round of the first loop commutes with
every earlier round of the second one. -/
theorem prod_mul_prod {xs : List α} {f g : α → M}
    (h : xs.Pairwise fun x x' => Commute (g x) (f x')) :
    (xs.map fun x => f x * g x).prod = (xs.map f).prod * (xs.map g).prod := by
  induction xs with
  | nil => simp
  | cons x xs ih =>
      obtain ⟨first, rest⟩ := List.pairwise_cons.mp h
      have passes : Commute (g x) (xs.map f).prod := by
        refine Commute.list_prod_right _ _ fun y hy => ?_
        obtain ⟨x', hx', rfl⟩ := List.mem_map.mp hy
        exact first x' hx'
      simp only [List.map_cons, List.prod_cons, ih rest]
      rw [mul_assoc, ← mul_assoc (g x), passes.eq]
      simp only [mul_assoc]

/-- A factor gets lost in a product in which a later factor absorbs it, if it commutes with those
that do not. -/
theorem mul_prod_of_covered {x : M} {ys : List M} (covered : ∃ y ∈ ys, x * y = y)
    (each : ∀ y ∈ ys, x * y = y ∨ Commute x y) : x * ys.prod = ys.prod := by
  induction ys with
  | nil => simp at covered
  | cons y ys ih =>
      rw [List.prod_cons, ← mul_assoc]
      by_cases absorbed : x * y = y
      · rw [absorbed]
      · have later : ∃ z ∈ ys, x * z = z := by
          obtain ⟨z, hz, lost⟩ := covered
          rcases List.mem_cons.mp hz with rfl | hz
          · exact absurd lost absorbed
          · exact ⟨z, hz, lost⟩
        have passes := (each y (by simp)).resolve_left absorbed
        rw [passes.eq, mul_assoc, ih later fun z hz => each z (by simp [hz])]

/-- Two loops over one list become one loop, if every round of the second one absorbs the round of
the first one, and all other rounds that it does not commute with. -/
theorem prod_mul_prod_of_covered {xs : List α} {f g : α → M}
    (covered : ∀ x ∈ xs, f x * g x = g x)
    (each : ∀ x ∈ xs, ∀ y ∈ xs, f x * g y = g y ∨ Commute (f x) (g y)) :
    (xs.map fun x => f x * g x).prod = (xs.map f).prod * (xs.map g).prod := by
  have lost : ∀ ys ⊆ xs, (ys.map f).prod * (xs.map g).prod = (xs.map g).prod := by
    intro ys inside
    induction ys with
    | nil => simp
    | cons y ys ih =>
        have member : y ∈ xs := inside List.mem_cons_self
        rw [List.map_cons, List.prod_cons, mul_assoc, ih (List.subset_of_cons_subset inside)]
        refine mul_prod_of_covered ⟨g y, List.mem_map_of_mem member, covered y member⟩ ?_
        simpa using each y member
  rw [List.map_congr_left covered, lost xs (List.Subset.refl xs)]

/-- Two nested products change places, if the factors that change places commute. -/
theorem prod_interchange {xs : List α} {ys : List β} {f : α → β → M}
    (h : xs.Pairwise fun x x' => ys.Pairwise fun y y' => Commute (f x y') (f x' y)) :
    (xs.map fun x => (ys.map (f x)).prod).prod =
      (ys.map fun y => (xs.map fun x => f x y).prod).prod := by
  induction ys with
  | nil => simp
  | cons y ys ih =>
      simp only [List.map_cons, List.prod_cons]
      rw [prod_mul_prod, ih]
      · exact h.imp fun related => (List.pairwise_cons.mp related).2
      · refine h.imp fun {x x'} related => Commute.list_prod_left _ _ fun z hz => ?_
        obtain ⟨y', hy', rfl⟩ := List.mem_map.mp hz
        exact (List.pairwise_cons.mp related).1 y' hy'

/-- A product in another order, if any two factors that change places commute. -/
theorem prod_eq_of_perm {before : α → α → Prop} {xs ys : List α} {f : α → M} (perm : xs.Perm ys)
    (sorted : ys.Pairwise before)
    (legal : xs.Pairwise fun x y => before y x → Commute (f x) (f y)) :
    (xs.map f).prod = (ys.map f).prod := by
  induction ys generalizing xs with
  | nil => rw [List.perm_nil.mp perm]
  | cons y ys ih =>
      obtain ⟨first, rest⟩ := List.pairwise_cons.mp sorted
      obtain ⟨pre, post, rfl⟩ := List.append_of_mem (perm.mem_iff.mpr List.mem_cons_self)
      have perm' : (pre ++ post).Perm ys :=
        (List.perm_cons y).mp (List.perm_middle.symm.trans perm)
      obtain ⟨legalPre, legalPost, cross⟩ := List.pairwise_append.mp legal
      have legal' : (pre ++ post).Pairwise fun x y => before y x → Commute (f x) (f y) :=
        List.pairwise_append.mpr ⟨legalPre, (List.pairwise_cons.mp legalPost).2,
          fun x hx z hz => cross x hx z (List.mem_cons_of_mem y hz)⟩
      have passes : Commute (pre.map f).prod (f y) := by
        refine Commute.list_prod_left _ _ fun z hz => ?_
        obtain ⟨x, hx, rfl⟩ := List.mem_map.mp hz
        have member : x ∈ ys := perm'.subset (List.mem_append_left post hx)
        exact cross x hx y List.mem_cons_self (first x member)
      have tail := ih perm' rest legal'
      simp only [List.map_append, List.prod_append, List.map_cons, List.prod_cons] at tail ⊢
      rw [← tail, ← mul_assoc, passes.eq, mul_assoc]

end Products

/-! ## Actions -/

/-- What a computation does to the arena. A computation that fails leaves no arena. -/
structure Action where
  run : Arena → Option Arena

namespace Action

theorem ext {f g : Action} (h : ∀ a, f.run a = g.run a) : f = g :=
  congrArg mk (funext h)

instance : Monoid Action where
  one := ⟨some⟩
  mul f g := ⟨fun a => (f.run a).bind g.run⟩
  one_mul _ := rfl
  mul_one f := ext fun a => Option.bind_fun_some (f.run a)
  mul_assoc f g h := ext fun a => Option.bind_assoc (f.run a) g.run h.run

@[simp] theorem run_one (a : Arena) : (1 : Action).run a = some a := rfl

theorem run_mul (f g : Action) (a : Arena) : (f * g).run a = (f.run a).bind g.run := rfl

theorem run_mul_of_some {f : Action} {a b : Arena} (h : f.run a = some b) (g : Action) :
    (f * g).run a = g.run b := by
  rw [run_mul, h, Option.bind_some]

theorem run_mul_of_none {f : Action} {a : Arena} (h : f.run a = none) (g : Action) :
    (f * g).run a = none := by
  rw [run_mul, h, Option.bind_none]

/-- The action that changes every base. -/
def mapBases (f : BaseId → Base → Base) : Action := ⟨fun a => some (a.mapBases f)⟩

theorem run_mapBases (f : BaseId → Base → Base) (a : Arena) :
    (mapBases f).run a = some (a.mapBases f) := rfl

theorem mapBases_mul (f g : BaseId → Base → Base) :
    mapBases f * mapBases g = mapBases fun b base => g b (f b base) :=
  ext fun a => congrArg some (a.mapBases_mapBases f g)

theorem mapBases_congr {f g : BaseId → Base → Base} (h : ∀ b base, f b base = g b base) :
    mapBases f = mapBases g :=
  ext fun _ => congrArg some (Arena.mapBases_congr fun b base _ => h b base)

end Action

namespace Exec

/-! ## Computations -/

/-- A computation in two parts, on an arena or on any other state, stops where its first part
fails. -/
theorem run_bind {S α β : Type} (x : ExceptT Fault (StateM S) α)
    (y : α → ExceptT Fault (StateM S) β) (s : S) :
    (x >>= y) s = match x s with
      | (.ok u, s') => y u s'
      | (.error e, s') => (.error e, s') := by
  simp only [bind, ExceptT.bind, ExceptT.mk, ExceptT.bindCont, StateT.bind]
  rcases x s with ⟨_ | _, s'⟩ <;> rfl

theorem run_get (a : Arena) : (get : Exec Arena) a = (.ok a, a) := rfl

/-- A change that fails leaves the arena as it is. -/
theorem run_change (f : Arena → Except Fault Arena) (a : Arena) :
    change f a = match f a with
      | .ok a' => (.ok (), a')
      | .error e => (.error e, a) := by
  rw [change, run_bind, run_get]
  dsimp only
  cases f a <;> rfl

/-- The action of a computation. -/
def act {α : Type} (x : Exec α) : Action where
  run a :=
    match x a with
    | (.ok _, a') => some a'
    | (.error _, _) => none

theorem exists_of_ok {x : Exec Unit} {a : Arena} (h : (x a).1 = .ok ()) :
    ∃ a', x a = (.ok (), a') :=
  ⟨(x a).2, Prod.ext h rfl⟩

theorem run_act_of_ok {x : Exec Unit} {a a' : Arena} (h : x a = (.ok (), a')) :
    x.act.run a = some a' := by
  simp only [act, h]

theorem eq_of_run_act {x : Exec Unit} {a a' : Arena} (h : x.act.run a = some a') :
    x a = (.ok (), a') := by
  rw [act] at h
  dsimp only at h
  split at h
  next u b same =>
    cases h
    exact same
  next => contradiction

/-- Computations with one action succeed alike. -/
theorem eq_ok_iff_of_act_eq {x y : Exec Unit} (h : x.act = y.act) {a a' : Arena} :
    x a = (.ok (), a') ↔ y a = (.ok (), a') := by
  constructor
  · exact fun run => eq_of_run_act (h ▸ run_act_of_ok run)
  · exact fun run => eq_of_run_act (h ▸ run_act_of_ok run)

@[simp] theorem act_pure {α : Type} (x : α) : (pure x : Exec α).act = 1 := rfl

theorem act_bind {α : Type} (x : Exec Unit) (y : Unit → Exec α) :
    (x >>= y).act = x.act * (y ()).act := by
  refine Action.ext fun a => ?_
  simp only [Action.run_mul, act, run_bind]
  rcases x a with ⟨_ | _, a'⟩ <;> rfl

theorem act_change (f : Arena → Except Fault Arena) :
    (change f).act = ⟨fun a => (f a).toOption⟩ := by
  refine Action.ext fun a => ?_
  simp only [act, run_change]
  cases f a <;> rfl

theorem act_forM {α : Type} (xs : List α) (f : α → Exec Unit) :
    (xs.forM f).act = (xs.map fun x => (f x).act).prod := by
  induction xs with
  | nil => rfl
  | cons x xs ih =>
      rw [List.map_cons, List.prod_cons, ← ih]
      exact act_bind _ _

end Exec

end ArrayFusion
