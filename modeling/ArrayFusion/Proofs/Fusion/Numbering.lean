import ArrayFusion.Proofs.Fusion.Singletons

/-!
# Numbers of loops

Loops are told apart by their numbers, which a counter hands out. No function of fusion uses a
number twice: whatever it builds has the numbers of the loops that it was given, each at most as
often as before, and numbers that were handed out meanwhile, each at most once. This is stated by
counting, so that the steps of a computation add up.
-/

namespace ArrayFusion

/-- What happens to the numbers of loops while the counter goes from `n` to `m`. -/
structure HandsOut (n m : Nat) (old new : List Nat) : Prop where
  le : n ≤ m
  count : ∀ x, new.count x ≤ old.count x + if n ≤ x ∧ x < m then 1 else 0

namespace HandsOut

variable {n m k : Nat} {old mid new : List Nat}

theorem refl (n : Nat) (old : List Nat) : HandsOut n n old old :=
  ⟨Nat.le_refl n, fun _ => Nat.le_add_right _ _⟩

theorem trans (h : HandsOut n m old mid) (h' : HandsOut m k mid new) : HandsOut n k old new := by
  refine ⟨h.le.trans h'.le, fun x => ?_⟩
  have first := h.count x
  have second := h'.count x
  have le := h.le
  have le' := h'.le
  split_ifs at first second ⊢ <;> omega

/-- A new number comes from the counter. -/
theorem next (n : Nat) (old : List Nat) : HandsOut n (n + 1) old (n :: old) := by
  refine ⟨Nat.le_succ n, fun x => ?_⟩
  rw [List.count_cons]
  by_cases same : n = x
  · subst same
    simp
  · simp [same]

/-- The numbers of other loops stay. -/
theorem within (h : HandsOut n m old new) (before after : List Nat) :
    HandsOut n m (before ++ (old ++ after)) (before ++ (new ++ after)) := by
  refine ⟨h.le, fun x => ?_⟩
  have count := h.count x
  simp only [List.count_append]
  omega

theorem append_right (h : HandsOut n m old new) (after : List Nat) :
    HandsOut n m (old ++ after) (new ++ after) := h.within [] after

theorem append_left (h : HandsOut n m old new) (before : List Nat) :
    HandsOut n m (before ++ old) (before ++ new) := by
  simpa using h.within before []

/-- Loops can be given up, and change their order. -/
theorem of_count_le (h : HandsOut n m mid new) (le : ∀ x, mid.count x ≤ old.count x) :
    HandsOut n m old new := by
  refine ⟨h.le, fun x => ?_⟩
  have := h.count x
  have := le x
  omega

theorem of_nil (h : HandsOut n m [] new) (old : List Nat) : HandsOut n m old new :=
  h.of_count_le fun x => by simp

/-- Numbers that are used once and below the counter stay so. -/
theorem nodup (h : HandsOut n m old new) (distinct : old.Nodup) (below : ∀ x ∈ old, x < n) :
    new.Nodup ∧ ∀ x ∈ new, x < m := by
  have none : ∀ x, n ≤ x → old.count x = 0 := by
    intro x above
    refine List.count_eq_zero.mpr fun member => ?_
    exact Nat.not_le_of_lt (below x member) above
  have once := List.nodup_iff_count.mp distinct
  have le := h.le
  constructor
  · refine List.nodup_iff_count.mpr fun x => ?_
    have count := h.count x
    have once := once x
    have none := none x
    split_ifs at count <;> omega
  · intro x member
    have count := h.count x
    have positive := List.count_pos_iff.mpr member
    have none := none x
    split_ifs at count <;> omega

/-- Without loops before, all numbers were handed out meanwhile, each to one loop. -/
theorem fresh (h : HandsOut n m [] new) : new.Nodup ∧ ∀ x ∈ new, n ≤ x ∧ x < m := by
  obtain ⟨distinct, below⟩ := h.nodup .nil (List.forall_mem_nil _)
  refine ⟨distinct, fun x member => ⟨?_, below x member⟩⟩
  have count := h.count x
  have positive := List.count_pos_iff.mpr member
  rw [List.count_nil] at count
  split_ifs at count <;> omega

end HandsOut

namespace Numbered

variable {α β : Type} {n m : Nat}

theorem bind_eq_ok {x : Numbered α} {f : α → Numbered β} {r : β}
    (h : (x >>= f) n = .ok (r, m)) : ∃ y k, x n = .ok (y, k) ∧ f y k = .ok (r, m) := by
  cases first : x n with
  | error e =>
    rw [bind_error first] at h
    contradiction
  | ok out => exact ⟨out.1, out.2, rfl, (bind_ok first).symm.trans h⟩

theorem liftM_eq_ok {x : Except Fault α} {r : α} (h : (liftM x : Numbered α) n = .ok (r, m)) :
    x = .ok r ∧ m = n := by
  cases x with
  | error e => contradiction
  | ok y =>
    cases h
    exact ⟨rfl, rfl⟩

theorem lift_eq_ok {x : Numbering α} {r : α} (h : x.lift n = .ok (r, m)) : x n = (r, m) :=
  Except.ok.inj h

end Numbered

namespace Node

/-- Numbers of the loops of a node. -/
def ids (n : Node) : List Nat := n.nests.map (·.head.id)

theorem ids_loop (head : LoopHead) (body : List Node) :
    (loop head body).ids = head.id :: body.flatMap ids := by
  rw [ids, nests, List.map_cons, bodyNests_eq_flatMap, List.map_flatMap]
  rfl

theorem ids_leaf (s : Statement) (rank : Int) : (leaf s rank).ids = [] := rfl

mutual

theorem ids_attachFree (b : BaseId) : (n : Node) → (n.attachFree b).ids = n.ids
  | leaf s rank => rfl
  | loop head body => by
    rw [attachFree]
    split
    next body' found => rw [ids_loop, ids_loop, ids_attachFreeBody b body found]
    next => rw [ids_loop, ids_loop]

theorem ids_attachFreeBody (b : BaseId) : (body : List Node) → {body' : List Node} →
    attachFreeBody b body = some body' → body'.flatMap ids = body.flatMap ids
  | [], _, h => by contradiction
  | n :: body, body', h => by
    rw [attachFreeBody] at h
    split at h
    next rest found =>
      cases h
      rw [List.flatMap_cons, List.flatMap_cons, ids_attachFreeBody b body found]
    next =>
      split at h
      · contradiction
      · split at h
        · cases h
          rw [List.flatMap_cons, List.flatMap_cons, ids_attachFree b n]
        · contradiction

end

end Node

namespace Nest

open Numbered

/-- Numbers of a loop and the loops in it. -/
def ids (l : Nest) : List Nat := l.toNode.ids

theorem ids_eq (l : Nest) : l.ids = l.head.id :: l.body.flatMap Node.ids := Node.ids_loop ..

/-! ## Loops that are built from statements -/

theorem handsOut_buildBody (rank : Nat) (frees : BaseSet)
    (inner : BaseSet → List Statement → Numbering Nest)
    (builds : ∀ frees ss n, HandsOut n (inner frees ss n).2 [] (inner frees ss n).1.ids)
    (parts : List Segment) (n : Nat) : HandsOut n (buildBody rank frees inner parts n).2 []
      ((buildBody rank frees inner parts n).1.flatMap Node.ids) := by
  induction parts generalizing n with
  | nil => exact .refl n []
  | cons part rest ih =>
    cases part with
    | single s => exact ih n
    | run ss =>
      have first := builds (if rest.isEmpty then frees else []) ss n
      have later := ih (inner (if rest.isEmpty then frees else []) ss n).2
      have inside := later.append_left (inner (if rest.isEmpty then frees else []) ss n).1.ids
      rw [List.append_nil] at inside
      exact first.trans inside

theorem handsOut_buildSized (levels rank : Nat) (size : Int) (frees : BaseSet)
    (ss : List Statement) (n : Nat) : HandsOut n (buildSized levels rank size frees ss n).2 []
      (buildSized levels rank size frees ss n).1.ids := by
  induction levels generalizing rank size frees ss n with
  | zero =>
    have none : (ss.map (Node.leaf · (rankWord rank))).flatMap Node.ids = [] := by
      rw [List.flatMap_map]
      exact List.flatMap_eq_nil_iff.mpr fun s _ => Node.ids_leaf s (rankWord rank)
    have unfolded : (buildSized 0 rank size frees ss n).1.ids = n :: [] := by
      rw [ids_eq, ← none]
      rfl
    rw [unfolded]
    exact .next n []
  | succ levels ih =>
    have inner := handsOut_buildBody rank frees
      (fun frees ss => buildSized levels (rank + 1) (commonSize (rank + 1) ss) frees ss)
      (fun frees ss n => ih _ _ frees ss n) (segments rank ss) (n + 1)
    have unfolded : (buildSized (levels + 1) rank size frees ss n).1.ids =
        n :: (buildBody rank frees (fun frees ss =>
          buildSized levels (rank + 1) (commonSize (rank + 1) ss) frees ss)
          (segments rank ss) (n + 1)).1.flatMap Node.ids := ids_eq _
    rw [unfolded]
    exact (HandsOut.next n []).trans (inner.append_left [n])

theorem handsOut_ofStatements (rank : Nat) (frees : BaseSet) (ss : List Statement) (n : Nat) :
    HandsOut n (ofStatements rank frees ss n).2 [] (ofStatements rank frees ss n).1.ids :=
  handsOut_buildSized ..

/-! ## Merged loops -/

variable {a b l : Nest} {n m : Nat}

theorem takeFrees_eq_ok {frees : BaseSet} (h : l.takeFrees frees n = .ok (a, m)) :
    a = ⟨{ l.head with id := n, frees := l.head.frees.union frees }, l.body⟩ ∧ m = n + 1 := by
  obtain ⟨id, k, handed, built⟩ := bind_eq_ok h
  obtain ⟨rfl, rfl⟩ : n = id ∧ n + 1 = k := Prod.mk.inj (lift_eq_ok handed)
  cases built
  exact ⟨rfl, rfl⟩

theorem handsOut_takeFrees {frees : BaseSet} (h : l.takeFrees frees n = .ok (a, m)) :
    HandsOut n m l.ids a.ids := by
  obtain ⟨rfl, rfl⟩ := takeFrees_eq_ok h
  rw [ids_eq, ids_eq]
  refine (HandsOut.next n _).of_count_le fun x => ?_
  rw [List.count_cons]
  exact Nat.le_add_right _ _

/-- A loop that gets another size is built anew from its split statements. -/
theorem resize_eq_ok {size : Int} (h : l.resize size n = .ok (a, m)) :
    (a = l ∧ m = n) ∨ ∃ ss built, l.splitStatements size = .ok ss ∧
      ofStatements l.head.rank.toNat [] ss n = (built, m) ∧
      a = refresh ⟨{ built.head with frees := l.allFrees }, built.body⟩ := by
  rw [resize] at h
  split at h
  · cases h
    exact .inl ⟨rfl, rfl⟩
  · obtain ⟨ss, k, found, rest⟩ := bind_eq_ok h
    obtain ⟨splits, rfl⟩ := liftM_eq_ok found
    obtain ⟨built, m', made, rest⟩ := bind_eq_ok rest
    cases rest
    exact .inr ⟨ss, built, splits, lift_eq_ok made, rfl⟩

theorem handsOut_resize {size : Int} (h : l.resize size n = .ok (a, m)) :
    HandsOut n m l.ids a.ids := by
  obtain ⟨rfl, rfl⟩ | ⟨ss, built, -, made, rfl⟩ := resize_eq_ok h
  · exact .refl m _
  · have fresh := handsOut_ofStatements l.head.rank.toNat [] ss n
    rw [made] at fresh
    exact fresh.of_nil l.ids

/-- All ways in which a merge can end well: one of the loops only hands over its frees, or both are
given the smaller size and their bodies are joined. -/
theorem mergeWith_eq_ok {join : List Node → Numbered (List Node)}
    (h : mergeWith join a b n = .ok (l, m)) :
    (b.isSystemOnly = true ∧ a.takeFrees b.allFrees n = .ok (l, m)) ∨
    (a.isSystemOnly = true ∧ b.takeFrees a.allFrees n = .ok (l, m)) ∨
    ∃ a' b' k₁ k₂ body, a.isSystemOnly = false ∧ b.isSystemOnly = false ∧
      a.resize (min a.head.size b.head.size) n = .ok (a', k₁) ∧
      b.resize (min a.head.size b.head.size) k₁ = .ok (b', k₂) ∧
      join (a'.body ++ b'.body) (k₂ + 1) = .ok (body, m) ∧
      l = refresh ⟨{ id := k₂, rank := a'.head.rank, size := min a.head.size b.head.size,
                     frees := a'.head.frees.union b'.head.frees }, body⟩ := by
  rw [mergeWith] at h
  obtain ⟨test, k, tested, h⟩ := bind_eq_ok h
  obtain ⟨-, rfl⟩ := liftM_eq_ok tested
  cases test with
  | false =>
    obtain ⟨_, _, failed, -⟩ := bind_eq_ok h
    contradiction
  | true =>
  simp only [Bool.not_true, Bool.false_eq_true, if_false] at h
  split at h
  next system => exact .inl ⟨system, h⟩
  next computesB =>
  split at h
  next system => exact .inr (.inl ⟨system, h⟩)
  next computesA =>
  obtain ⟨a', k₁, resizedA, h⟩ := bind_eq_ok h
  obtain ⟨b', k₂, resizedB, h⟩ := bind_eq_ok h
  obtain ⟨again, k₃, tested, h⟩ := bind_eq_ok h
  obtain ⟨-, rfl⟩ := liftM_eq_ok tested
  cases again with
  | false =>
    obtain ⟨_, _, failed, -⟩ := bind_eq_ok h
    contradiction
  | true =>
  simp only [Bool.not_true, Bool.false_eq_true, if_false] at h
  obtain ⟨id, k₄, handed, h⟩ := bind_eq_ok h
  obtain ⟨body, k₅, joined, built⟩ := bind_eq_ok h
  obtain ⟨rfl, rfl⟩ : k₃ = id ∧ k₃ + 1 = k₄ := Prod.mk.inj (lift_eq_ok handed)
  cases built
  exact .inr (.inr ⟨a', b', k₁, k₃, body, by simpa using computesA, by simpa using computesB,
    resizedA, resizedB, joined, rfl⟩)

/-- Joining a body is merging neighbouring loops, any number of times. So it is related to the body
that it started with in every way in which each merge is, if such ways add up. -/
theorem joinBody_induction {merge : Nest → Nest → Numbered Nest}
    {R : List Node → Nat → List Node → Nat → Prop} (refl : ∀ body n, R body n body n)
    (trans : ∀ {body n body' n' body'' n''}, R body n body' n' → R body' n' body'' n'' →
      R body n body'' n'')
    (step : ∀ before after a b l n m, merge a b n = .ok (l, m) →
      R (before ++ a.toNode :: b.toNode :: after) n (before ++ l.toNode :: after) m)
    {done rest body : List Node} (h : joinBody merge done rest n = .ok (body, m)) :
    R (done.reverse ++ rest) n body m := by
  induction rest generalizing done n with
  | nil =>
    have finished : done.reverse = body ∧ n = m := by
      cases done with
      | nil => cases h; exact ⟨rfl, rfl⟩
      | cons d done => cases d <;> cases h <;> exact ⟨rfl, rfl⟩
    obtain ⟨rfl, rfl⟩ := finished
    rw [List.append_nil]
    exact refl _ n
  | cons node rest ih =>
    have skip (h : joinBody merge (node :: done) rest n = .ok (body, m)) :
        R (done.reverse ++ node :: rest) n body m := by
      have pushed := ih h
      simpa using pushed
    cases node with
    | leaf s rank =>
      cases done with
      | nil => exact skip h
      | cons last done => cases last <;> exact skip h
    | loop head inner =>
      cases done with
      | nil => exact skip h
      | cons last done =>
        cases last with
        | leaf s rank => exact skip h
        | loop head' inner' =>
          rw [joinBody] at h
          obtain ⟨joins, k, test, h⟩ := bind_eq_ok h
          obtain ⟨-, rfl⟩ := liftM_eq_ok test
          cases joins with
          | false => exact skip h
          | true =>
            obtain ⟨l, k', merged, h⟩ := bind_eq_ok h
            have first := step done.reverse rest ⟨head', inner'⟩ ⟨head, inner⟩ l k k' merged
            have later := ih h
            simp only [List.reverse_cons, List.append_assoc, List.singleton_append] at later ⊢
            exact trans first later

/-- What a function that merges two loops does to the numbers. -/
def MergesNumbers (merge : Nest → Nest → Numbered Nest) : Prop :=
  ∀ a b n l m, merge a b n = .ok (l, m) → HandsOut n m (a.ids ++ b.ids) l.ids

theorem handsOut_joinBody {merge : Nest → Nest → Numbered Nest} (merges : MergesNumbers merge)
    {done rest body : List Node} (h : joinBody merge done rest n = .ok (body, m)) :
    HandsOut n m ((done.reverse ++ rest).flatMap Node.ids) (body.flatMap Node.ids) := by
  refine joinBody_induction
    (R := fun body n body' m => HandsOut n m (body.flatMap Node.ids) (body'.flatMap Node.ids))
    (fun body n => .refl n _) .trans ?_ h
  intro before after a b l n m merged
  have first := merges a b n l m merged
  have inside := first.within (before.flatMap Node.ids) (after.flatMap Node.ids)
  simpa [ids, List.append_assoc] using inside

theorem handsOut_mergeWith {join : List Node → Numbered (List Node)}
    (joins : ∀ body n body' m, join body n = .ok (body', m) →
      HandsOut n m (body.flatMap Node.ids) (body'.flatMap Node.ids)) :
    MergesNumbers (mergeWith join) := by
  intro a b n l m h
  obtain ⟨-, taken⟩ | ⟨-, taken⟩ | ⟨a', b', k₁, k₂, body, -, -, resizedA, resizedB, joined, rfl⟩ :=
    mergeWith_eq_ok h
  · exact (handsOut_takeFrees taken).of_count_le fun x => by simp
  · exact (handsOut_takeFrees taken).of_count_le fun x => by simp
  have both := ((handsOut_resize resizedA).append_right b.ids).trans
    ((handsOut_resize resizedB).append_left a'.ids)
  refine both.trans ?_
  have inner := joins _ _ _ _ joined
  rw [List.flatMap_append] at inner
  have inside : HandsOut k₂ m (a'.body.flatMap Node.ids ++ b'.body.flatMap Node.ids)
      (k₂ :: body.flatMap Node.ids) := (HandsOut.next k₂ _).trans (inner.append_left [k₂])
  rw [ids_eq, ids_eq, ids_eq]
  refine inside.of_count_le fun x => ?_
  simp only [List.count_append, List.count_cons]
  omega

theorem handsOut_mergeLevels (levels : Nat) : MergesNumbers (mergeLevels levels) := by
  induction levels with
  | zero =>
    refine handsOut_mergeWith fun body n body' m h => ?_
    cases h
    exact .refl n _
  | succ levels ih => exact handsOut_mergeWith fun body n body' m h => handsOut_joinBody ih h

end Nest

namespace Fusion

open Numbered

/-- Numbers of all loops of a list. -/
def idsOf (ls : List Nest) : List Nat := ls.flatMap Nest.ids

theorem idsOf_concat (ls : List Nest) (l : Nest) : idsOf (ls ++ [l]) = idsOf ls ++ l.ids := by
  rw [idsOf, List.flatMap_append, List.flatMap_singleton, ← idsOf]

variable {ls ls' : List Nest} {n m : Nat}

/-! ## The passes -/

theorem idsOf_freeInLast {b : BaseId} (h : freeInLast b ls = some ls') : idsOf ls' = idsOf ls := by
  induction ls generalizing ls' with
  | nil => contradiction
  | cons l ls ih =>
    rw [freeInLast] at h
    split at h
    next rest found =>
      cases h
      rw [idsOf, idsOf, List.flatMap_cons, List.flatMap_cons, ← idsOf, ih found, idsOf]
    next =>
      split at h
      · cases h
        rw [idsOf, idsOf, List.flatMap_cons, List.flatMap_cons, Nest.ids, Nest.toNode_attachFree,
          Node.ids_attachFree, Nest.ids]
      · contradiction

theorem handsOut_placeFree (ls : List Nest) (b : BaseId) (n : Nat) :
    HandsOut n (placeFree ls b n).2 (idsOf ls) (idsOf (placeFree ls b n).1) := by
  rw [placeFree]
  cases found : freeInLast b ls with
  | some ls' =>
    show HandsOut n n (idsOf ls) (idsOf ls')
    rw [idsOf_freeInLast found]
    exact .refl n _
  | none =>
    have new := (HandsOut.next n []).append_left (idsOf ls)
    rw [List.append_nil] at new
    show HandsOut n (n + 1) (idsOf ls) (idsOf (ls ++ [_]))
    rw [idsOf_concat]
    exact new

/-- Work on a list of loops keeps what each step keeps. -/
theorem handsOut_foldlM {α : Type} {step : List Nest → α → Numbering (List Nest)}
    (steps : ∀ ls x n, HandsOut n (step ls x n).2 (idsOf ls) (idsOf (step ls x n).1))
    (xs : List α) (ls : List Nest) (n : Nat) :
    HandsOut n (xs.foldlM step ls n).2 (idsOf ls) (idsOf (xs.foldlM step ls n).1) := by
  induction xs generalizing ls n with
  | nil => exact .refl n _
  | cons x xs ih => exact (steps ls x n).trans (ih _ _)

theorem handsOut_singletons (ss : List Statement) (n : Nat) :
    HandsOut n (singletons ss n).2 [] (idsOf (singletons ss n).1) := by
  refine handsOut_foldlM (fun ls s n => ?_) ss [] n
  rw [addStatement]
  split
  · exact handsOut_foldlM handsOut_placeFree s.instr.bases ls n
  split
  · exact .refl n _
  · have new := (Nest.handsOut_ofStatements 0 [] [s] n).append_left (idsOf ls)
    rw [List.append_nil] at new
    show HandsOut n _ (idsOf ls) (idsOf (ls ++ [_]))
    rw [idsOf_concat]
    exact new

theorem handsOut_merge {a b l : Nest} (h : a.merge b n = .ok (l, m)) :
    HandsOut n m (a.ids ++ b.ids) l.ids := Nest.handsOut_mergeLevels _ a b n l m h

theorem handsOut_serialFrom {separate : Bool} {done rest : List Nest}
    (h : serialFrom separate done rest n = .ok (ls, m)) :
    HandsOut n m (idsOf (done.reverse ++ rest)) (idsOf ls) := by
  induction rest generalizing done n with
  | nil =>
    rw [serialFrom] at h
    cases h
    rw [List.append_nil]
    exact .refl _ _
  | cons l rest ih =>
    have place (before : List Nest) :
        before.reverse ++ l :: rest = (l :: before).reverse ++ rest := by
      simp
    cases done with
    | nil => exact ih h
    | cons last done =>
      rw [serialFrom] at h
      obtain ⟨joins, k, test, h⟩ := bind_eq_ok h
      obtain ⟨-, rfl⟩ := liftM_eq_ok test
      cases joins with
      | false =>
        rw [place]
        exact ih h
      | true =>
        obtain ⟨merged, k', merges, later⟩ := bind_eq_ok h
        have inside := (handsOut_merge merges).within (idsOf done.reverse) (idsOf rest)
        refine HandsOut.trans ?_ (ih later)
        simpa [idsOf] using inside

theorem handsOut_absorb {separate : Bool} {l l' : Nest} {behind rest rest' : List Nest}
    (h : absorb separate l behind rest n = .ok ((l', rest'), m)) :
    HandsOut n m (idsOf (l :: (behind.reverse ++ rest))) (idsOf (l' :: rest')) := by
  induction rest generalizing l behind n with
  | nil =>
    rw [absorb] at h
    cases h
    rw [List.append_nil]
    exact .refl _ _
  | cons k rest ih =>
    have stay {n : Nat} (h : absorb separate l (k :: behind) rest n = .ok ((l', rest'), m)) :
        HandsOut n m (idsOf (l :: (behind.reverse ++ k :: rest))) (idsOf (l' :: rest')) := by
      have later := ih h
      simpa using later
    rw [absorb] at h
    split at h
    swap
    · exact stay h
    obtain ⟨joins, n', test, h⟩ := bind_eq_ok h
    obtain ⟨-, rfl⟩ := liftM_eq_ok test
    cases joins with
    | false => exact stay h
    | true =>
      obtain ⟨merged, k', merges, later⟩ := bind_eq_ok h
      have inside := (handsOut_merge merges).append_right (idsOf (behind.reverse ++ rest))
      refine HandsOut.trans (inside.of_count_le fun x => ?_) (ih later)
      simp only [idsOf, List.flatMap_append, List.flatMap_cons, List.count_append]
      omega

theorem handsOut_greedyFrom {separate : Bool} {count : Nat} {ls' : List Nest}
    (h : greedyFrom separate count ls n = .ok (ls', m)) :
    HandsOut n m (idsOf ls) (idsOf ls') := by
  induction count generalizing ls ls' n with
  | zero =>
    cases h
    exact .refl _ _
  | succ count ih =>
    cases ls with
    | nil =>
      cases h
      exact .refl _ _
    | cons l rest =>
      rw [greedyFrom] at h
      obtain ⟨⟨l₁, rest₁⟩, k, absorbed, h⟩ := bind_eq_ok h
      obtain ⟨rest₂, k', later, built⟩ := bind_eq_ok h
      cases built
      have inside := (ih later).append_left l₁.ids
      exact (handsOut_absorb absorbed).trans inside

/-- All loops of fusion have numbers of their own that it was handed out. -/
theorem handsOut_fuse {separate : Bool} {ss : List Statement}
    (fused : fuse separate ss n = .ok (ls, m)) : HandsOut n m [] (idsOf ls) := by
  obtain ⟨ls₁, n₁, prepared, fused⟩ := bind_eq_ok fused
  obtain ⟨ls₂, n₂, merged, absorbed⟩ := bind_eq_ok fused
  have first := handsOut_singletons ss n
  rw [lift_eq_ok prepared] at first
  exact (first.trans (handsOut_serialFrom merged)).trans (handsOut_greedyFrom absorbed)

/-- Fusion gives all its loops different numbers, and none of them is the next number. -/
theorem nodup_ids_of_fuse {separate : Bool} {ss : List Statement}
    (fused : fuse separate ss n = .ok (ls, m)) :
    (idsOf ls).Nodup ∧ ∀ id ∈ idsOf ls, id < m := by
  obtain ⟨distinct, bounds⟩ := (handsOut_fuse fused).fresh
  exact ⟨distinct, fun id member => (bounds id member).2⟩

end Fusion

end ArrayFusion
