import ArrayFusion.Proofs.Fusion.Singletons
import Mathlib.Logic.Relation

/-!
# Fusion as a sequence of steps

Both passes change a list of loops by two kinds of steps: neighbouring loops that pass the test are
merged, and a loop is moved before its neighbour if neither depends on the other. So whatever each
step keeps, fusion keeps. The passes end in a list that can be reached by such steps, or in front of
two loops of such a list whose test fails. It only fails at a fold or scan without operands.
-/

namespace ArrayFusion.Fusion

open Numbered

/-- One step of fusion. -/
inductive Step : List Nest → List Nest → Prop
  | merge (before after : List Nest) {a b l : Nest} {separate : Bool} {n m : Nat}
      (test : a.mergeable b separate = .ok true) (merged : a.merge b n = .ok (l, m)) :
      Step (before ++ a :: b :: after) (before ++ l :: after)
  | swap (before after : List Nest) {a b : Nest} (independent : a.dependOn b = false) :
      Step (before ++ a :: b :: after) (before ++ b :: a :: after)

/-- Any number of steps. -/
abbrev Reaches : List Nest → List Nest → Prop := Relation.ReflTransGen Step

theorem Step.cons {ls ls' : List Nest} (h : Step ls ls') (l : Nest) :
    Step (l :: ls) (l :: ls') := by
  cases h with
  | merge before after test merged => exact .merge (l :: before) after test merged
  | swap before after independent => exact .swap (l :: before) after independent

theorem reaches_cons {ls ls' : List Nest} (h : Reaches ls ls') (l : Nest) :
    Reaches (l :: ls) (l :: ls') := h.lift (l :: ·) fun _ _ step => step.cons l

/-- A loop moves past loops that it does not depend on. -/
theorem reaches_front {m : Nest} {passed : List Nest} (h : ∀ k ∈ passed, k.dependOn m = false)
    (before after : List Nest) :
    Reaches (before ++ (passed ++ m :: after)) (before ++ m :: (passed ++ after)) := by
  induction passed generalizing before with
  | nil => exact .refl
  | cons k passed ih =>
      have inner := ih (fun k' hk' => h k' (by simp [hk'])) (before ++ [k])
      have last := Step.swap before (passed ++ after) (h k (by simp))
      simp only [List.append_assoc, List.singleton_append] at inner
      exact inner.tail last

theorem Step.laidOut {ls ls' : List Nest} (h : Step ls ls') (laidOut : LaidOut ls) :
    LaidOut ls' := by
  cases h with
  | merge before after test merged =>
      have joined := Nest.joined_of_merge (laidOut _ (by simp)) (laidOut _ (by simp)) test merged
      intro k hk
      rcases List.mem_append.mp hk with hk | hk
      · exact laidOut k (by simp [hk])
      rcases List.mem_cons.mp hk with rfl | hk
      · exact joined.layouts _ (by simp)
      · exact laidOut k (by simp [hk])
  | @swap before after a b independent =>
      intro k hk
      refine laidOut k ?_
      simp only [List.mem_append, List.mem_cons] at hk ⊢
      tauto

theorem Reaches.laidOut {ls ls' : List Nest} (h : Reaches ls ls') (laidOut : LaidOut ls) :
    LaidOut ls' := by
  induction h with
  | refl => exact laidOut
  | tail _ step ih => exact step.laidOut ih

/-! ## Outcomes of the passes -/

/-- The test of two loops fails, one of which stands before the other in the list. -/
def Stuck (separate : Bool) (ls : List Nest) : Prop :=
  ∃ a b, [a, b].Sublist ls ∧ a.mergeable b separate = .error .missingPart

/-- How a pass over a list of loops ends. -/
inductive Outcome {α : Type} (separate : Bool) (start : List Nest) (loops : α → List Nest) :
    Except Fault (α × Nat) → Prop
  | done {x : α} {m : Nat} (reached : Reaches start (loops x)) :
      Outcome separate start loops (.ok (x, m))
  | stuck {ls : List Nest} (reached : Reaches start ls) (stuck : Stuck separate ls) :
      Outcome separate start loops (.error .missingPart)

theorem touchesSweeps_error {a b : Nest} {e : Fault} (h : a.touchesSweeps b = .error e) :
    e = .missingPart ∧ ∃ s ∈ a.head.sweeps, s.instr.operands = [] := by
  obtain ⟨s, hs, fault⟩ := anyM_error h
  cases operands : s.instr.operands with
  | nil =>
      rw [operands] at fault
      cases fault
      exact ⟨rfl, s, hs, operands⟩
  | cons out inputs =>
      rw [operands] at fault
      contradiction

/-- The test of two loops that compute something only fails at a fold or scan without operands. -/
theorem mergeable_error {a b : Nest} {separate : Bool} {e : Fault}
    (h : a.mergeable b separate = .error e) :
    e = .missingPart ∧ a.isSystemOnly = false ∧ b.isSystemOnly = false ∧
      (separate && a.head.rank == 0 && a.head.sweeps.isEmpty != b.head.sweeps.isEmpty) = false ∧
      ∃ s ∈ a.head.sweeps ++ b.head.sweeps, s.instr.operands = [] := by
  rw [Nest.mergeable] at h
  split at h
  · contradiction
  next compute =>
    rw [Bool.or_eq_true, not_or, Bool.not_eq_true, Bool.not_eq_true] at compute
    split at h
    · contradiction
    split at h
    · contradiction
    next together =>
      have bare : e = .missingPart ∧
          ∃ s ∈ a.head.sweeps ++ b.head.sweeps, s.instr.operands = [] := by
        cases first : a.touchesSweeps b with
        | error e' =>
            rw [first] at h
            cases h
            obtain ⟨fault, s, hs, none⟩ := touchesSweeps_error first
            exact ⟨fault, s, List.mem_append_left _ hs, none⟩
        | ok touchesA =>
            cases second : b.touchesSweeps a with
            | error e' =>
                rw [first, second] at h
                cases touchesA with
                | true => contradiction
                | false =>
                    cases h
                    obtain ⟨fault, s, hs, none⟩ := touchesSweeps_error second
                    exact ⟨fault, s, List.mem_append_right _ hs, none⟩
            | ok touchesB =>
                rw [first, second] at h
                cases touchesA <;> cases touchesB <;> contradiction
      exact ⟨bare.1, compute.1, compute.2, by simpa using together, bare.2⟩

theorem Stuck.mono {separate : Bool} {ls ls' : List Nest} (h : Stuck separate ls)
    (sub : ls.Sublist ls') : Stuck separate ls' := by
  obtain ⟨a, b, pair, fault⟩ := h
  exact ⟨a, b, pair.trans sub, fault⟩

theorem Outcome.after {α : Type} {separate : Bool} {start middle : List Nest}
    {loops : α → List Nest} {r : Except Fault (α × Nat)} (first : Reaches start middle)
    (rest : Outcome separate middle loops r) : Outcome separate start loops r := by
  cases rest with
  | done reached => exact .done (first.trans reached)
  | stuck reached stuck => exact .stuck (first.trans reached) stuck

/-- Merging neighbours ends well or where a test fails. -/
theorem serialFrom_outcome (separate : Bool) (done rest : List Nest)
    (laidOut : LaidOut (done.reverse ++ rest)) (n : Nat) :
    Outcome separate (done.reverse ++ rest) id (serialFrom separate done rest n) := by
  induction rest generalizing done n with
  | nil =>
      rw [serialFrom, List.append_nil]
      exact .done .refl
  | cons l rest ih =>
      cases done with
      | nil => exact ih [l] laidOut n
      | cons last done =>
          have place : (last :: done).reverse ++ l :: rest = done.reverse ++ last :: l :: rest := by
            simp
          rw [place] at laidOut ⊢
          rw [serialFrom]
          cases test : last.mergeable l separate with
          | error e =>
              obtain ⟨rfl, -⟩ := mergeable_error test
              rw [bind_error (liftM_error rfl n)]
              exact .stuck .refl ⟨last, l, by simp, test⟩
          | ok joins =>
              rw [bind_ok (liftM_ok rfl n)]
              cases joins with
              | false =>
                  have next := ih (l :: last :: done) (by simpa using laidOut) n
                  simpa using next
              | true =>
                  obtain ⟨merged, m, found, -⟩ := Nest.merge_spec (laidOut last (by simp))
                    (laidOut l (by simp)) test n
                  have step := Step.merge done.reverse rest test found
                  have next := ih (merged :: done) (by simpa using step.laidOut laidOut) m
                  rw [if_pos rfl, bind_ok found]
                  exact .after (.single step) (by simpa using next)

/-- Absorbing later loops ends well or where a test fails. -/
theorem absorb_outcome (separate : Bool) (l : Nest) (behind rest : List Nest)
    (laidOut : LaidOut (l :: (behind.reverse ++ rest))) (n : Nat) :
    Outcome separate (l :: (behind.reverse ++ rest)) (fun (l, rest) => l :: rest)
      (absorb separate l behind rest n) := by
  induction rest generalizing l behind n with
  | nil =>
      rw [absorb, List.append_nil]
      exact .done .refl
  | cons m rest ih =>
      have stay : Outcome separate (l :: (behind.reverse ++ m :: rest)) (fun (l, rest) => l :: rest)
          (absorb separate l (m :: behind) rest n) := by
        have next := ih l (m :: behind) (by simpa using laidOut) n
        simpa using next
      rw [absorb]
      cases free : behind.all fun k => !k.dependOn m with
      | false => simpa using stay
      | true =>
          have independent : ∀ k ∈ behind.reverse, k.dependOn m = false := by
            simpa using free
          rw [if_pos rfl]
          cases test : l.mergeable m separate with
          | error e =>
              obtain ⟨rfl, -⟩ := mergeable_error test
              rw [bind_error (liftM_error rfl n)]
              exact .stuck .refl ⟨l, m, by simp, test⟩
          | ok joins =>
              rw [bind_ok (liftM_ok rfl n)]
              cases joins with
              | false => simpa using stay
              | true =>
                  obtain ⟨merged, k, found, -⟩ := Nest.merge_spec (laidOut l (by simp))
                    (laidOut m (by simp)) test n
                  have moved := reaches_front independent [l] rest
                  have step := Step.merge [] (behind.reverse ++ rest) test found
                  have reached := moved.tail step
                  have next := ih merged behind (Reaches.laidOut reached laidOut) k
                  simp only [if_true]
                  rw [bind_ok found]
                  exact .after reached next

theorem greedyFrom_outcome (separate : Bool) (count : Nat) (ls : List Nest)
    (laidOut : LaidOut ls) (n : Nat) : Outcome separate ls id (greedyFrom separate count ls n) := by
  induction count generalizing ls n with
  | zero => exact .done .refl
  | succ count ih =>
      cases ls with
      | nil => exact .done .refl
      | cons l rest =>
          have first := absorb_outcome separate l [] rest laidOut n
          rw [greedyFrom]
          generalize absorbed : absorb separate l [] rest n = r at first
          cases first with
          | stuck reached stuck =>
              rw [bind_error absorbed]
              exact .stuck reached stuck
          | @done x m reached =>
              obtain ⟨l', rest'⟩ := x
              have laidOut' := Reaches.laidOut reached laidOut
              have later := ih rest' (fun k hk => laidOut' k (by simp [hk])) m
              rw [bind_ok absorbed]
              refine .after reached ?_
              simp only
              generalize rests : greedyFrom separate count rest' m = r at later
              cases later with
              | stuck reached stuck =>
                  rw [bind_error rests]
                  exact .stuck (reaches_cons reached l') (stuck.mono (List.sublist_cons_self l' _))
              | done reached =>
                  rw [bind_ok rests]
                  exact .done (reaches_cons reached l')

/-- Both passes together, from the loops of the single statements on. -/
theorem fuse_outcome (separate : Bool) {ss : List Statement} {n : Nat}
    (laidOut : LaidOut (singletons ss n).1) :
    Outcome separate (singletons ss n).1 id (fuse separate ss n) := by
  rw [fuse]
  generalize start : singletons ss n = r at laidOut ⊢
  obtain ⟨ls, k⟩ := r
  rw [bind_ok (lift_ok start), serial]
  have first := serialFrom_outcome separate [] ls laidOut k
  generalize merged : serialFrom separate [] ls k = r at first
  cases first with
  | stuck reached stuck =>
      rw [bind_error merged]
      exact .stuck reached stuck
  | @done ls' m reached =>
      rw [bind_ok merged]
      exact .after reached (greedyFrom_outcome separate _ _ (Reaches.laidOut reached laidOut) m)

end ArrayFusion.Fusion
