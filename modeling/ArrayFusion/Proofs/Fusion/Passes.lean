import ArrayFusion.Proofs.Fusion.Numbering

/-!
# What holds of every loop of fusion

A property of loops that holds of the loops of single statements, and of the loops that only free a
base, and is kept when a free is attached and when two loops are merged, holds of every loop that
the passes return. Nothing is asked of the statements.
-/

namespace ArrayFusion

namespace Node

mutual

theorem statements_attachFree (b : BaseId) : (n : Node) →
    (n.attachFree b).statements = n.statements
  | leaf s rank => rfl
  | loop head body => by
    rw [attachFree]
    split
    next body' found => exact statements_attachFreeBody b body found
    next => rfl

theorem statements_attachFreeBody (b : BaseId) : (body : List Node) → {body' : List Node} →
    attachFreeBody b body = some body' → bodyStatements body' = bodyStatements body
  | [], _, h => by contradiction
  | n :: body, body', h => by
    rw [attachFreeBody] at h
    split at h
    next rest found =>
      cases h
      exact congrArg (n.statements ++ ·) (statements_attachFreeBody b body found)
    next =>
      split at h
      · contradiction
      · split at h
        · cases h
          exact congrArg (· ++ bodyStatements body) (statements_attachFree b n)
        · contradiction

end

end Node

namespace Fusion

open Numbered

variable {ss : List Statement} {ls ls' : List Nest} {n m : Nat} {P : Nest → Prop}

theorem PlacesFree.forall {b : BaseId} (h : PlacesFree b ls ls')
    (attach : ∀ l, P l → P (l.attachFree b))
    (holder : ∀ id, P ⟨{ id, rank := 0, size := 1, frees := [b] }, []⟩) (all : ∀ l ∈ ls, P l) :
    ∀ l ∈ ls', P l := by
  cases h with
  | attach before after last =>
    simp only [List.forall_mem_append, List.forall_mem_cons] at all ⊢
    exact ⟨all.1, attach _ all.2.1, all.2.2⟩
  | alone _ id =>
    simp only [List.forall_mem_append, List.forall_mem_singleton]
    exact ⟨all, holder id⟩

theorem PlacesAll.forall {bs : List BaseId} (h : PlacesAll bs ls ls')
    (attach : ∀ l b, P l → P (l.attachFree b))
    (holder : ∀ id b, P ⟨{ id, rank := 0, size := 1, frees := [b] }, []⟩) (all : ∀ l ∈ ls, P l) :
    ∀ l ∈ ls', P l := by
  induction h with
  | nil => exact all
  | @cons b bs ls ls' ls'' first rest ih =>
    exact ih (first.forall (fun l => attach l b) (fun id => holder id b) all)

/-- The loops of single statements, with frees attached to them, and loops that only free. -/
theorem Prepared.forall (h : Prepared ss ls)
    (single : ∀ s ∈ ss, ∀ n, P (Nest.ofStatements 0 [] [s] n).1)
    (attach : ∀ l b, P l → P (l.attachFree b))
    (holder : ∀ id b, P ⟨{ id, rank := 0, size := 1, frees := [b] }, []⟩) : ∀ l ∈ ls, P l := by
  induction h with
  | nil => exact fun l hl => absurd hl List.not_mem_nil
  | @compute ss ls s prepared computes n ih =>
    have before := ih fun t ht => single t (List.mem_append_left _ ht)
    simp only [List.forall_mem_append, List.forall_mem_singleton]
    exact ⟨before, single s (by simp) n⟩
  | skip prepared system notFree ih => exact ih fun t ht => single t (List.mem_append_left _ ht)
  | free prepared free placed ih =>
    have before := ih fun t ht => single t (List.mem_append_left _ ht)
    exact placed.forall attach holder before

section Passes

variable {separate : Bool}

/-- The property is kept when two loops that pass the test are merged. -/
def KeptByMerge (separate : Bool) (P : Nest → Prop) : Prop :=
  ∀ {a b l : Nest} {n m : Nat}, P a → P b → a.mergeable b separate = .ok true →
    a.merge b n = .ok (l, m) → P l

theorem forall_serialFrom (kept : KeptByMerge separate P) {done rest : List Nest}
    (allDone : ∀ l ∈ done, P l) (allRest : ∀ l ∈ rest, P l)
    (h : serialFrom separate done rest n = .ok (ls, m)) : ∀ l ∈ ls, P l := by
  induction rest generalizing done n with
  | nil =>
    rw [serialFrom] at h
    cases h
    exact fun l hl => allDone l (List.mem_reverse.mp hl)
  | cons l rest ih =>
    obtain ⟨here, later⟩ := List.forall_mem_cons.mp allRest
    cases done with
    | nil => exact ih (List.forall_mem_singleton.mpr here) later h
    | cons last done =>
      rw [serialFrom] at h
      obtain ⟨joins, k, tested, h⟩ := bind_eq_ok h
      obtain ⟨test, rfl⟩ := liftM_eq_ok tested
      obtain ⟨top, below⟩ := List.forall_mem_cons.mp allDone
      cases joins with
      | false => exact ih (List.forall_mem_cons.mpr ⟨here, allDone⟩) later h
      | true =>
        obtain ⟨merged, k', merges, h⟩ := bind_eq_ok h
        have together := kept top here test merges
        exact ih (List.forall_mem_cons.mpr ⟨together, below⟩) later h

theorem forall_absorb (kept : KeptByMerge separate P) {l l' : Nest} {behind rest rest' : List Nest}
    (first : P l) (allBehind : ∀ l ∈ behind, P l) (allRest : ∀ l ∈ rest, P l)
    (h : absorb separate l behind rest n = .ok ((l', rest'), m)) : P l' ∧ ∀ l ∈ rest', P l := by
  induction rest generalizing l behind n with
  | nil =>
    rw [absorb] at h
    cases h
    exact ⟨first, fun l hl => allBehind l (List.mem_reverse.mp hl)⟩
  | cons k rest ih =>
    obtain ⟨here, later⟩ := List.forall_mem_cons.mp allRest
    have stay {n : Nat} (h : absorb separate l (k :: behind) rest n = .ok ((l', rest'), m)) :
        P l' ∧ ∀ l ∈ rest', P l :=
      ih first (List.forall_mem_cons.mpr ⟨here, allBehind⟩) later h
    rw [absorb] at h
    split at h
    swap
    · exact stay h
    obtain ⟨joins, n', tested, h⟩ := bind_eq_ok h
    obtain ⟨test, rfl⟩ := liftM_eq_ok tested
    cases joins with
    | false => exact stay h
    | true =>
      obtain ⟨merged, k', merges, h⟩ := bind_eq_ok h
      exact ih (kept first here test merges) allBehind later h

theorem forall_greedyFrom (kept : KeptByMerge separate P) {count : Nat} (all : ∀ l ∈ ls, P l)
    (h : greedyFrom separate count ls n = .ok (ls', m)) : ∀ l ∈ ls', P l := by
  induction count generalizing ls ls' n with
  | zero =>
    cases h
    exact all
  | succ count ih =>
    cases ls with
    | nil =>
      cases h
      exact all
    | cons l rest =>
      obtain ⟨here, later⟩ := List.forall_mem_cons.mp all
      rw [greedyFrom] at h
      obtain ⟨⟨l₁, rest₁⟩, k, absorbed, h⟩ := bind_eq_ok h
      obtain ⟨rest₂, k', greedy, built⟩ := bind_eq_ok h
      cases built
      have none : ∀ l ∈ ([] : List Nest), P l := fun l hl => absurd hl List.not_mem_nil
      obtain ⟨first, others⟩ := forall_absorb kept here none later absorbed
      exact List.forall_mem_cons.mpr ⟨first, ih others greedy⟩

/-- What holds of the prepared loops and is kept by merging holds of all loops of fusion. -/
theorem forall_of_fuse (kept : KeptByMerge separate P)
    (start : ∀ l ∈ (singletons ss n).1, P l) (fused : fuse separate ss n = .ok (ls, m)) :
    ∀ l ∈ ls, P l := by
  obtain ⟨ls₁, n₁, prepared, fused⟩ := bind_eq_ok fused
  obtain ⟨ls₂, n₂, merged, absorbed⟩ := bind_eq_ok fused
  rw [lift_eq_ok prepared] at start
  have none : ∀ l ∈ ([] : List Nest), P l := fun l hl => absurd hl List.not_mem_nil
  exact forall_greedyFrom kept (forall_serialFrom kept none start merged) absorbed

end Passes

/-- All loops of fusion are built from instructions on views that can be built. -/
theorem built_of_fuse {separate : Bool} (views : ∀ s ∈ ss, s.instr.WellFormed)
    (fused : fuse separate ss n = .ok (ls, m)) : ∀ l ∈ ls, Built l := by
  refine forall_of_fuse .merge ?_ fused
  exact (prepared_singletons ss n).forall (fun s hs => .single (views s hs))
    (fun l b built => .attachFree built b) .holder

end Fusion

end ArrayFusion
