import ArrayFusion.Proofs.Fusion.Passes

/-!
# Folds and scans along the first axis are kept separate

Fusion can be told to keep folds and scans along the first axis away from other statements. The test
of two loops only compares what their heads record, so this module follows the loops of fusion
through all merges: whatever a loop carries out was drawn from the loops that it was merged from, and
its head lists its folds and scans exactly. No view has to be well-formed for this.

Axes are compared as 32 bit words. A fold along an axis whose number is a multiple of 2^32 counts as
one along the first axis, and is put together with those.
-/

namespace ArrayFusion

namespace Statement

/-- The statements carry out operations of the others, with the same constants. -/
def DrawnFrom (ss ts : List Statement) : Prop :=
  ∀ t ∈ ts, ∃ s ∈ ss, t.instr.opcode = s.instr.opcode ∧ t.instr.constant = s.instr.constant

namespace DrawnFrom

variable {ss ts us : List Statement}

theorem of_subset (h : ts ⊆ ss) : DrawnFrom ss ts := fun t ht => ⟨t, h ht, rfl, rfl⟩

theorem refl (ss : List Statement) : DrawnFrom ss ss := of_subset (List.Subset.refl ss)

theorem trans (first : DrawnFrom ss ts) (second : DrawnFrom ts us) : DrawnFrom ss us := by
  intro u hu
  obtain ⟨t, ht, opcode, constant⟩ := second u hu
  obtain ⟨s, hs, opcode', constant'⟩ := first t ht
  exact ⟨s, hs, opcode.trans opcode', constant.trans constant'⟩

theorem append {ss' ts' : List Statement} (first : DrawnFrom ss ts) (second : DrawnFrom ss' ts') :
    DrawnFrom (ss ++ ss') (ts ++ ts') := by
  intro t ht
  rcases List.mem_append.mp ht with ht | ht
  · obtain ⟨s, hs, same⟩ := first t ht
    exact ⟨s, List.mem_append_left ss' hs, same⟩
  · obtain ⟨s, hs, same⟩ := second t ht
    exact ⟨s, List.mem_append_right ss hs, same⟩

/-- The axis of a fold or scan goes with its operation. -/
theorem sweepAxis? (h : DrawnFrom ss ts) :
    ∀ t ∈ ts, ∃ s ∈ ss, t.instr.sweepAxis? = s.instr.sweepAxis? := by
  intro t ht
  obtain ⟨s, hs, opcode, constant⟩ := h t ht
  exact ⟨s, hs, by rw [Instruction.sweepAxis?, Instruction.sweepAxis?, opcode, constant]⟩

end DrawnFrom

end Statement

open Statement (DrawnFrom)

namespace Nest

open Numbered

variable {a b l : Nest} {n m : Nat}

/-! ## Statements of built and merged loops -/

theorem statements_buildBody (rank : Nat) (frees : BaseSet)
    (inner : BaseSet → List Statement → Numbering Nest)
    (builds : ∀ frees ss n, (inner frees ss n).1.statements = ss) (parts : List Segment) (n : Nat) :
    Node.bodyStatements (buildBody rank frees inner parts n).1 =
      parts.flatMap Segment.statements := by
  induction parts generalizing n with
  | nil => rfl
  | cons part rest ih =>
    cases part with
    | single s => exact congrArg (s :: ·) (ih n)
    | run ss =>
      have first := builds (if rest.isEmpty then frees else []) ss n
      have later := ih (inner (if rest.isEmpty then frees else []) ss n).2
      exact congrArg₂ (· ++ ·) ((statements_toNode _).trans first) later

theorem statements_buildSized (levels rank : Nat) (size : Int) (frees : BaseSet)
    (ss : List Statement) (n : Nat) : (buildSized levels rank size frees ss n).1.statements = ss := by
  induction levels generalizing rank size frees ss n with
  | zero =>
    show Node.bodyStatements (ss.map (Node.leaf · (rankWord rank))) = ss
    rw [Node.bodyStatements_eq_flatMap, List.flatMap_map]
    exact List.flatMap_singleton' ss
  | succ levels ih =>
    have body := statements_buildBody rank frees
      (fun frees ss => buildSized levels (rank + 1) (commonSize (rank + 1) ss) frees ss)
      (fun frees ss n => ih _ _ frees ss n) (segments rank ss) (n + 1)
    exact body.trans (segments_spec rank ss).1

theorem statements_ofStatements (rank : Nat) (frees : BaseSet) (ss : List Statement) (n : Nat) :
    (ofStatements rank frees ss n).1.statements = ss.filter (!·.instr.opcode.isSystem) :=
  statements_buildSized ..

theorem drawnFrom_splitStatements {size : Int} {ss : List Statement}
    (h : l.splitStatements size = .ok ss) : DrawnFrom l.statements ss := by
  intro t ht
  obtain ⟨s, hs, built⟩ := exists_of_forall₂ (forall₂_of_mapM h) ht
  refine ⟨s, hs, ?_⟩
  cases changed : s.instr.splitAxis l.head.rank.toNat size with
  | error e =>
    rw [changed] at built
    contradiction
  | ok i =>
    rw [changed] at built
    cases built
    obtain ⟨n, -, -, -, reshaped⟩ := Instruction.reshape_of_splitAxis changed
    obtain ⟨-, rest, -⟩ := Instruction.operands_of_reshape reshaped
    exact ⟨by rw [rest]; rfl, by rw [rest]; rfl⟩

theorem drawnFrom_resize {size : Int} (h : l.resize size n = .ok (a, m)) :
    DrawnFrom l.statements a.statements := by
  obtain ⟨rfl, rfl⟩ | ⟨ss, built, found, made, rfl⟩ := resize_eq_ok h
  · exact .refl _
  · have inside := statements_ofStatements l.head.rank.toNat [] ss n
    rw [made] at inside
    have kept : built.statements ⊆ ss := by
      rw [inside]
      exact List.filter_subset_self ss
    exact (drawnFrom_splitStatements found).trans (.of_subset kept)

/-- A function that merges two loops adds nothing to what they carry out. -/
def MergesStatements (merge : Nest → Nest → Numbered Nest) : Prop :=
  ∀ a b n l m, merge a b n = .ok (l, m) → DrawnFrom (a.statements ++ b.statements) l.statements

theorem drawnFrom_joinBody {merge : Nest → Nest → Numbered Nest} (merges : MergesStatements merge)
    {done rest body : List Node} (h : joinBody merge done rest n = .ok (body, m)) :
    DrawnFrom (Node.bodyStatements (done.reverse ++ rest)) (Node.bodyStatements body) := by
  refine joinBody_induction
    (R := fun body _ body' _ => DrawnFrom (Node.bodyStatements body) (Node.bodyStatements body'))
    (fun body _ => .refl _) .trans ?_ h
  intro before after a b l n m merged
  have inside := (DrawnFrom.refl (Node.bodyStatements before)).append
    ((merges a b n l m merged).append (.refl (Node.bodyStatements after)))
  simpa [Node.bodyStatements, List.append_assoc] using inside

theorem drawnFrom_mergeWith {join : List Node → Numbered (List Node)}
    (joins : ∀ body n body' m, join body n = .ok (body', m) →
      DrawnFrom (Node.bodyStatements body) (Node.bodyStatements body')) :
    MergesStatements (mergeWith join) := by
  intro a b n l m h
  obtain ⟨-, taken⟩ | ⟨-, taken⟩ | ⟨a', b', k₁, k₂, body, -, -, resizedA, resizedB, joined, rfl⟩ :=
    mergeWith_eq_ok h
  · obtain ⟨rfl, -⟩ := takeFrees_eq_ok taken
    exact .of_subset (List.subset_append_left ..)
  · obtain ⟨rfl, -⟩ := takeFrees_eq_ok taken
    exact .of_subset (List.subset_append_right ..)
  have inner := joins _ _ _ _ joined
  rw [Node.bodyStatements_append] at inner
  exact ((drawnFrom_resize resizedA).append (drawnFrom_resize resizedB)).trans inner

theorem drawnFrom_mergeLevels (levels : Nat) : MergesStatements (mergeLevels levels) := by
  induction levels with
  | zero =>
    refine drawnFrom_mergeWith fun body n body' m h => ?_
    cases h
    exact .refl _
  | succ levels ih => exact drawnFrom_mergeWith fun body n body' m h => drawnFrom_joinBody ih h

theorem rank_buildSized (levels rank : Nat) (size : Int) (frees : BaseSet) (ss : List Statement)
    (n : Nat) : (buildSized levels rank size frees ss n).1.head.rank = rankWord rank := by
  cases levels with
  | zero => rw [buildSized_zero, refresh, describe]
  | succ levels => rw [buildSized_succ, refresh, describe]

/-- A loop that is built records what follows from its statements. -/
theorem sweeps_buildSized (levels rank : Nat) (size : Int) (frees : BaseSet) (ss : List Statement)
    (n : Nat) : (buildSized levels rank size frees ss n).1.head.sweeps =
      (buildSized levels rank size frees ss n).1.statements.filter (sweepsAlong (rankWord rank)) := by
  cases levels with
  | zero => rw [buildSized_zero, refresh, describe, statements]
  | succ levels => rw [buildSized_succ, refresh, describe, statements]

theorem rank_resize {size : Int} (h : l.resize size n = .ok (a, m)) :
    a.head.rank = l.head.rank ∨ a.head.rank = rankWord l.head.rank.toNat := by
  obtain ⟨rfl, -⟩ | ⟨ss, built, -, made, rfl⟩ := resize_eq_ok h
  · exact .inl rfl
  · have rank := rank_buildSized (depth (ss.filter (!·.instr.opcode.isSystem))) l.head.rank.toNat
      (commonSize l.head.rank.toNat (ss.filter (!·.instr.opcode.isSystem))) []
      (ss.filter (!·.instr.opcode.isSystem)) n
    rw [ofStatements, ofStatementsSized] at made
    rw [made] at rank
    exact .inr rank

/-! ## Loops that keep to one kind of statements -/

theorem sweepsAlong_zero_iff {s : Statement} :
    sweepsAlong 0 s = true ↔ ∃ axis, s.instr.sweepAxis? = some axis ∧ 2 ^ 32 ∣ axis := by
  rw [sweepsAlong]
  cases s.instr.sweepAxis? with
  | none => simp
  | some axis =>
    have cut : ((axis : Int).bmod (1 <<< 32) == 0) = true ↔ 2 ^ 32 ∣ axis := by
      rw [beq_iff_eq, ← Int.dvd_iff_bmod_eq_zero]
      exact Int.natCast_dvd_natCast
    simpa using cut

/-- All statements of a loop are folds or scans along the first axis, or none of them is. -/
def OneKind (l : Nest) : Prop :=
  (∀ s ∈ l.statements, sweepsAlong 0 s = false) ∨ ∀ s ∈ l.statements, sweepsAlong 0 s = true

/-- What is known of a loop while folds and scans along the first axis are kept separate. -/
structure Separated (ss : List Statement) (l : Nest) : Prop where
  rank : l.head.rank = 0
  sweeps : l.head.sweeps = l.statements.filter (sweepsAlong 0)
  drawn : DrawnFrom ss l.statements
  apart : l.OneKind

variable {ss : List Statement}

/-- Only statements and the head's record matter. -/
theorem Separated.of_same (h : Separated ss l) (rank : a.head.rank = l.head.rank)
    (sweeps : a.head.sweeps = l.head.sweeps) (statements : a.statements = l.statements) :
    Separated ss a := by
  refine ⟨rank.trans h.rank, ?_, ?_, ?_⟩
  · rw [sweeps, statements, h.sweeps]
  · rw [statements]
    exact h.drawn
  · rw [OneKind, statements]
    exact h.apart

/-- The record of a loop tells which kind of statements it keeps to. -/
theorem Separated.apart_of_isEmpty (h : Separated ss l) :
    (l.head.sweeps.isEmpty = true → ∀ s ∈ l.statements, sweepsAlong 0 s = false) ∧
      (l.head.sweeps.isEmpty = false → ∀ s ∈ l.statements, sweepsAlong 0 s = true) := by
  rw [h.sweeps]
  constructor
  · intro none s hs
    rw [List.isEmpty_iff, List.filter_eq_nil_iff] at none
    simpa using none s hs
  · intro some
    rcases h.apart with without | only
    · have none : l.statements.filter (sweepsAlong 0) = [] := by
        rw [List.filter_eq_nil_iff]
        intro s hs
        simp [without s hs]
      rw [none] at some
      contradiction
    · exact only

/-- Whether a statement is a fold or scan along the first axis goes with its operation. -/
theorem sweepsAlong_of_drawnFrom {ts : List Statement} {found : Bool} (h : DrawnFrom ss ts)
    (all : ∀ s ∈ ss, sweepsAlong 0 s = found) : ∀ t ∈ ts, sweepsAlong 0 t = found := by
  intro t ht
  obtain ⟨s, hs, axis⟩ := h.sweepAxis? t ht
  have same : sweepsAlong 0 t = sweepsAlong 0 s := by
    rw [sweepsAlong, sweepsAlong, axis]
  exact same.trans (all s hs)

theorem separated_single {s : Statement} (hs : s ∈ ss) (n : Nat) :
    Separated ss (ofStatements 0 [] [s] n).1 := by
  have inside := statements_ofStatements 0 [] [s] n
  have only : ∀ t ∈ (ofStatements 0 [] [s] n).1.statements, t = s := by
    intro t ht
    rw [inside] at ht
    exact List.mem_singleton.mp (List.mem_of_mem_filter ht)
  refine ⟨rank_buildSized .., sweeps_buildSized .., ?_, ?_⟩
  · exact .of_subset fun t ht => only t ht ▸ hs
  · cases along : sweepsAlong 0 s with
    | false => exact .inl fun t ht => only t ht ▸ along
    | true => exact .inr fun t ht => only t ht ▸ along

/-- A loop without statements, which only frees bases. -/
theorem separated_holder (ss : List Statement) (id : Nat) (b : BaseId) :
    Separated ss ⟨{ id, rank := 0, size := 1, frees := [b] }, []⟩ :=
  ⟨rfl, rfl, .of_subset (List.nil_subset ss), .inl fun _ hs => absurd hs List.not_mem_nil⟩

theorem Separated.attachFree (h : Separated ss l) (b : BaseId) : Separated ss (l.attachFree b) := by
  rw [Nest.attachFree]
  split
  next body found => exact h.of_same rfl rfl (Node.statements_attachFreeBody b l.body found)
  next => exact h.of_same rfl rfl rfl

/-- Loops that pass the test keep to the same kind of statements, so their merge does too. -/
theorem Separated.merge (ha : Separated ss a) (hb : Separated ss b)
    (test : a.mergeable b true = .ok true) (merged : a.merge b n = .ok (l, m)) :
    Separated ss l := by
  have drawn := drawnFrom_mergeLevels (mergeDepth a b) a b n l m merged
  have cases : ∃ join, mergeLevels (mergeDepth a b) = mergeWith join := by
    cases mergeDepth a b <;> exact ⟨_, rfl⟩
  obtain ⟨join, unfolded⟩ := cases
  rw [Nest.merge, unfolded] at merged
  obtain ⟨-, taken⟩ | ⟨-, taken⟩ |
    ⟨a', b', k₁, k₂, body, computesA, computesB, resizedA, -, -, rfl⟩ := mergeWith_eq_ok merged
  · obtain ⟨rfl, -⟩ := takeFrees_eq_ok taken
    exact ha.of_same rfl rfl rfl
  · obtain ⟨rfl, -⟩ := takeFrees_eq_ok taken
    exact hb.of_same rfl rfl rfl
  have rank : a'.head.rank = 0 := by
    rcases rank_resize resizedA with same | same
    · exact same.trans ha.rank
    · rw [same, ha.rank]
      rfl
  obtain ⟨-, alike, -⟩ := (mergeable_eq_ok_true computesA computesB).mp test
  have alike : a.head.sweeps.isEmpty = b.head.sweeps.isEmpty := by
    simpa [ha.rank] using alike
  have both {found : Bool} (allA : ∀ s ∈ a.statements, sweepsAlong 0 s = found)
      (allB : ∀ s ∈ b.statements, sweepsAlong 0 s = found) :
      ∀ s ∈ a.statements ++ b.statements, sweepsAlong 0 s = found := by
    intro s hs
    exact (List.mem_append.mp hs).elim (allA s) (allB s)
  have source : DrawnFrom ss (a.statements ++ b.statements) :=
    (DrawnFrom.of_subset (by simp)).trans (ha.drawn.append hb.drawn)
  refine ⟨rank, ?_, source.trans drawn, ?_⟩
  · show List.filter (sweepsAlong a'.head.rank) _ = _
    rw [rank]
    rfl
  · cases record : a.head.sweeps.isEmpty with
    | true =>
      have allA := ha.apart_of_isEmpty.1 record
      have allB := hb.apart_of_isEmpty.1 (alike.symm.trans record)
      exact .inl (sweepsAlong_of_drawnFrom drawn (both allA allB))
    | false =>
      have allA := ha.apart_of_isEmpty.2 record
      have allB := hb.apart_of_isEmpty.2 (alike.symm.trans record)
      exact .inr (sweepsAlong_of_drawnFrom drawn (both allA allB))

end Nest

namespace Fusion

open Nest

variable {ss : List Statement} {ls : List Nest} {n m : Nat} {l : Nest}

theorem separated_of_fuse (fused : fuse true ss n = .ok (ls, m)) : ∀ l ∈ ls, l.Separated ss := by
  have start : ∀ l ∈ (singletons ss n).1, l.Separated ss :=
    (prepared_singletons ss n).forall (fun s hs => separated_single hs)
      (fun _ b h => h.attachFree b) (separated_holder ss)
  exact forall_of_fuse (fun ha hb test merged => ha.merge hb test merged) start fused

/-- Told to keep them separate, fusion returns no loop that mixes folds and scans along the first
axis with other statements. Axes whose numbers are multiples of 2^32 count as the first one; where
no other such axis occurs, a loop either has no fold or scan along the first axis or nothing else. -/
theorem fuse_separates (fused : fuse true ss n = .ok (ls, m)) (hl : l ∈ ls) :
    ((∀ s ∈ l.statements, ∀ axis, s.instr.sweepAxis? = some axis → ¬ 2 ^ 32 ∣ axis) ∨
      ∀ s ∈ l.statements, ∃ axis, s.instr.sweepAxis? = some axis ∧ 2 ^ 32 ∣ axis) ∧
    ((∀ s ∈ ss, ∀ axis, s.instr.sweepAxis? = some axis → 2 ^ 32 ∣ axis → axis = 0) →
      (∀ s ∈ l.statements, s.instr.sweepAxis? ≠ some 0) ∨
        ∀ s ∈ l.statements, s.instr.sweepAxis? = some 0) := by
  have separated := separated_of_fuse fused l hl
  rcases separated.apart with without | only
  · have none : ∀ s ∈ l.statements, ∀ axis, s.instr.sweepAxis? = some axis → ¬ 2 ^ 32 ∣ axis := by
      intro s hs axis along first
      have sweeps := sweepsAlong_zero_iff.mpr ⟨axis, along, first⟩
      rw [without s hs] at sweeps
      contradiction
    refine ⟨.inl none, fun _ => .inl fun s hs along => ?_⟩
    exact none s hs 0 along (dvd_zero _)
  · have all : ∀ s ∈ l.statements, ∃ axis, s.instr.sweepAxis? = some axis ∧ 2 ^ 32 ∣ axis :=
      fun s hs => sweepsAlong_zero_iff.mp (only s hs)
    refine ⟨.inr all, fun near => .inr fun t ht => ?_⟩
    obtain ⟨axis, along, first⟩ := all t ht
    obtain ⟨s, hs, same⟩ := separated.drawn.sweepAxis? t ht
    obtain rfl : axis = 0 := near s hs axis (same ▸ along) first
    exact along

/-- A sum stays apart from the copy of the same array. -/
theorem fuse_separates_sum :
    let array (b : BaseId) : View := .whole b .int64 4
    let ss := Statement.number
      [.sweep (.reduce .add) (.whole 2 .int64 1) (array 0) 0,
       { opcode := .unary .identity, operands := [array 1, array 0] }] 0
    ∃ ls m, fuse true ss 0 = .ok (ls, m) ∧ ls.length = 2 ∧ ∀ l ∈ ls,
      (∀ s ∈ l.statements, s.instr.sweepAxis? ≠ some 0) ∨
        ∀ s ∈ l.statements, s.instr.sweepAxis? = some 0 := by
  intro array ss
  have near : ∀ s ∈ ss, ∀ axis, s.instr.sweepAxis? = some axis → 2 ^ 32 ∣ axis → axis = 0 := by
    have axes : ∀ s ∈ ss, s.instr.sweepAxis? = some 0 ∨ s.instr.sweepAxis? = none := by decide
    intro s hs axis along _
    rcases axes s hs with first | none
    · exact Option.some.inj (along.symm.trans first)
    · cases along.symm.trans none
  have two : (fuse true ss 0).toOption.map (·.1.length) = some 2 := by decide
  cases found : fuse true ss 0 with
  | error e => simp [found, Except.toOption] at two
  | ok r =>
    rw [found] at two
    exact ⟨r.1, r.2, rfl, Option.some.inj two, fun l hl => (fuse_separates found hl).2 near⟩

/-- A fold along an axis with a number as large as 2^32 is merged with a sum along the first one. -/
theorem fuse_mixes_far_axis :
    let array (b : BaseId) : View := .whole b .int64 4
    let ss := Statement.number
      [.sweep (.reduce .add) (.whole 0 .int64 1) (array 1) 0,
       .sweep (.reduce .add) (.whole 2 .int64 1) (array 1) (2 ^ 32)] 0
    (fuse true ss 0).toOption.map (fun r => r.1.map fun l =>
      l.statements.map (·.instr.sweepAxis?)) = some [[some 0, some (2 ^ 32)]] := by
  decide

end Fusion

end ArrayFusion
