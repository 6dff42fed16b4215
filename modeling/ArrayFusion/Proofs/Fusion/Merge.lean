import ArrayFusion.Proofs.Fusion.Resize

/-!
# Merging loops

Loops that pass the test can be merged. The merged loop is well laid out, it carries out the
statements of the first loop and then those of the second one, each as it is or reshaped, and it
frees the bases of both. Neighbouring loops inside are joined the same way, so the proof is by
induction on the levels at which loops are merged.
-/

namespace ArrayFusion

namespace Nest

open Numbered

/-! ## Resized loops can still share their iterations -/

/-- Nothing that is folded or scanned along the first loop is accessed by the second one. -/
theorem isolated_of_touchesSweeps {a b : Nest} (h : a.touchesSweeps b = .ok false) :
    ∀ s ∈ a.head.sweeps, ∀ t ∈ b.statements, s.instr.Isolated t.instr := by
  intro s hs t ht out hout v hv
  obtain ⟨out', hout', apart⟩ := touchesSweeps_eq_false.mp h s hs
  rw [hout', Option.some.injEq] at hout
  exact hout ▸ apart t ht v hv

theorem touchesSweeps_resized {outer : List Int} {a b a' b' : Nest} {size : Int}
    {ss ts : List Statement} (ha : a.toNode.Layout outer) (hb : b.toNode.Layout outer)
    (ra : Resized outer size ss a a') (rb : Resized outer size ts b b')
    (h : a.touchesSweeps b = .ok false) : a'.touchesSweeps b' = .ok false := by
  rw [touchesSweeps_eq_false]
  intro s hs
  rcases ra.sweeps with same | none
  · rw [same] at hs
    obtain ⟨out, hout, -⟩ := touchesSweeps_eq_false.mp h s hs
    have computes := (layout_statements ha s ((mem_sweeps ha).mp hs).1).1
    refine ⟨out, hout, fun t' ht' v hv => ?_⟩
    rw [rb.statements] at ht'
    obtain ⟨t, ht, reshaped⟩ := exists_of_forall₂ rb.reshaped ht'
    have apart := isolated_of_touchesSweeps h s hs t ht
    exact apart.similar (.refl computes.views)
      (reshaped.instr.similar (layout_statements hb t ht).1.views) out hout v hv
  · simp [none] at hs

theorem hasPositionDependent_resized {outer : List Int} {l l' : Nest} {size : Int}
    {ss : List Statement} (h : l.toNode.Layout outer) (r : Resized outer size ss l l') :
    l'.hasPositionDependent = l.hasPositionDependent := by
  have both := (List.forall₂_and_left _ _).mpr ⟨layout_statements h, r.reshaped⟩
  have same := map_eq_of_forall₂ (f := fun s => s.instr.isPositionDependent)
    (g := fun s => s.instr.isPositionDependent) both
    fun s t related => (related.2.instr.similar related.1.1.views).isPositionDependent
  rw [hasPositionDependent, hasPositionDependent, instrs, instrs, r.statements, List.any_map,
    List.any_map]
  simpa [List.any_eq, Function.comp_def] using congrArg (·.any id) same

theorem sweeps_resized {outer : List Int} {l l' : Nest} {size : Int} {ss : List Statement}
    (r : Resized outer size ss l l') (h : l.head.sweeps = []) : l'.head.sweeps = [] := by
  rcases r.sweeps with same | none
  · rw [same, h]
  · exact none

theorem InStep.resized {outer : List Int} {a b a' b' : Nest} {size : Int} {ss ts : List Statement}
    (h : InStep a b) (ha : a.toNode.Layout outer) (hb : b.toNode.Layout outer)
    (ra : Resized outer size ss a a') (rb : Resized outer size ts b b')
    (compatible : ∀ s ∈ ss, ∀ t ∈ ts, s.instr.compatible t.instr = true) : InStep a' b' := by
  refine ⟨?_, touchesSweeps_resized ha hb ra rb h.sweepsA,
    touchesSweeps_resized hb ha rb ra h.sweepsB, ?_, ?_, ss, ts, ?_, ?_, compatible⟩
  · rw [layout_rank ra.layout, layout_rank rb.layout]
  · rw [hasPositionDependent_resized hb rb]
    exact h.positionsB.imp (sweeps_resized ra) id
  · rw [hasPositionDependent_resized ha ra]
    exact h.positionsA.imp (sweeps_resized rb) id
  · exact .inl ⟨by rw [ra.size, rb.size, Int.min_self], ra.statements.symm⟩
  · exact .inl ⟨by rw [ra.size, rb.size, Int.min_self], rb.statements.symm⟩

/-- Loops of one size that can share their iterations consist of statements that run together. -/
theorem InStep.together {outer : List Int} {a b : Nest} (h : InStep a b)
    (ha : a.toNode.Layout outer) (hb : b.toNode.Layout outer) (size : a.head.size = b.head.size) :
    ∀ s ∈ a.statements, ∀ t ∈ b.statements, s.Together a.head.rank t := by
  obtain ⟨ss, ts, splitA, splitB, compatible⟩ := h.compatible
  have sizeA : min a.head.size b.head.size = a.head.size := by omega
  have sizeB : min a.head.size b.head.size = b.head.size := by omega
  rw [sizeA, SplitTo] at splitA
  rw [sizeB, SplitTo] at splitB
  simp only [ne_eq, not_true_eq_false, true_and, false_and, or_false] at splitA splitB
  subst splitA
  subst splitB
  intro s hs t ht
  refine ⟨Instruction.aligned_of_compatible (layout_statements ha s hs).1.notSystem
    (layout_statements hb t ht).1.notSystem (compatible s hs t ht), fun along => ?_,
    fun along => ?_⟩
  · exact isolated_of_touchesSweeps h.sweepsA s ((mem_sweeps ha).mpr ⟨hs, along⟩) t ht
  · rw [h.rank] at along
    exact isolated_of_touchesSweeps h.sweepsB t ((mem_sweeps hb).mpr ⟨ht, along⟩) s hs

theorem statements_of_isSystemOnly {outer : List Int} {l : Nest} (h : l.toNode.Layout outer)
    (systemOnly : l.isSystemOnly = true) : l.statements = [] := by
  rw [isSystemOnly, instrs, List.all_map, List.all_eq_true] at systemOnly
  refine List.eq_nil_iff_forall_not_mem.mpr fun s hs => ?_
  have system := systemOnly s hs
  rw [Function.comp_apply, (layout_statements h s hs).1.notSystem] at system
  contradiction

/-! ## Joined bodies -/

/-- What joining nodes inside loops of given sizes keeps. -/
structure JoinedFrom (outer : List Int) (before after : List Node) : Prop where
  layouts : ∀ n ∈ after, n.Layout outer
  statements : List.Forall₂ Statement.ReshapesTo (Node.bodyStatements before)
    (Node.bodyStatements after)
  frees : ∀ b, (∃ n ∈ after, n.Frees b) ↔ ∃ n ∈ before, n.Frees b

theorem JoinedFrom.refl {outer : List Int} {body : List Node}
    (layouts : ∀ n ∈ body, n.Layout outer) : JoinedFrom outer body body :=
  ⟨layouts, List.forall₂_same.mpr fun s _ => .refl s, fun _ => Iff.rfl⟩

theorem forall₂_reshapesTo_trans {ss ts us : List Statement} (wf : ∀ s ∈ ss, s.Computes)
    (first : List.Forall₂ Statement.ReshapesTo ss ts)
    (second : List.Forall₂ Statement.ReshapesTo ts us) :
    List.Forall₂ Statement.ReshapesTo ss us := by
  induction first generalizing us with
  | nil => exact second
  | cons head _ ih =>
      cases second with
      | cons head' tail' =>
          exact .cons (head.trans (wf _ (by simp)).views head')
            (ih (fun s hs => wf s (by simp [hs])) tail')

theorem computes_of_layouts {outer : List Int} {body : List Node}
    (layouts : ∀ n ∈ body, n.Layout outer) : ∀ s ∈ Node.bodyStatements body, s.Computes := by
  intro s hs
  rw [Node.bodyStatements_eq_flatMap, List.mem_flatMap] at hs
  obtain ⟨n, hn, hs⟩ := hs
  exact ((layouts n hn).statement s hs).1

theorem JoinedFrom.trans {outer : List Int} {xs ys zs : List Node}
    (layouts : ∀ n ∈ xs, n.Layout outer) (first : JoinedFrom outer xs ys)
    (second : JoinedFrom outer ys zs) : JoinedFrom outer xs zs :=
  ⟨second.layouts, forall₂_reshapesTo_trans (computes_of_layouts layouts) first.statements
    second.statements, fun b => (second.frees b).trans (first.frees b)⟩

/-- Joining some nodes of a body leaves those before and behind them as they are. -/
theorem JoinedFrom.within {outer : List Int} {before after : List Node}
    (h : JoinedFrom outer before after) (xs ys : List Node) (hxs : ∀ n ∈ xs, n.Layout outer)
    (hys : ∀ n ∈ ys, n.Layout outer) :
    JoinedFrom outer (xs ++ before ++ ys) (xs ++ after ++ ys) := by
  refine ⟨?_, ?_, fun b => ?_⟩
  · intro n hn
    rcases List.mem_append.mp hn with hn | hn
    · rcases List.mem_append.mp hn with hn | hn
      · exact hxs n hn
      · exact h.layouts n hn
    · exact hys n hn
  · simp only [Node.bodyStatements_append]
    refine List.rel_append (List.rel_append ?_ h.statements) ?_
    · exact List.forall₂_same.mpr fun s _ => .refl s
    · exact List.forall₂_same.mpr fun s _ => .refl s
  · have same := h.frees b
    simp only [List.mem_append, or_and_right, exists_or, same]

/-- Inside other loops the test does not fail: statements that go that deep have operands. -/
theorem mergeable_inside {outer : List Int} {a b : Nest} (inside : outer ≠ [])
    (ha : a.toNode.Layout outer) (hb : b.toNode.Layout outer) :
    ∃ r, mergeable a b false = .ok r := by
  have operands : ∀ {l : Nest}, l.toNode.Layout outer → ∀ s ∈ l.head.sweeps,
      ∃ out, s.instr.operands[0]? = some out := by
    intro l hl s hs
    have under := (layout_statements hl s ((mem_sweeps hl).mp hs).1).2
    have positions : s.instr.shape ≠ [] := by
      intro empty
      rcases under with under | ⟨one, -⟩
      · simp [empty] at under
      · have := congrArg List.length one
        simp [inside] at this
    rcases s.instr.shape_eq_nil_or_mem with empty | ⟨v, hv, -⟩
    · exact absurd empty positions
    · exact ⟨_, List.getElem?_eq_getElem (List.length_pos_of_mem hv)⟩
  have touches : ∀ {l m : Nest}, l.toNode.Layout outer → ∃ r, l.touchesSweeps m = .ok r := by
    intro l m hl
    refine anyM_ok fun s hs => ?_
    obtain ⟨out, hout⟩ := operands hl s hs
    rw [hout]
    exact ⟨_, rfl⟩
  obtain ⟨first, hfirst⟩ := touches (m := b) ha
  obtain ⟨second, hsecond⟩ := touches (m := a) hb
  rw [mergeable, hfirst, hsecond]
  split
  · exact ⟨_, rfl⟩
  split
  · exact ⟨_, rfl⟩
  split
  · exact ⟨_, rfl⟩
  · cases first <;> cases second <;> exact ⟨_, rfl⟩

/-- What a function that merges two loops does if they pass the test. -/
def MergesAt (outer : List Int) (merge : Nest → Nest → Numbered Nest) : Prop :=
  ∀ a b, a.toNode.Layout outer → b.toNode.Layout outer → mergeable a b false = .ok true →
    ∀ n, ∃ l m, merge a b n = .ok (l, m) ∧ JoinedFrom outer [a.toNode, b.toNode] [l.toNode]

theorem joinBody_spec {outer : List Int} {merge : Nest → Nest → Numbered Nest}
    (inside : outer ≠ []) (merges : MergesAt outer merge) (done rest : List Node)
    (hdone : ∀ n ∈ done, n.Layout outer) (hrest : ∀ n ∈ rest, n.Layout outer) (n : Nat) :
    ∃ body m, joinBody merge done rest n = .ok (body, m) ∧
      JoinedFrom outer (done.reverse ++ rest) body := by
  induction rest generalizing done n with
  | nil =>
      refine ⟨done.reverse, n, by simp [joinBody]; rfl, ?_⟩
      rw [List.append_nil]
      exact .refl (by simpa using hdone)
  | cons node rest ih =>
      have hnode := hrest node (by simp)
      have htail : ∀ n ∈ rest, n.Layout outer := fun m hm => hrest m (by simp [hm])
      -- A node that is not joined with the one before it goes on top of those that are done.
      have skip : ∃ body m, joinBody merge (node :: done) rest n = .ok (body, m) ∧
          JoinedFrom outer (done.reverse ++ node :: rest) body := by
        have pushed := ih (node :: done) (List.forall_mem_cons.mpr ⟨hnode, hdone⟩) htail n
        simpa using pushed
      cases node with
      | leaf s rank =>
          cases done with
          | nil => exact skip
          | cons last done => cases last <;> exact skip
      | loop head body =>
          cases done with
          | nil => exact skip
          | cons last done =>
              cases last with
              | leaf s rank => exact skip
              | loop head' body' =>
                  have hlast := hdone (.loop head' body') (by simp)
                  have hinit : ∀ n ∈ done, n.Layout outer := fun m hm => hdone m (by simp [hm])
                  obtain ⟨r, hr⟩ :=
                    mergeable_inside (a := ⟨head', body'⟩) (b := ⟨head, body⟩) inside hlast hnode
                  rw [joinBody, bind_ok (liftM_ok hr n)]
                  cases r with
                  | false => simpa using skip
                  | true =>
                      obtain ⟨l, m, merged, joined⟩ :=
                        merges ⟨head', body'⟩ ⟨head, body⟩ hlast hnode hr n
                      obtain ⟨body'', m', found, others⟩ := ih (l.toNode :: done)
                        (List.forall_mem_cons.mpr ⟨joined.layouts _ (by simp), hinit⟩) htail m
                      refine ⟨body'', m', ?_, ?_⟩
                      · rw [if_pos rfl, bind_ok merged]
                        exact found
                      · have first : JoinedFrom outer
                            (done.reverse ++ [.loop head' body', .loop head body] ++ rest)
                            (done.reverse ++ [l.toNode] ++ rest) :=
                          joined.within done.reverse rest (by simpa using hinit) htail
                        refine JoinedFrom.trans ?_ (by simpa using first) (by simpa using others)
                        intro k hk
                        rcases List.mem_append.mp hk with hk | hk
                        · exact hdone k (List.mem_reverse.mp hk)
                        · exact hrest k hk

/-! ## Merged loops -/

/-- A loop takes over the frees of one without statements. -/
theorem takeFrees_spec {outer : List Int} {l m : Nest} {before : List Node}
    (hl : l.toNode.Layout outer) (statements : Node.bodyStatements before = l.statements)
    (frees : ∀ b, (∃ n ∈ before, n.Frees b) ↔ l.toNode.Frees b ∨ m.toNode.Frees b) (n : Nat) :
    ∃ l' k, l.takeFrees m.allFrees n = .ok (l', k) ∧ JoinedFrom outer before [l'.toNode] := by
  refine ⟨_, _, rfl, ?_, ?_, fun b => ?_⟩
  · simpa using layout_with hl n (l.head.frees.union m.allFrees)
  · rw [statements]
    simp only [Node.bodyStatements, List.append_nil]
    exact List.forall₂_same.mpr fun s _ => .refl s
  · rw [frees]
    simp only [List.mem_singleton, exists_eq_left, toNode, Node.frees_loop, BaseSet.mem_union,
      mem_allFrees_iff]
    exact or_right_comm

/-- The loop that runs the joined bodies of two resized loops. -/
theorem joined_loop {outer : List Int} {size : Int} {ss ts : List Statement} {a b a' b' : Nest}
    {body : List Node} (ha : a.toNode.Layout outer) (hb : b.toNode.Layout outer)
    (ra : Resized outer size ss a a') (rb : Resized outer size ts b b') (inStep : InStep a' b')
    (joined : JoinedFrom (outer ++ [size]) (a'.body ++ b'.body) body) {head : LoopHead}
    (rank : head.rank = a'.head.rank) (headSize : head.size = size)
    (frees : head.frees = a'.head.frees.union b'.head.frees) :
    JoinedFrom outer [a.toNode, b.toNode] [(refresh ⟨head, body⟩).toNode] := by
  have sameSize : a'.head.size = b'.head.size := ra.size.trans rb.size.symm
  have bodies : Node.bodyStatements (a'.body ++ b'.body) = a'.statements ++ b'.statements :=
    Node.bodyStatements_append ..
  have related := joined.statements
  rw [bodies] at related
  have computes := computes_append ra.layout rb.layout
  refine ⟨?_, ?_, fun b => ?_⟩
  · rw [List.forall_mem_singleton]
    subst headSize
    refine .loop (rank.trans (layout_rank ra.layout)) (ra.size ▸ layout_size ra.layout) ⟨rfl, rfl⟩
      ?_ joined.layouts
    have pairs : (a'.statements ++ b'.statements).Pairwise (Statement.Together a'.head.rank) := by
      refine List.pairwise_append.mpr ⟨layout_together ra.layout, ?_,
        inStep.together ra.layout rb.layout sameSize⟩
      rw [inStep.rank]
      exact layout_together rb.layout
    refine pairwise_of_forall₂ ((List.forall₂_and_left _ _).mpr ⟨computes, related⟩) ?_ pairs
    intro s s' t t' hs ht together
    have step := together.reshapesTo hs.1 ht.1 hs.2 ht.2
    exact rank.symm ▸ step
  · have first : List.Forall₂ Statement.ReshapesTo (a.statements ++ b.statements)
        (a'.statements ++ b'.statements) := by
      rw [ra.statements, rb.statements]
      exact List.rel_append ra.reshaped rb.reshaped
    simpa [Node.bodyStatements, Nest.statements, refresh] using
      forall₂_reshapesTo_trans (computes_append ha hb) first related
  · have inner := joined.frees b
    have freesA := ra.frees b
    have freesB := rb.frees b
    rw [toNode, Node.frees_loop] at freesA freesB
    simp only [List.mem_append, or_and_right, exists_or] at inner
    simp only [exists_eq_left, List.mem_cons, List.not_mem_nil, or_false, exists_eq_or_imp,
      ← freesA, ← freesB]
    rw [toNode, Node.frees_loop]
    simp only [refresh, describe, frees, BaseSet.mem_union, inner]
    exact or_or_or_comm

/-- Loops that pass the test can be merged if their bodies can be joined. -/
theorem mergeWith_spec {outer : List Int} {join : List Node → Numbered (List Node)}
    (joins : ∀ size (body : List Node), (∀ n ∈ body, n.Layout (outer ++ [size])) → ∀ n,
      ∃ body' m, join body n = .ok (body', m) ∧ JoinedFrom (outer ++ [size]) body body') :
    MergesAt outer (mergeWith join) := by
  intro a b ha hb test n
  rw [mergeWith, bind_ok (liftM_ok test n)]
  simp only [Bool.not_true, Bool.false_eq_true, if_false]
  by_cases systemB : b.isSystemOnly = true
  · simp only [systemB, if_true]
    have none := statements_of_isSystemOnly hb systemB
    exact takeFrees_spec ha (by simp [Node.bodyStatements, none]) (by simp) n
  by_cases systemA : a.isSystemOnly = true
  · simp only [systemA, systemB, Bool.false_eq_true, if_true, if_false]
    have none := statements_of_isSystemOnly ha systemA
    exact takeFrees_spec hb (by simp [Node.bodyStatements, none]) (by simp [or_comm]) n
  simp only [systemA, systemB, Bool.false_eq_true, if_false]
  have nonempty : ∀ {l : Nest}, l.isSystemOnly ≠ true → l.statements ≠ [] := by
    intro l computes none
    exact computes (by simp [isSystemOnly, instrs, none])
  obtain inStep := ((inStep_of_mergeable test).resolve_left systemA).resolve_left systemB
  obtain ⟨ss, ts, splitA, splitB, compatible⟩ := inStep.compatible
  obtain ⟨a', n₁, resizeA, ra⟩ := resize_spec ha (nonempty systemA) splitA n
  obtain ⟨b', n₂, resizeB, rb⟩ := resize_spec hb (nonempty systemB) splitB n₁
  have inStep' := inStep.resized ha hb ra rb compatible
  have again := inStep'.mergeable (ra.size.trans rb.size.symm)
  have nodes : ∀ n ∈ a'.body ++ b'.body, n.Layout (outer ++ [min a.head.size b.head.size]) := by
    intro m hm
    rcases List.mem_append.mp hm with hm | hm
    · exact ra.size ▸ ra.layout.nodes m hm
    · exact rb.size ▸ rb.layout.nodes m hm
  obtain ⟨body, n₃, found, joined⟩ := joins _ _ nodes (n₂ + 1)
  rw [bind_ok resizeA, bind_ok resizeB, bind_ok (liftM_ok again n₂)]
  simp only [Bool.not_true, Bool.false_eq_true, if_false]
  rw [bind_ok (lift_ok (rfl : Numbering.next n₂ = (n₂, n₂ + 1))), bind_ok found]
  exact ⟨_, n₃, rfl, joined_loop ha hb ra rb inStep' joined rfl rfl rfl⟩

/-- Loops that pass the test can be merged, at any number of levels. -/
theorem mergeLevels_spec (levels : Nat) (outer : List Int) :
    MergesAt outer (mergeLevels levels) := by
  induction levels generalizing outer with
  | zero => exact mergeWith_spec fun size body layouts n => ⟨body, n, rfl, .refl layouts⟩
  | succ levels ih =>
      refine mergeWith_spec fun size body layouts n => ?_
      have inside : outer ++ [size] ≠ [] := by simp
      exact joinBody_spec inside (ih _) [] body (by simp) layouts n

end Nest

end ArrayFusion
