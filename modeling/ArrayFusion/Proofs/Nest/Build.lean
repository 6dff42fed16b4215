import ArrayFusion.Nest.Build
import ArrayFusion.Proofs.Nest.Layout

/-!
# Layout of built nests

Building a loop from statements that share its axes gives a well laid out loop with the same
statements in the same order. Nothing is freed in it.
-/

namespace ArrayFusion.Nest

/-- Ranks that fit into a word are recorded as they are. -/
theorem rankWord_of_lt {rank : Nat} (small : rank < 2 ^ 31) : rankWord rank = rank :=
  bmod_word small

/-- Statements of a segment. -/
def Segment.statements : Segment → List Statement
  | .single s => [s]
  | .run ss => ss

/-- What a segment looks like from the loop of the given rank. -/
def Segment.Fits (rank : Nat) : Segment → Prop
  | .single s => s.instr.ndim ≤ rank + 1
  | .run ss => ss ≠ [] ∧ ∀ s ∈ ss, rank + 1 < s.instr.ndim ∧
      s.instr.sizeAt (rank + 1) = commonSize (rank + 1) ss

theorem joinRun_spec {rank : Nat} {s : Statement} {parts : List Segment}
    (deep : rank + 1 < s.instr.ndim) (fits : ∀ p ∈ parts, p.Fits rank) :
    (joinRun (rank + 1) s parts).flatMap Segment.statements =
        s :: parts.flatMap Segment.statements ∧
      ∀ p ∈ joinRun (rank + 1) s parts, p.Fits rank := by
  have alone : (Segment.run [s]).Fits rank := ⟨by simp, by simp [deep, commonSize]⟩
  unfold joinRun
  split
  next t ts rest =>
    split
    next same =>
      refine ⟨by simp [Segment.statements], fun p hp => ?_⟩
      rcases List.mem_cons.mp hp with rfl | hp
      · obtain ⟨-, run⟩ := fits _ (List.mem_cons_self ..)
        refine ⟨by simp, fun x hx => ?_⟩
        rcases List.mem_cons.mp hx with rfl | hx
        · exact ⟨deep, rfl⟩
        · obtain ⟨deepX, sizeX⟩ := run x hx
          refine ⟨deepX, ?_⟩
          simp only [commonSize, List.head?_cons, Option.map_some, Option.getD_some] at sizeX ⊢
          omega
      · exact fits p (by simp [hp])
    next different =>
      refine ⟨by simp [Segment.statements], fun p hp => ?_⟩
      rcases List.mem_cons.mp hp with rfl | hp
      · exact alone
      · exact fits p hp
  next =>
    refine ⟨by simp [Segment.statements], fun p hp => ?_⟩
    rcases List.mem_cons.mp hp with rfl | hp
    · exact alone
    · exact fits p hp

theorem segments_spec (rank : Nat) (ss : List Statement) :
    (segments rank ss).flatMap Segment.statements = ss ∧
      ∀ p ∈ segments rank ss, p.Fits rank := by
  induction ss with
  | nil => simp [segments]
  | cons s ss ih =>
      rw [segments]
      split
      next shallow =>
        refine ⟨by simp [Segment.statements, ih.1], fun p hp => ?_⟩
        rcases List.mem_cons.mp hp with rfl | hp
        · exact shallow
        · exact ih.2 p hp
      next deep =>
        obtain ⟨same, fits⟩ := joinRun_spec (s := s) (by omega) ih.2
        exact ⟨by rw [same, ih.1], fits⟩

/-- A node that was built from statements. -/
structure BuiltFrom (outer : List Int) (ss : List Statement) (n : Node) : Prop where
  layout : n.Layout outer
  statements : n.statements = ss
  frees : ∀ b, ¬ n.Frees b

/-- The body of a loop is built part by part. -/
theorem buildBody_spec {outer : List Int} {rank : Nat} {parts : List Segment}
    (inner : BaseSet → List Statement → Numbering Nest) (depth : outer.length = rank + 1)
    (small : rank < 2 ^ 31)
    (fits : ∀ p ∈ parts, p.Fits rank)
    (fill : ∀ p ∈ parts, ∀ s ∈ p.statements, s.Computes ∧ s.Under outer)
    (built : ∀ ts, Segment.run ts ∈ parts → ∀ n, BuiltFrom outer ts (inner [] ts n).1.toNode)
    (n : Nat) :
    let body := (buildBody rank [] inner parts n).1
    (∀ m ∈ body, m.Layout outer ∧ ∀ b, ¬ m.Frees b) ∧
      Node.bodyStatements body = parts.flatMap Segment.statements := by
  induction parts generalizing n with
  | nil =>
      have none : (buildBody rank [] inner [] n).1 = [] := rfl
      simp [none, Node.bodyStatements]
  | cons p parts ih =>
      have rest := ih (fun q hq => fits q (by simp [hq])) (fun q hq => fill q (by simp [hq]))
        (fun ts hts => built ts (by simp [hts]))
      cases p with
      | single s =>
          obtain ⟨layouts, same⟩ := rest n
          have shallow : s.instr.ndim ≤ rank + 1 := fits _ (List.mem_cons_self ..)
          obtain ⟨computes, under⟩ :=
            fill _ (List.mem_cons_self ..) s (by simp [Segment.statements])
          refine ⟨fun m hm => ?_, ?_⟩
          · rcases List.mem_cons.mp hm with rfl | hm
            · exact ⟨.leaf computes under (by omega) (by rw [rankWord_of_lt small]; omega), by simp⟩
            · exact layouts m hm
          · rw [List.flatMap_cons, ← same]
            rfl
      | run ts =>
          have child := built ts (List.mem_cons_self ..) n
          obtain ⟨layouts, same⟩ := rest (inner [] ts n).2
          have step : (buildBody rank [] inner (.run ts :: parts) n).1 =
              (inner [] ts n).1.toNode :: (buildBody rank [] inner parts (inner [] ts n).2).1 := by
            simp only [buildBody, ite_self]
            rfl
          simp only [step]
          refine ⟨fun m hm => ?_, ?_⟩
          · rcases List.mem_cons.mp hm with rfl | hm
            · exact ⟨child.layout, child.frees⟩
            · exact layouts m hm
          · rw [Node.bodyStatements, child.statements, same]
            rfl

/-- Statements that a loop inside others of the sizes `outer` can be built from. -/
structure Buildable (outer : List Int) (size : Int) (ss : List Statement) : Prop where
  nonneg : 0 ≤ size
  statements : ∀ s ∈ ss, s.Computes ∧ s.Under (outer ++ [size])
  together : ∀ rank, ss.Pairwise (Statement.Together rank)

theorem Buildable.sublist {outer : List Int} {size : Int} {ss ts : List Statement}
    (h : Buildable outer size ss) (sub : ts.Sublist ss) : Buildable outer size ts :=
  ⟨h.nonneg, fun s hs => h.statements s (sub.subset hs), fun r => (h.together r).sublist sub⟩

section Unfolded

variable (levels rank : Nat) (size : Int) (frees : BaseSet) (ss : List Statement) (n : Nat)

theorem buildSized_zero : (buildSized 0 rank size frees ss n).1 =
    refresh ⟨{ id := n, rank := rankWord rank, size, frees },
      ss.map (.leaf · (rankWord rank))⟩ := rfl

theorem buildSized_succ : (buildSized (levels + 1) rank size frees ss n).1 =
    refresh ⟨{ id := n, rank := rankWord rank, size
               frees := if endsInRun (segments rank ss) then [] else frees },
      (buildBody rank frees
        (fun frees ss => buildSized levels (rank + 1) (commonSize (rank + 1) ss) frees ss)
        (segments rank ss) (n + 1)).1⟩ := rfl

end Unfolded

/-- Ranks of loops around statements fit into a word. -/
theorem Buildable.length_lt {outer : List Int} {size : Int} {ss : List Statement}
    (h : Buildable outer size ss) (nonempty : ss ≠ []) : outer.length < 2 ^ 31 := by
  obtain ⟨s, hs⟩ := List.exists_mem_of_ne_nil ss nonempty
  obtain ⟨computes, under⟩ := h.statements s hs
  have few := under.length_le computes
  rw [List.length_append, List.length_singleton, maxAxes] at few
  omega

/-- A statement that goes deeper is also under the next inner loop of its size. -/
theorem under_inner {outer : List Int} {s : Statement} (h : s.Under outer)
    (deep : outer.length < s.instr.ndim) :
    s.Under (outer ++ [s.instr.sizeAt outer.length]) := by
  rcases h with under | ⟨one, empty⟩
  · left
    rw [Instruction.ndim] at deep
    rw [List.length_append, List.length_singleton, List.take_add_one, under, Instruction.sizeAt,
      List.getElem?_eq_getElem deep]
    rfl
  · rw [Instruction.ndim, empty] at deep
    simp at deep

theorem buildable_run {outer : List Int} {size : Int} {ts : List Statement}
    (h : Buildable outer size ts) (fits : (Segment.run ts).Fits outer.length) :
    Buildable (outer ++ [size]) (commonSize (outer.length + 1) ts) ts := by
  obtain ⟨nonempty, run⟩ := fits
  have length : (outer ++ [size]).length = outer.length + 1 := by simp
  have inside : ∀ s ∈ ts, s.Under (outer ++ [size] ++ [commonSize (outer.length + 1) ts]) := by
    intro s hs
    obtain ⟨deep, same⟩ := run s hs
    rw [← same, ← length]
    exact under_inner (h.statements s hs).2 (by omega)
  obtain ⟨t, ht⟩ := List.exists_mem_of_ne_nil ts nonempty
  refine ⟨?_, fun s hs => ⟨(h.statements s hs).1, inside s hs⟩, h.together⟩
  obtain ⟨deep, same⟩ := run t ht
  rw [← same, Instruction.sizeAt, List.getElem?_eq_getElem (by rwa [Instruction.ndim] at deep)]
  exact Instruction.shape_nonneg (h.statements t ht).1.views _ (List.getElem_mem _)

/-- A loop with a body that is laid out well, and its head recorded anew. -/
theorem builtFrom_refresh {outer : List Int} {ss : List Statement} {head : LoopHead}
    {body : List Node} (rank : head.rank = outer.length) (size : 0 ≤ head.size)
    (together : ss.Pairwise (Statement.Together head.rank)) (noFrees : head.frees = [])
    (nodes : ∀ m ∈ body, m.Layout (outer ++ [head.size]) ∧ ∀ b, ¬ m.Frees b)
    (same : Node.bodyStatements body = ss) : BuiltFrom outer ss (refresh ⟨head, body⟩).toNode := by
  refine ⟨.loop rank size ⟨rfl, rfl⟩ ?_ fun m hm => (nodes m hm).1, same, fun b => ?_⟩
  · exact same ▸ together
  · rw [toNode, Node.frees_loop, not_or]
    refine ⟨by simp [refresh, describe, noFrees], ?_⟩
    rintro ⟨m, hm, hb⟩
    exact (nodes m hm).2 b hb

theorem buildSized_spec {levels : Nat} {outer : List Int} {size : Int} {ss : List Statement}
    (h : Buildable outer size ss) (small : outer.length < 2 ^ 31)
    (depth : ∀ s ∈ ss, s.instr.ndim ≤ levels + outer.length + 1) (n : Nat) :
    let l := (buildSized levels outer.length size [] ss n).1
    BuiltFrom outer ss l.toNode ∧ l.head.rank = outer.length ∧ l.head.size = size := by
  have rank := rankWord_of_lt small
  induction levels generalizing outer size ss n with
  | zero =>
      rw [buildSized_zero, rank]
      refine ⟨builtFrom_refresh rfl h.nonneg (h.together _) rfl ?_ ?_, rfl, rfl⟩
      · intro m hm
        obtain ⟨s, hs, rfl⟩ := List.mem_map.mp hm
        have shallow := depth s hs
        obtain ⟨computes, under⟩ := h.statements s hs
        exact ⟨.leaf computes under (by simp; omega) (by simp), by simp⟩
      · simp [Node.bodyStatements_eq_flatMap, List.flatMap_map, Node.statements]
  | succ levels ih =>
      obtain ⟨same, fits⟩ := segments_spec outer.length ss
      have part : ∀ p ∈ segments outer.length ss, p.statements.Sublist ss := by
        intro p hp
        have := List.sublist_flatten_of_mem (List.mem_map_of_mem (f := Segment.statements) hp)
        rwa [← List.flatMap_def, same] at this
      have inner : ∀ ts, Segment.run ts ∈ segments outer.length ss → ∀ k,
          BuiltFrom (outer ++ [size]) ts (buildSized levels (outer.length + 1)
            (commonSize (outer.length + 1) ts) [] ts k).1.toNode := by
        intro ts hts k
        have sub : ts.Sublist ss := part _ hts
        have shallower : ∀ s ∈ ts, s.instr.ndim ≤ levels + (outer ++ [size]).length + 1 := by
          intro s hs
          have := depth s (sub.subset hs)
          simp only [List.length_append, List.length_singleton]
          omega
        have buildable := buildable_run (h.sublist sub) (fits _ hts)
        have deeper := buildable.length_lt (fits _ hts).1
        simpa using (ih buildable deeper shallower k (rankWord_of_lt deeper)).1
      obtain ⟨nodes, statements⟩ := buildBody_spec
        (fun frees ts =>
          buildSized levels (outer.length + 1) (commonSize (outer.length + 1) ts) frees ts)
        (List.length_append ..) small fits
        (fun p hp s hs => h.statements s ((part p hp).subset hs)) inner (n + 1)
      rw [buildSized_succ, rank]
      refine ⟨builtFrom_refresh rfl h.nonneg (h.together _) ?_ nodes (statements.trans same), rfl,
        rfl⟩
      simp

theorem ndim_le_depth {ss : List Statement} {s : Statement} (hs : s ∈ ss) :
    s.instr.ndim ≤ depth ss := by
  induction ss with
  | nil => simp at hs
  | cons t ss ih =>
      rcases List.mem_cons.mp hs with rfl | hs
      · simp [depth]
      · have := ih hs
        simp only [depth, List.map_cons, List.foldr_cons] at this ⊢
        omega

theorem depth_le {ss : List Statement} {n : Nat} (few : ∀ s ∈ ss, s.instr.ndim ≤ n) :
    depth ss ≤ n := by
  induction ss with
  | nil => exact Nat.zero_le n
  | cons t ss ih =>
      rw [List.forall_mem_cons] at few
      exact Nat.max_le.mpr ⟨few.1, ih few.2⟩

/-- Loops built from statements that compute something are well laid out. -/
theorem ofStatements_spec {outer : List Int} {ss : List Statement}
    (h : Buildable outer (commonSize outer.length ss) ss) (small : outer.length < 2 ^ 31) (n : Nat) :
    let l := (ofStatements outer.length [] ss n).1
    BuiltFrom outer ss l.toNode ∧ l.head.rank = outer.length ∧
      l.head.size = commonSize outer.length ss := by
  have all : ss.filter (!·.instr.opcode.isSystem) = ss := by
    rw [List.filter_eq_self]
    intro s hs
    simp [(h.statements s hs).1.notSystem]
  simp only [ofStatements, ofStatementsSized, all]
  refine buildSized_spec h small (fun s hs => ?_) n
  have := ndim_le_depth hs
  omega

/-- The nest of a single statement. -/
theorem ofStatements_single {s : Statement} (h : s.Computes) (n : Nat) :
    BuiltFrom [] [s] (ofStatements 0 [] [s] n).1.toNode := by
  have size : commonSize 0 [s] = s.instr.sizeAt 0 := rfl
  have buildable : Buildable [] (commonSize 0 [s]) [s] := by
    refine ⟨?_, ?_, fun _ => List.pairwise_singleton ..⟩
    · rw [size, Instruction.sizeAt]
      cases found : s.instr.shape[0]? with
      | none => simp
      | some m => exact Instruction.shape_nonneg h.views m (List.mem_of_getElem? found)
    · intro t ht
      rw [List.mem_singleton] at ht
      subst ht
      refine ⟨h, ?_⟩
      rw [size, Instruction.sizeAt]
      cases shape : t.instr.shape with
      | nil => exact .inr ⟨rfl, shape⟩
      | cons m shape' => exact .inl (by simp [shape])
  exact (ofStatements_spec buildable (Nat.two_pow_pos 31) n).1

end ArrayFusion.Nest
