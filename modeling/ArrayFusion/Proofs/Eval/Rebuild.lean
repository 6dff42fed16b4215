import ArrayFusion.Proofs.Eval.Sequential
import ArrayFusion.Proofs.Nest.Build

/-!
# Nests built again from their statements

Building a nest gives one loop to neighbouring statements that go deeper with the same size. Built
again from its statements, a nest keeps its loops if no two neighbouring loops in it have one size;
only loops without statements get lost. Then the new nest acts like the old one.
-/

namespace ArrayFusion

open Nest (Segment segments commonSize buildBody buildSized BuiltFrom)

namespace Node

/-- Nodes that stay apart when a nest is built from their statements. -/
def Apart : Node → Node → Prop
  | loop head _, loop head' _ => head.size ≠ head'.size
  | _, _ => True

instance : DecidableRel Apart
  | loop .., loop .. => inferInstanceAs (Decidable (_ ≠ _))
  | leaf .., _ => .isTrue trivial
  | loop .., leaf .. => .isTrue trivial

/-- The nodes of a body that hold statements. -/
def occupied (body : List Node) : List Node := body.filter (!·.statements.isEmpty)

/-- No two neighbouring loops inside the node have one size. -/
def Spaced (n : Node) : Prop := ∀ l ∈ n.nests, (occupied l.body).IsChain Apart

instance (n : Node) : Decidable n.Spaced :=
  inferInstanceAs (Decidable (∀ l ∈ n.nests, (occupied l.body).IsChain Apart))

theorem spaced_leaf {s : Statement} {rank : Int} : Spaced (leaf s rank) := by
  simp [Spaced, nests]

theorem Spaced.body {head : LoopHead} {body : List Node} (h : Spaced (loop head body)) :
    (occupied body).IsChain Apart ∧ ∀ n ∈ body, n.Spaced := by
  refine ⟨h ⟨head, body⟩ (by simp [nests]), fun n hn l hl => h l ?_⟩
  rw [nests, bodyNests_eq_flatMap]
  exact List.mem_cons_of_mem _ (List.mem_flatMap.mpr ⟨n, hn, hl⟩)

/-! ## Segments of a body -/

/-- The statements of a node as a segment of those of the loop around it. -/
def segment : Node → Segment
  | loop _ body => .run (bodyStatements body)
  | leaf s _ => .single s

theorem bodyStatements_occupied (body : List Node) :
    bodyStatements (occupied body) = bodyStatements body := by
  induction body with
  | nil => rfl
  | cons n body ih =>
      rw [occupied, List.filter_cons]
      split
      next => rw [bodyStatements, bodyStatements, ← ih, occupied]
      next empty =>
        have none : n.statements = [] := by simpa using empty
        rw [bodyStatements, none, List.nil_append, ← ih, occupied]

/-- Statements of one inner loop make one segment, if no statement of this size follows. -/
theorem segments_append {rank : Nat} {size : Int} {ss ts : List Statement} (nonempty : ss ≠ [])
    (deep : ∀ s ∈ ss, rank + 1 < s.instr.ndim ∧ s.instr.sizeAt (rank + 1) = size)
    (apart : ∀ us parts, segments rank ts = .run us :: parts →
      ∀ u ∈ us, size ≠ u.instr.sizeAt (rank + 1)) :
    segments rank (ss ++ ts) = .run ss :: segments rank ts := by
  induction ss with
  | nil => contradiction
  | cons s ss ih =>
      obtain ⟨⟨inside, same⟩, rest⟩ := List.forall_mem_cons.mp deep
      rw [List.cons_append, segments, if_neg (by omega)]
      cases ss with
      | nil =>
          rw [List.nil_append]
          unfold Nest.joinRun
          split
          next u us parts next =>
            rw [same, if_neg (apart _ _ next u (List.mem_cons_self ..)), next]
          next => rfl
      | cons t ss =>
          rw [ih (List.cons_ne_nil t ss) rest, Nest.joinRun,
            if_pos (same.trans (rest t (List.mem_cons_self ..)).2.symm)]

variable {outer : List Int} {head : LoopHead} {body : List Node}

/-- Statements of a loop inside other ones go deeper than these. -/
theorem Layout.deep (layout : Layout outer (.loop head body)) (inner : outer ≠ []) :
    ∀ s ∈ bodyStatements body,
      outer.length < s.instr.ndim ∧ s.instr.sizeAt outer.length = head.size := by
  intro s hs
  have under := (layout.body s hs).2
  refine ⟨?_, under.sizeAt⟩
  rcases under with under | ⟨one, -⟩
  · have lengths := congrArg List.length under
    rw [List.length_take, List.length_append, List.length_singleton] at lengths
    rw [Instruction.ndim]
    omega
  · cases outer with
    | nil => contradiction
    | cons m outer => simp at one

/-- The statements of a loop inside other ones share its size. -/
theorem Layout.commonSize (layout : Layout outer (.loop head body)) (inner : outer ≠ [])
    (nonempty : bodyStatements body ≠ []) :
    Nest.commonSize outer.length (bodyStatements body) = head.size := by
  obtain ⟨s, ss, same⟩ := List.exists_cons_of_ne_nil nonempty
  have first := (layout.deep inner s (by simp [same])).2
  rw [same]
  exact first

theorem segments_bodyStatements {rank : Nat} (depth : outer.length = rank + 1)
    (layout : ∀ n ∈ body, n.Layout outer) (full : ∀ n ∈ body, n.statements ≠ [])
    (apart : body.IsChain Apart) : segments rank (bodyStatements body) = body.map segment := by
  have inner : outer ≠ [] := by
    intro none
    simp [none] at depth
  induction body with
  | nil => rfl
  | cons n body ih =>
      rw [List.forall_mem_cons] at layout full
      rw [List.isChain_cons] at apart
      have rest := ih layout.2 full.2 apart.2
      rw [bodyStatements, List.map_cons, ← rest]
      cases n with
      | leaf s r =>
          have shallow : s.instr.ndim ≤ rank + 1 := by
            cases layout.1 with
            | leaf computes under depth' innermost => omega
          rw [statements, List.singleton_append, segments, if_pos shallow]
          rfl
      | loop head inside =>
          refine segments_append full.1 (depth ▸ layout.1.deep inner) fun us parts next u hu => ?_
          rw [rest] at next
          obtain ⟨m, body, rfl, run, -⟩ := List.map_eq_cons_iff.mp next
          cases m with
          | leaf s r => cases run
          | loop head' inside' =>
              cases run
              have away := (layout.2 _ (List.mem_cons_self ..)).deep inner u hu
              rw [← depth, away.2]
              exact apart.1 _ rfl

/-! ## The nest built again -/

theorem act_run_of_statements_eq_nil {n : Node} (layout : n.Layout outer)
    (empty : n.statements = []) (ts : Turns) : (n.run ts).act = 1 := by
  induction layout generalizing ts with
  | leaf computes under depth innermost => cases empty
  | @loop outer head body rank size records together nodes ih =>
      have nothing : ∀ us, (runBody us body).act = 1 := by
        intro us
        rw [act_runBody]
        refine List.prod_eq_one fun a ha => ?_
        obtain ⟨n, hn, rfl⟩ := List.mem_map.mp ha
        rw [statements, bodyStatements_eq_flatMap, List.flatMap_eq_nil_iff] at empty
        exact ih n hn (empty n hn) us
      rw [act_run_loop (by omega)]
      refine List.prod_eq_one fun a ha => ?_
      obtain ⟨k, hk, rfl⟩ := List.mem_map.mp ha
      exact nothing _

theorem act_runBody_occupied (layout : ∀ n ∈ body, n.Layout outer) (ts : Turns) :
    (runBody ts (occupied body)).act = (runBody ts body).act := by
  induction body with
  | nil => rfl
  | cons n body ih =>
      rw [List.forall_mem_cons] at layout
      rw [occupied, List.filter_cons]
      split
      next => rw [runBody, runBody, Exec.act_bind, Exec.act_bind, ← ih layout.2, occupied]
      next empty =>
        have none : n.statements = [] := by simpa using empty
        rw [runBody, Exec.act_bind, act_run_of_statements_eq_nil layout.1 none, one_mul,
          ← ih layout.2, occupied]

/-- A body that is built part by part acts like the nodes that the parts come from. -/
theorem act_runBody_buildBody {rank : Nat} {inner : BaseSet → List Statement → Numbering Nest}
    {ts : Turns} (loops : ∀ head inside, loop head inside ∈ body → ∀ k,
      ((inner [] (bodyStatements inside) k).1.toNode.run ts).act = ((loop head inside).run ts).act)
    (k : Nat) :
    (runBody ts (buildBody rank [] inner (body.map segment) k).1).act = (runBody ts body).act := by
  induction body generalizing k with
  | nil => rfl
  | cons n body ih =>
      have rest := ih fun head inside h => loops head inside (List.mem_cons_of_mem n h)
      cases n with
      | leaf s r =>
          have built : (buildBody rank [] inner ((leaf s r :: body).map segment) k).1 =
              leaf s (Nest.rankWord rank) ::
                (buildBody rank [] inner (body.map segment) k).1 := rfl
          rw [built, runBody, runBody, Exec.act_bind, Exec.act_bind, rest, act_run_leaf,
            act_run_leaf]
      | loop head inside =>
          have built : (buildBody rank [] inner ((loop head inside :: body).map segment) k).1 =
              (inner [] (bodyStatements inside) k).1.toNode ::
                (buildBody rank [] inner (body.map segment)
                  (inner [] (bodyStatements inside) k).2).1 := by
            simp only [List.map_cons, segment, buildBody, ite_self]
            rfl
          rw [built, runBody, runBody, Exec.act_bind, Exec.act_bind, rest,
            loops head inside (List.mem_cons_self ..)]

/-- A nest built from the statements of the node, which acts like the node. -/
structure Rebuilds (outer : List Int) (n m : Node) : Prop
    extends BuiltFrom outer n.statements m where
  act : ∀ ts, (m.run ts).act = (n.run ts).act

/-- Loops of one rank and size act alike if their bodies have the same statements and act alike. -/
theorem act_run_refresh {head' : LoopHead} {body' : List Node}
    (layout : Layout outer (loop head body)) (rank : head'.rank = outer.length)
    (size : head'.size = head.size) (same : bodyStatements body' = bodyStatements body)
    (bodies : ∀ ts, (runBody ts body').act = (runBody ts body).act) (ts : Turns) :
    ((Nest.refresh ⟨head', body'⟩).toNode.run ts).act = ((loop head body).run ts).act := by
  cases layout with
  | loop rank' nonneg records together nodes =>
      have sweeps : (Nest.describe head' body').sweeps = head.sweeps := by
        rw [records.sweeps, Nest.describe, same, rank, rank']
      have turns : ∀ k, turn (Nest.describe head' body') k = turn head k := by
        intro k
        rw [turn, turn, sweeps]
      have same : (Nest.refresh ⟨head', body'⟩).toNode =
          loop (Nest.describe head' body') body' := rfl
      rw [same, act_run_loop (by simp [Nest.describe]; omega), act_run_loop (by omega)]
      simp only [turns, bodies]
      rw [← size]
      rfl

/-- A nest without statements in inner loops, built again. -/
theorem rebuilds_of_shallow (layout : Layout outer (loop head body))
    (shallow : ∀ s ∈ bodyStatements body, s.instr.ndim ≤ outer.length + 1) (id : Nat) :
    Rebuilds outer (loop head body)
      (Nest.refresh ⟨{ id, rank := outer.length, size := head.size },
        (bodyStatements body).map (leaf · outer.length)⟩).toNode := by
  have within := layout.body
  have same : bodyStatements ((bodyStatements body).map (leaf · outer.length)) =
      bodyStatements body := by
    simp [bodyStatements_eq_flatMap, List.flatMap_map, statements]
  have direct : ∀ (s : Statement) (r : Int) ts,
      ((leaf s r).run ts).act = ((leaf s r).statements.map (·.instr.act ts)).prod := by
    intro s r ts
    rw [act_run_leaf, statements, List.map_singleton, List.prod_singleton]
  refine ⟨?_, act_run_refresh layout rfl rfl same fun ts => ?_⟩
  · cases layout with
    | loop rank nonneg records together nodes =>
        refine Nest.builtFrom_refresh rfl nonneg (rank ▸ together) rfl (fun m hm => ?_) same
        obtain ⟨s, hs, rfl⟩ := List.mem_map.mp hm
        obtain ⟨computes, under⟩ := within s hs
        have few := shallow s hs
        exact ⟨.leaf computes under (by simpa using few) (by simp), by simp⟩
  · have nodes : ∀ n ∈ body, (n.run ts).act = (n.statements.map (·.instr.act ts)).prod := by
      intro n hn
      cases n with
      | leaf s r => exact direct s r ts
      | loop head' inside =>
          have layout' := layout.nodes _ hn
          have empty : bodyStatements inside = [] := by
            refine List.eq_nil_iff_forall_not_mem.mpr fun s hs => ?_
            have deep := (layout'.deep (by simp) s hs).1
            have few := shallow s (statements_sublist hn |>.subset hs)
            rw [List.length_append, List.length_singleton] at deep
            omega
          rw [act_run_of_statements_eq_nil layout' empty, statements, empty]
          rfl
    rw [act_runBody_of_nodes nodes, act_runBody_of_nodes fun m hm => ?_, same]
    obtain ⟨s, hs, rfl⟩ := List.mem_map.mp hm
    exact direct s _ ts

/-- A nest is built again if its inner loops are. -/
theorem rebuilds_of_inner (layout : Layout outer (loop head body)) (small : outer.length < 2 ^ 31)
    (apart : (occupied body).IsChain Apart)
    {inner : BaseSet → List Statement → Numbering Nest}
    (rebuilt : ∀ head' inside, loop head' inside ∈ occupied body → ∀ k,
      Rebuilds (outer ++ [head.size]) (loop head' inside)
        (inner [] (bodyStatements inside) k).1.toNode) (id : Nat) (k : Nat) :
    Rebuilds outer (loop head body)
      (Nest.refresh ⟨{ id, rank := outer.length, size := head.size },
        (buildBody outer.length [] inner
          (segments outer.length (bodyStatements body)) k).1⟩).toNode := by
  have length : (outer ++ [head.size]).length = outer.length + 1 := List.length_append
  have within := layout.body
  have some : ∀ n ∈ occupied body, n ∈ body ∧ n.statements ≠ [] := by
    intro n hn
    simpa [occupied] using hn
  have parts : segments outer.length (bodyStatements body) = (occupied body).map segment := by
    rw [← bodyStatements_occupied]
    exact segments_bodyStatements length (fun n hn => layout.nodes n (some n hn).1)
      (fun n hn => (some n hn).2) apart
  obtain ⟨whole, fits⟩ := Nest.segments_spec outer.length (bodyStatements body)
  have built := Nest.buildBody_spec inner length small fits
    (fun p hp s hs => within s (whole ▸ List.mem_flatMap.mpr ⟨p, hp, hs⟩))
    (fun ss hss k => by
      rw [parts] at hss
      obtain ⟨n, hn, run⟩ := List.mem_map.mp hss
      cases n with
      | leaf s r => cases run
      | loop head' inside =>
          cases run
          exact (rebuilt head' inside hn k).toBuiltFrom) k
  have same := built.2.trans whole
  refine ⟨?_, act_run_refresh layout rfl rfl same fun ts => ?_⟩
  · cases layout with
    | loop rank nonneg records together nodes =>
        exact Nest.builtFrom_refresh rfl nonneg (rank ▸ together) rfl built.1 same
  · rw [parts, act_runBody_buildBody fun head' inside h k => (rebuilt head' inside h k).act ts,
      act_runBody_occupied layout.nodes]

/-- Building the nest again keeps its loops. The induction is on the levels that are built. -/
theorem rebuilds_buildSized {levels : Nat} (layout : Layout outer (loop head body))
    (small : outer.length < 2 ^ 31) (spaced : Spaced (loop head body))
    (depth : ∀ s ∈ bodyStatements body, s.instr.ndim ≤ levels + outer.length + 1) (k : Nat) :
    Rebuilds outer (loop head body)
      (buildSized levels outer.length head.size [] (bodyStatements body) k).1.toNode := by
  have rank := Nest.rankWord_of_lt small
  induction levels generalizing outer head body k with
  | zero =>
      rw [Nest.buildSized_zero, rank]
      exact rebuilds_of_shallow layout (by simpa using depth) k
  | succ levels ih =>
      rw [Nest.buildSized_succ, rank, ite_self]
      refine rebuilds_of_inner layout small spaced.body.1 (fun head' inside h k => ?_) k (k + 1)
      obtain ⟨member, nonempty⟩ : loop head' inside ∈ body ∧ bodyStatements inside ≠ [] := by
        simpa [occupied, statements] using h
      have inner := layout.nodes _ member
      have length : (outer ++ [head.size]).length = outer.length + 1 := List.length_append
      have deeper : (outer ++ [head.size]).length < 2 ^ 31 := by
        obtain ⟨s, hs⟩ := List.exists_mem_of_ne_nil _ nonempty
        obtain ⟨computes, under⟩ := inner.body s hs
        have few := under.length_le computes
        rw [List.length_append, List.length_singleton, maxAxes] at few
        omega
      have again := ih inner deeper (spaced.body.2 _ member) (fun s hs => ?_) k
        (Nest.rankWord_of_lt deeper)
      · rwa [← length, inner.commonSize (by simp) nonempty]
      · have := depth s (statements_sublist member |>.subset hs)
        omega

end Node

end ArrayFusion
