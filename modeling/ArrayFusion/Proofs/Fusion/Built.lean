import ArrayFusion.Fusion.Passes
import ArrayFusion.Proofs.Fusion.Merge

/-!
# Loops that fusion builds

Fusion starts from the loops of single statements and from loops that only free a base. It attaches
frees to loops, and it merges loops that pass the test. All these loops are well laid out, so a test
that says yes is all that merging needs.
-/

namespace ArrayFusion

/-! ## Attached frees -/

namespace Node

/-- A free goes into the last node of a body that mentions the base, if this node is a loop. -/
theorem attachFreeBody_eq_some {b : BaseId} {body body' : List Node}
    (h : attachFreeBody b body = some body') : ∃ pre n post, body = pre ++ n :: post ∧
      body' = pre ++ n.attachFree b :: post ∧ n.isLoop = true := by
  induction body generalizing body' with
  | nil => simp [attachFreeBody] at h
  | cons n body ih =>
      rw [attachFreeBody] at h
      split at h
      next rest found =>
        obtain ⟨pre, m, post, rfl, rfl, hm⟩ := ih found
        cases h
        exact ⟨n :: pre, m, post, rfl, rfl, hm⟩
      next none =>
        split at h
        · contradiction
        · split at h
          next last =>
            cases h
            rw [Bool.and_eq_true] at last
            exact ⟨[], n, body, rfl, rfl, last.1⟩
          · contradiction

/-- What one more free changes about a loop. -/
structure FreesMore (outer : List Int) (b : BaseId) (n n' : Node) : Prop where
  layout : n'.Layout outer
  statements : n'.statements = n.statements
  frees : ∀ c, n'.Frees c ↔ c = b ∨ n.Frees c

theorem attachFree_spec {outer : List Int} {n : Node} (b : BaseId) (h : n.Layout outer)
    (isLoop : n.isLoop = true) : FreesMore outer b n (n.attachFree b) := by
  induction h with
  | leaf computes under depth innermost => contradiction
  | @loop outer head body rank nonneg records together nodes ih =>
      rw [attachFree]
      split
      next body' found =>
        obtain ⟨pre, n, post, rfl, rfl, hn⟩ := attachFreeBody_eq_some found
        have inner := ih n (by simp) hn
        have same : bodyStatements (pre ++ n.attachFree b :: post) =
            bodyStatements (pre ++ n :: post) := by
          simp only [bodyStatements_append, bodyStatements, inner.statements]
        refine ⟨.loop rank nonneg (same ▸ records) (same ▸ together) fun m hm => ?_, same,
          fun c => ?_⟩
        · simp only [List.mem_append, List.mem_cons] at hm
          rcases hm with hm | rfl | hm
          · exact nodes m (by simp [hm])
          · exact inner.layout
          · exact nodes m (by simp [hm])
        · simp only [frees_loop, List.mem_append, List.mem_cons, or_and_right, exists_or,
            exists_eq_left, inner.frees]
          grind
      next =>
        refine ⟨.loop rank nonneg ⟨records.sweeps, records.news⟩ together nodes, rfl, fun c => ?_⟩
        simp only [frees_loop, BaseSet.mem_insert, or_assoc]

end Node

namespace Nest

theorem toNode_attachFree (l : Nest) (b : BaseId) :
    (l.attachFree b).toNode = l.toNode.attachFree b := by
  rw [attachFree, toNode, toNode, Node.attachFree]
  cases Node.attachFreeBody b l.body <;> rfl

theorem layout_attachFree {outer : List Int} {l : Nest} (h : l.toNode.Layout outer) (b : BaseId) :
    Node.FreesMore outer b l.toNode (l.attachFree b).toNode := by
  rw [toNode_attachFree]
  exact Node.attachFree_spec b h rfl

/-! ## Bases that a loop creates and mentions -/

/-- The statement creates the base that it writes to. -/
def Creates (b : BaseId) (s : Statement) : Prop :=
  s.instr.creates = true ∧ s.instr.outputBase? = some b

/-- The heads of all loops of the node list the bases that are created in them. -/
def RecordsNews (n : Node) : Prop :=
  ∀ l ∈ n.nests, ∀ b, b ∈ l.head.news ↔ ∃ s ∈ l.statements, Creates b s

theorem mem_news_of_records {l : Nest} (records : l.head.Records l.statements) (b : BaseId) :
    b ∈ l.head.news ↔ ∃ s ∈ l.statements, Creates b s := by
  simp [records.news, Creates, and_assoc]

theorem recordsNews_loop {head : LoopHead} {body : List Node}
    (own : ∀ b, b ∈ head.news ↔ ∃ s ∈ Node.bodyStatements body, Creates b s)
    (nodes : ∀ n ∈ body, RecordsNews n) : RecordsNews (.loop head body) := by
  intro l hl
  obtain rfl | ⟨n, hn, hl⟩ := Node.mem_nests_loop.mp hl
  · exact own
  · exact nodes n hn l hl

theorem recordsNews_of_layout {outer : List Int} {n : Node} (h : n.Layout outer) :
    RecordsNews n := by
  induction h with
  | leaf computes under depth innermost => simp [RecordsNews, Node.nests]
  | @loop outer head body rank nonneg records together nodes ih =>
      exact recordsNews_loop (mem_news_of_records (l := ⟨head, body⟩) records) ih

/-- A loop creates the bases that its statements create. -/
theorem mem_allNews_of_recordsNews {l : Nest} (h : RecordsNews l.toNode) {b : BaseId} :
    b ∈ l.allNews ↔ ∃ s ∈ l.statements, Creates b s := by
  rw [RecordsNews, nests_toNode] at h
  rw [allNews, BaseSet.mem_unions]
  simp only [List.mem_map, exists_exists_and_eq_and]
  constructor
  · rintro ⟨m, hm, hb⟩
    obtain ⟨s, hs, created⟩ := (h m hm b).mp hb
    rw [← nests_toNode] at hm
    have inside := (Node.statements_sublist_of_mem_nests _ m hm).subset hs
    exact ⟨s, by simpa using inside, created⟩
  · intro created
    exact ⟨l, List.mem_cons_self .., (h l (List.mem_cons_self ..) b).mpr created⟩

theorem mem_allNews_iff {outer : List Int} {l : Nest} (h : l.toNode.Layout outer) {b : BaseId} :
    b ∈ l.allNews ↔ ∃ s ∈ l.statements, s.instr.creates = true ∧ s.instr.outputBase? = some b :=
  mem_allNews_of_recordsNews (recordsNews_of_layout h)

/-- Some statement of the loop mentions the base. -/
def Accesses (l : Nest) (b : BaseId) : Prop := ∃ s ∈ l.statements, s.instr.mentions b = true

theorem mem_allBases_iff {l : Nest} {b : BaseId} :
    b ∈ l.allBases ↔ b ∈ l.allFrees ∨ l.Accesses b := by
  rw [allBases, BaseSet.mem_unions]
  simp [Accesses, instrs, Instruction.mentions]

theorem ofStatements_layout {s : Statement} (views : s.instr.WellFormed) (n : Nat) :
    (ofStatements 0 [] [s] n).1.toNode.Layout [] := by
  by_cases system : s.instr.opcode.isSystem = true
  · have none : [s].filter (!·.instr.opcode.isSystem) = [] := by simp [system]
    rw [ofStatements, ofStatementsSized, none]
    have buildable : Buildable [] (commonSize 0 []) [] :=
      ⟨by simp [commonSize], by simp, fun _ => .nil⟩
    exact (buildSized_spec buildable (Nat.two_pow_pos 31) (by simp) n).1.layout
  · exact (ofStatements_single ⟨by simpa using system, views⟩ n).layout

end Nest

/-! ## Loops of fusion -/

namespace Fusion

/-- Loops that fusion can build from instructions on views that can be built. -/
inductive Built : Nest → Prop
  | single {s : Statement} (views : s.instr.WellFormed) (n : Nat) :
      Built (Nest.ofStatements 0 [] [s] n).1
  | holder (id : Nat) (b : BaseId) : Built ⟨{ id, rank := 0, size := 1, frees := [b] }, []⟩
  | attachFree {l : Nest} (built : Built l) (b : BaseId) : Built (l.attachFree b)
  | merge {a b l : Nest} {separate : Bool} {n m : Nat} (builtA : Built a) (builtB : Built b)
      (test : a.mergeable b separate = .ok true) (merged : a.merge b n = .ok (l, m)) : Built l

end Fusion

namespace Nest

/-- Loops that pass the test with one setting pass it without keeping folds and scans apart. -/
theorem mergeable_of_separate {a b : Nest} {separate : Bool}
    (h : a.mergeable b separate = .ok true) : a.mergeable b false = .ok true := by
  by_cases systemOnly : (a.isSystemOnly || b.isSystemOnly) = true
  · rw [mergeable, if_pos systemOnly]
  · rw [Bool.or_eq_true, not_or, Bool.not_eq_true, Bool.not_eq_true] at systemOnly
    obtain ⟨rank, -, others⟩ := (mergeable_eq_ok_true systemOnly.1 systemOnly.2).mp h
    exact (mergeable_eq_ok_true systemOnly.1 systemOnly.2).mpr ⟨rank, rfl, others⟩

theorem merge_spec {outer : List Int} {a b : Nest} {separate : Bool} (ha : a.toNode.Layout outer)
    (hb : b.toNode.Layout outer) (test : a.mergeable b separate = .ok true) (n : Nat) :
    ∃ l m, a.merge b n = .ok (l, m) ∧ JoinedFrom outer [a.toNode, b.toNode] [l.toNode] :=
  mergeLevels_spec _ outer a b ha hb (mergeable_of_separate test) n

theorem joined_of_merge {outer : List Int} {a b l : Nest} {separate : Bool} {n m : Nat}
    (ha : a.toNode.Layout outer) (hb : b.toNode.Layout outer)
    (test : a.mergeable b separate = .ok true) (merged : a.merge b n = .ok (l, m)) :
    JoinedFrom outer [a.toNode, b.toNode] [l.toNode] := by
  obtain ⟨l', m', found, joined⟩ := merge_spec ha hb test n
  rw [merged] at found
  cases found
  exact joined

theorem layout_of_built {l : Nest} (h : Fusion.Built l) : l.toNode.Layout [] := by
  induction h with
  | single views n => exact ofStatements_layout views n
  | holder id b => exact .loop rfl (by simp) ⟨rfl, rfl⟩ .nil (by simp)
  | attachFree built b ih => exact (layout_attachFree ih b).layout
  | merge builtA builtB test merged ihA ihB =>
      exact (joined_of_merge ihA ihB test merged).layouts _ (by simp)

theorem addresses_of_reshapesTo {s t : Statement} (computes : s.Computes) (h : s.ReshapesTo t) :
    t.instr.operands.map (·.addresses) = s.instr.operands.map (·.addresses) :=
  map_eq_of_forall₂ (h.instr.similar computes.views).operands fun _ _ same => same.addresses

/-- The merged loop carries out the statements of both loops, those of the first one first. -/
theorem JoinedFrom.keeps {outer : List Int} {a b l : Nest} (ha : a.toNode.Layout outer)
    (hb : b.toNode.Layout outer) (joined : JoinedFrom outer [a.toNode, b.toNode] [l.toNode]) :
    List.Forall₂ (fun s t => s.Computes ∧ s.ReshapesTo t) (a.statements ++ b.statements)
      l.statements := by
  have related : List.Forall₂ Statement.ReshapesTo (a.statements ++ b.statements) l.statements := by
    simpa [Node.bodyStatements] using joined.statements
  exact (List.forall₂_and_left _ _).mpr ⟨computes_append ha hb, related⟩

theorem JoinedFrom.mem_allFrees_iff {outer : List Int} {a b l : Nest}
    (joined : JoinedFrom outer [a.toNode, b.toNode] [l.toNode]) (c : BaseId) :
    c ∈ l.allFrees ↔ c ∈ a.allFrees ∨ c ∈ b.allFrees := by
  simpa [Nest.mem_allFrees_iff] using joined.frees c

theorem JoinedFrom.accesses_iff {outer : List Int} {a b l : Nest} (ha : a.toNode.Layout outer)
    (hb : b.toNode.Layout outer) (joined : JoinedFrom outer [a.toNode, b.toNode] [l.toNode])
    (c : BaseId) : l.Accesses c ↔ a.Accesses c ∨ b.Accesses c := by
  have mentioned : ∀ ss : List Statement,
      (∃ s ∈ ss, s.instr.mentions c = true) ↔ true ∈ ss.map (·.instr.mentions c) := by
    simp
  have same : l.statements.map (·.instr.mentions c) =
      (a.statements ++ b.statements).map (·.instr.mentions c) :=
    map_eq_of_forall₂ (joined.keeps ha hb) fun s t h =>
      (h.2.instr.similar h.1.views).indistinct.mentions c
  simp only [Accesses, mentioned, same, List.map_append, List.mem_append]

theorem JoinedFrom.mem_allBases_iff {outer : List Int} {a b l : Nest} (ha : a.toNode.Layout outer)
    (hb : b.toNode.Layout outer) (joined : JoinedFrom outer [a.toNode, b.toNode] [l.toNode])
    (c : BaseId) : c ∈ l.allBases ↔ c ∈ a.allBases ∨ c ∈ b.allBases := by
  simp only [Nest.mem_allBases_iff, joined.mem_allFrees_iff, joined.accesses_iff ha hb]
  exact or_or_or_comm

end Nest

end ArrayFusion
