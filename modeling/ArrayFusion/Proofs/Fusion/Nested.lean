import ArrayFusion.Proofs.Fusion.Numbering
import ArrayFusion.Proofs.Fusion.Separation

/-!
# Nests built from lists of statements

Building a nest stops at a number of levels that is known beforehand. No list needs more of them, so
that a loop is put together from its segments, and each run of statements that go deeper from its
own segments again. An induction along these segments gives what is known of a built nest: it holds
the statements in their order, it is valid, and the bases to be freed go to one of its loops, which
is the one around the last statement.
-/

namespace ArrayFusion.Nest

variable {rank : Nat} {size : Int} {frees : BaseSet} {ss us : List Statement} {parts : List Segment}
  {inner inner' : BaseSet → List Statement → Numbering Nest}

/-! ## One level of a nest -/

/-- The statements that compute something. -/
def computing (ss : List Statement) : List Statement := ss.filter (!·.instr.opcode.isSystem)

/-- Loop that is put together from its segments. -/
def assemble (inner : BaseSet → List Statement → Numbering Nest) (rank : Nat) (size : Int)
    (frees : BaseSet) (parts : List Segment) : Numbering Nest := do
  let id ← Numbering.next
  let body ← buildBody rank frees inner parts
  let frees := if endsInRun parts then [] else frees
  pure (refresh ⟨{ id, rank := rankWord rank, size, frees }, body⟩)

/-- The loop and its body after the number of the loop is handed out. -/
theorem assemble_eq (n : Nat) : (assemble inner rank size frees parts n).1 =
    refresh ⟨{ id := n, rank := rankWord rank, size
               frees := if endsInRun parts then [] else frees },
      (buildBody rank frees inner parts (n + 1)).1⟩ := rfl

theorem buildBody_congr (same : ∀ frees us, .run us ∈ parts → inner frees us = inner' frees us) :
    buildBody rank frees inner parts = buildBody rank frees inner' parts := by
  induction parts with
  | nil => rfl
  | cons p parts ih =>
      have rest := ih fun frees us hus => same frees us (List.mem_cons_of_mem p hus)
      cases p with
      | single s => rw [buildBody, buildBody, rest]
      | run us => rw [buildBody, buildBody, rest, same _ us List.mem_cons_self]

theorem assemble_congr (same : ∀ frees us, .run us ∈ parts → inner frees us = inner' frees us) :
    assemble inner rank size frees parts = assemble inner' rank size frees parts := by
  rw [assemble, assemble, buildBody_congr same]

/-! ## Levels -/

/-- Statements that do not go deeper stand in the loop itself. -/
theorem segments_of_shallow (shallow : ∀ s ∈ ss, s.instr.ndim ≤ rank + 1) :
    segments rank ss = ss.map .single := by
  induction ss with
  | nil => rfl
  | cons s ss ih =>
      rw [List.forall_mem_cons] at shallow
      rw [segments, if_pos shallow.1, ih shallow.2, List.map_cons]

theorem mem_of_run (hus : .run us ∈ segments rank ss) : us ⊆ ss := by
  intro s hs
  rw [← (segments_spec rank ss).1]
  exact List.mem_flatMap.mpr ⟨_, hus, hs⟩

/-- Without levels to go, a loop holds its statements itself. -/
theorem buildSized_eq_assemble (shallow : ∀ s ∈ ss, s.instr.ndim ≤ rank + 1)
    (inner : BaseSet → List Statement → Numbering Nest) :
    buildSized 0 rank size frees ss = assemble inner rank size frees (segments rank ss) := by
  have direct : ∀ ss : List Statement, buildBody rank frees inner (ss.map .single) =
      pure (ss.map (.leaf · (rankWord rank))) := by
    intro ss
    induction ss with
    | nil => rfl
    | cons s ss ih => rw [List.map_cons, buildBody, ih, pure_bind, List.map_cons]
  have ends : endsInRun (ss.map .single) = false := by
    induction ss with
    | nil => rfl
    | cons s ss ih =>
        cases ss with
        | nil => rfl
        | cons t ss => exact ih fun s hs => shallow s (List.mem_cons_of_mem _ hs)
  rw [segments_of_shallow shallow, assemble, direct, ends]
  rfl

/-- What is known of a loop if it is known of the loops of its runs is known of every loop that is
built with enough levels. The induction is on the levels. -/
theorem buildSized_induction
    {P : Nat → Int → BaseSet → List Statement → Numbering Nest → Prop}
    (step : ∀ rank size frees ss inner,
      (∀ frees us, .run us ∈ segments rank ss →
        P (rank + 1) (commonSize (rank + 1) us) frees us (inner frees us)) →
      P rank size frees ss (assemble inner rank size frees (segments rank ss)))
    {levels : Nat} (enough : ∀ s ∈ ss, s.instr.ndim ≤ levels + rank + 1) :
    P rank size frees ss (buildSized levels rank size frees ss) := by
  induction levels generalizing rank size frees ss with
  | zero =>
      rw [Nat.zero_add] at enough
      rw [buildSized_eq_assemble enough fun _ _ => pure default]
      refine step rank size frees ss _ fun frees us hus => ?_
      rw [segments_of_shallow enough] at hus
      simp at hus
  | succ levels ih =>
      refine step rank size frees ss _ fun frees us hus => ih fun s hs => ?_
      have := enough s (mem_of_run hus hs)
      omega

/-- More levels than enough change nothing. -/
theorem buildSized_eq {levels levels' : Nat}
    (enough : ∀ s ∈ ss, s.instr.ndim ≤ levels + rank + 1)
    (enough' : ∀ s ∈ ss, s.instr.ndim ≤ levels' + rank + 1) :
    buildSized levels rank size frees ss = buildSized levels' rank size frees ss := by
  refine (buildSized_induction (P := fun rank size frees ss built => ∀ levels,
    (∀ s ∈ ss, s.instr.ndim ≤ levels + rank + 1) →
      buildSized levels rank size frees ss = built) ?_ enough') levels enough
  intro rank size frees ss inner runs levels enough
  cases levels with
  | zero => exact buildSized_eq_assemble (by simpa using enough) inner
  | succ levels =>
      refine assemble_congr fun frees us hus => runs frees us hus levels fun s hs => ?_
      have := enough s (mem_of_run hus hs)
      omega

theorem enough_depth (rank : Nat) : ∀ s ∈ ss, s.instr.ndim ≤ depth ss + rank + 1 := by
  intro s hs
  have := ndim_le_depth hs
  omega

theorem computing_eq_self (all : ∀ s ∈ ss, s.instr.opcode.isSystem = false) :
    computing ss = ss := by
  refine List.filter_eq_self.mpr fun s hs => ?_
  rw [all s hs]
  rfl

theorem notSystem_of_mem_computing {s : Statement} (hs : s ∈ computing ss) :
    s.instr.opcode.isSystem = false := by
  simpa using (List.mem_filter.mp hs).2

/-- A loop is put together from its segments, and the loop of a run from those of the run. -/
theorem ofStatementsSized_eq (rank : Nat) (size : Int) (frees : BaseSet) (ss : List Statement) :
    ofStatementsSized rank size frees ss =
      assemble (ofStatements (rank + 1)) rank size frees (segments rank (computing ss)) := by
  have again : ofStatementsSized rank size frees ss =
      buildSized (depth (computing ss) + 1) rank size frees (computing ss) :=
    buildSized_eq (enough_depth rank) fun s hs => by
      have few : s.instr.ndim ≤ depth (computing ss) := ndim_le_depth hs
      omega
  rw [again]
  refine assemble_congr fun frees us hus => ?_
  have subset := mem_of_run hus
  have all : computing us = us :=
    computing_eq_self fun s hs => notSystem_of_mem_computing (subset hs)
  have inner : ofStatements (rank + 1) frees us =
      buildSized (depth (computing us)) (rank + 1) (commonSize (rank + 1) (computing us)) frees
        (computing us) := rfl
  rw [inner, all]
  refine buildSized_eq (fun s hs => ?_) (enough_depth (rank + 1))
  have deep : s.instr.ndim ≤ depth (computing ss) := ndim_le_depth (subset hs)
  show s.instr.ndim ≤ depth (computing ss) + (rank + 1) + 1
  omega

/-- What is known of a loop if it is known of the loops of its runs is known of every nest. -/
theorem ofStatementsSized_induction
    {P : Nat → Int → BaseSet → List Statement → Numbering Nest → Prop}
    (step : ∀ rank size frees ss inner,
      (∀ frees us, .run us ∈ segments rank ss →
        P (rank + 1) (commonSize (rank + 1) us) frees us (inner frees us)) →
      P rank size frees ss (assemble inner rank size frees (segments rank ss)))
    (rank : Nat) (size : Int) (frees : BaseSet) (ss : List Statement) :
    P rank size frees (computing ss) (ofStatementsSized rank size frees ss) :=
  buildSized_induction step (enough_depth rank)

/-! ## Validity -/

/-- A statement stands in the loop itself if it does not go deeper. -/
theorem mem_segments_single {s : Statement} :
    .single s ∈ segments rank ss ↔ s ∈ ss ∧ s.instr.ndim ≤ rank + 1 := by
  obtain ⟨same, fits⟩ := segments_spec rank ss
  have mem : s ∈ ss ↔ ∃ p ∈ segments rank ss, s ∈ p.statements := by
    rw [← List.mem_flatMap, same]
  constructor
  · intro hp
    exact ⟨mem.mpr ⟨_, hp, List.mem_singleton.mpr rfl⟩, fits _ hp⟩
  · rintro ⟨hs, shallow⟩
    obtain ⟨p, hp, inside⟩ := mem.mp hs
    cases p with
    | single t =>
        obtain rfl : s = t := List.mem_singleton.mp inside
        exact hp
    | run us =>
        have deep := ((fits _ hp).2 s inside).1
        omega

/-- The nodes of a body are its own statements and the loops of its runs, which get the bases to be
freed or none. -/
theorem mem_buildBody (n : Nat) :
    (∀ node ∈ (buildBody rank frees inner parts n).1,
      (∃ s, .single s ∈ parts ∧ node = .leaf s (rankWord rank)) ∨
        ∃ given us k, (given = frees ∨ given = []) ∧ .run us ∈ parts ∧
          node = (inner given us k).1.toNode) ∧
    ∀ s, .single s ∈ parts → .leaf s (rankWord rank) ∈ (buildBody rank frees inner parts n).1 := by
  induction parts generalizing n with
  | nil => exact ⟨List.forall_mem_nil _, fun s hs => absurd hs List.not_mem_nil⟩
  | cons p parts ih =>
      have lift {m : Nat} {node : Node} (hnode : node ∈ (buildBody rank frees inner parts m).1) :
          (∃ s, .single s ∈ p :: parts ∧ node = .leaf s (rankWord rank)) ∨
            ∃ given us k, (given = frees ∨ given = []) ∧ .run us ∈ p :: parts ∧
              node = (inner given us k).1.toNode := by
        rcases (ih m).1 node hnode with ⟨s, hs, same⟩ | ⟨given, us, k, which, hus, same⟩
        · exact .inl ⟨s, List.mem_cons_of_mem p hs, same⟩
        · exact .inr ⟨given, us, k, which, List.mem_cons_of_mem p hus, same⟩
      cases p with
      | single t =>
          refine ⟨List.forall_mem_cons.mpr ⟨.inl ⟨t, List.mem_cons_self, rfl⟩, fun _ => lift⟩, ?_⟩
          intro s hs
          rcases List.mem_cons.mp hs with same | hs
          · cases same
            exact List.mem_cons_self
          · exact List.mem_cons_of_mem _ ((ih n).2 s hs)
      | run us =>
          have which : (if parts.isEmpty then frees else []) = frees ∨
              (if parts.isEmpty then frees else []) = [] := by
            split
            · exact .inl rfl
            · exact .inr rfl
          refine ⟨List.forall_mem_cons.mpr
            ⟨.inr ⟨_, us, n, which, List.mem_cons_self, rfl⟩, fun _ => lift⟩, ?_⟩
          intro s hs
          rcases List.mem_cons.mp hs with same | hs
          · cases same
          · exact List.mem_cons_of_mem _ ((ih _).2 s hs)

/-- A statement fits into a loop of its size. Loops of negative rank are not asked for one. -/
theorem fits_leaf_iff {s : Statement} (computes : s.Computes) (rank size : Int) :
    (Node.leaf s rank).fits rank size = true ↔
      rank < 0 ∨ s.instr.sizeAt rank.toNat = size := by
  have system := computes.notSystem
  have free : s.instr.opcode ≠ .free := by
    intro free
    rw [free] at system
    contradiction
  simp [Node.fits, system, free]

/-- The nodes of a body fit into their loop if its own statements do. -/
theorem fitsBody_buildBody_iff (computes : ∀ s, .single s ∈ parts → s.Computes)
    (loops : ∀ frees us, .run us ∈ parts → ∀ n,
      (inner frees us n).1.toNode.fits (rankWord rank) size = true) (n : Nat) :
    Node.fitsBody (rankWord rank) size (buildBody rank frees inner parts n).1 = true ↔
      rankWord rank < 0 ∨
        ∀ s, .single s ∈ parts → s.instr.sizeAt (rankWord rank).toNat = size := by
  obtain ⟨made, placed⟩ : _ ∧ ∀ s, .single s ∈ parts →
      .leaf s (rankWord rank) ∈ (buildBody rank frees inner parts n).1 := mem_buildBody n
  rw [Node.fitsBody_iff]
  constructor
  · intro fits
    by_cases negative : rankWord rank < 0
    · exact .inl negative
    · refine .inr fun s hs => ?_
      exact ((fits_leaf_iff (computes s hs) _ _).mp (fits _ (placed s hs))).resolve_left negative
  · intro sizes node hnode
    rcases made node hnode with ⟨s, hs, rfl⟩ | ⟨given, us, k, -, hus, rfl⟩
    · refine (fits_leaf_iff (computes s hs) _ _).mpr ?_
      exact sizes.imp_right fun all => all s hs
    · exact loops given us hus k

/-- What the head of a nest says, and when the nest is valid. -/
structure Shaped (rank : Nat) (size : Int) (ss : List Statement) (l : Nest) : Prop where
  word : l.head.rank = rankWord rank
  iterations : l.head.size = size
  valid : l.isValid = true ↔ rankWord rank < 0 ∨
    ∀ s ∈ ss, s.instr.ndim ≤ rank + 1 → s.instr.sizeAt (rankWord rank).toNat = size

/-- The loop of a run has the size of its statements, and fits into the loop around it. -/
theorem fits_of_run (computes : ∀ s ∈ us, s.Computes) (fits : (Segment.run us).Fits rank)
    {l : Nest} (shaped : Shaped (rank + 1) (commonSize (rank + 1) us) us l) :
    l.toNode.fits (rankWord rank) size = true := by
  obtain ⟨nonempty, deeper⟩ := fits
  obtain ⟨t, ht⟩ := List.exists_mem_of_ne_nil us nonempty
  obtain ⟨deep, same⟩ := deeper t ht
  have few := Instruction.ndim_le_maxAxes (computes t ht).views
  rw [maxAxes] at few
  have here : rankWord rank = rank := rankWord_of_lt (by omega)
  have next : rankWord (rank + 1) = (rank + 1 : Nat) := rankWord_of_lt (by omega)
  have nonneg : 0 ≤ commonSize (rank + 1) us := by
    rw [← same, Instruction.sizeAt, List.getElem?_eq_getElem (by rwa [Instruction.ndim] at deep)]
    exact Instruction.shape_nonneg (computes t ht).views _ (List.getElem_mem _)
  have valid : l.isValid = true := by
    refine shaped.valid.mpr (.inr fun s hs _ => ?_)
    rw [next, Int.toNat_natCast]
    exact (deeper s hs).2
  have inside : Node.fitsBody l.head.rank l.head.size l.body = true := valid
  rw [toNode, Node.fits, inside, shaped.word, shaped.iterations, here, next]
  simp [nonneg]

theorem shaped_ofStatementsSized (rank : Nat) (size : Int) (frees : BaseSet) (ss : List Statement)
    (computes : ∀ s ∈ computing ss, s.Computes) (n : Nat) :
    Shaped rank size (computing ss) (ofStatementsSized rank size frees ss n).1 := by
  refine ofStatementsSized_induction (P := fun rank size _ ss built =>
    (∀ s ∈ ss, s.Computes) → ∀ n, Shaped rank size ss (built n).1) ?_ rank size frees ss computes n
  intro rank size frees ss inner runs computes n
  have loops : ∀ frees us, .run us ∈ segments rank ss → ∀ n,
      (inner frees us n).1.toNode.fits (rankWord rank) size = true := by
    intro frees us hus n
    have inside : ∀ s ∈ us, s.Computes := fun s hs => computes s (mem_of_run hus hs)
    exact fits_of_run inside ((segments_spec rank ss).2 _ hus) (runs frees us hus inside n)
  rw [assemble_eq]
  refine ⟨by simp only [refresh, describe], by simp only [refresh, describe], ?_⟩
  rw [isValid_refresh, isValid, fitsBody_buildBody_iff
    (fun s hs => computes s (mem_segments_single.mp hs).1) loops]
  simp only [mem_segments_single, and_imp]

/-! ## Freed bases -/

/-- Of all loops of a nest, one frees the bases, which directly holds the last statement. -/
structure FreesAtEnd (frees : BaseSet) (ss : List Statement) (l m : Nest) : Prop where
  only : ∃ before after, l.toNode.nests = before ++ m :: after ∧
    ∀ other ∈ before ++ after, other.head.frees = []
  frees : m.head.frees = frees
  last : l.lastAccess none = ss.getLast?.map (m.head, ·)
  directly : m.body.getLast? = ss.getLast?.map (.leaf · m.head.rank)
  empty : ss = [] → m = l

theorem FreesAtEnd.none {l m : Nest} (h : FreesAtEnd [] ss l m) :
    ∀ other ∈ l.toNode.nests, other.head.frees = [] := by
  obtain ⟨before, after, all, rest⟩ := h.only
  intro other hother
  rw [all, List.mem_append, List.mem_cons] at hother
  rcases hother with hother | rfl | hother
  · exact rest other (List.mem_append_left _ hother)
  · exact h.frees
  · exact rest other (List.mem_append_right _ hother)

theorem buildBody_single (s : Statement) (n : Nat) :
    buildBody rank frees inner (.single s :: parts) n =
      (.leaf s (rankWord rank) :: (buildBody rank frees inner parts n).1,
        (buildBody rank frees inner parts n).2) := rfl

theorem buildBody_run (us : List Statement) (n : Nat) :
    buildBody rank frees inner (.run us :: parts) n =
      let child := inner (if parts.isEmpty then frees else []) us n
      (child.1.toNode :: (buildBody rank frees inner parts child.2).1,
        (buildBody rank frees inner parts child.2).2) := rfl

/-- The last segment gets the bases to be freed. -/
theorem buildBody_append (p : Segment) (n : Nat) :
    (buildBody rank frees inner (parts ++ [p]) n).1 = (buildBody rank [] inner parts n).1 ++
      (buildBody rank frees inner [p] (buildBody rank [] inner parts n).2).1 := by
  induction parts generalizing n with
  | nil => rfl
  | cons q parts ih =>
      cases q with
      | single s => rw [List.cons_append, buildBody_single, buildBody_single, ih n, List.cons_append]
      | run us =>
          have behind : (parts ++ [p]).isEmpty = false := by simp
          rw [List.cons_append, buildBody_run, buildBody_run, behind, ite_self]
          exact congrArg (_ :: ·) (ih _)

theorem endsInRun_append (p : Segment) : endsInRun (parts ++ [p]) = endsInRun [p] := by
  induction parts with
  | nil => rfl
  | cons q parts ih =>
      rw [← ih]
      cases parts <;> cases q <;> rfl

theorem lastMatchBody_append (p : Statement → Bool) (around : LoopHead) (before : List Node)
    (last : Node) : Node.lastMatchBody p around (before ++ [last]) =
      (last.lastMatch p around).or (Node.lastMatchBody p around before) := by
  induction before with
  | nil => simp [Node.lastMatchBody]
  | cons n before ih =>
      rw [List.cons_append, Node.lastMatchBody, ih, Node.lastMatchBody, Option.or_assoc]

/-- Loops inside a body that gets no bases to be freed free none. -/
theorem none_of_buildBody
    (runs : ∀ us, .run us ∈ parts → ∀ n, ∃ m, FreesAtEnd [] us (inner [] us n).1 m) (n : Nat) :
    ∀ other ∈ Node.bodyNests (buildBody rank [] inner parts n).1, other.head.frees = [] := by
  intro other hother
  rw [Node.bodyNests_eq_flatMap, List.mem_flatMap] at hother
  obtain ⟨node, hnode, inside⟩ := hother
  rcases (mem_buildBody n).1 node hnode with ⟨s, -, rfl⟩ | ⟨given, us, k, which, hus, rfl⟩
  · simp [Node.nests] at inside
  · rw [or_self] at which
    rw [which] at inside
    obtain ⟨m, held⟩ := runs us hus k
    exact held.none other inside

/-- A loop that ends with a statement frees the bases itself. -/
theorem freesAtEnd_leaf {head : LoopHead} {body : List Node} {r : Int}
    (before : ∀ other ∈ Node.bodyNests body, other.head.frees = []) (rank : head.rank = r)
    (given : head.frees = frees) (ss : List Statement) (s : Statement) :
    FreesAtEnd frees (ss ++ [s]) ⟨head, body ++ [.leaf s r]⟩ ⟨head, body ++ [.leaf s r]⟩ where
  only := by
    refine ⟨[], Node.bodyNests body, ?_, before⟩
    rw [nests_toNode, subNests, Node.bodyNests_append]
    simp [Node.bodyNests, Node.nests]
  frees := given
  last := by
    rw [lastAccess, lastMatchBody_append, List.getLast?_concat]
    rfl
  directly := by rw [List.getLast?_concat, List.getLast?_concat, Option.map_some, rank]
  empty h := absurd h (by simp)

/-- A loop that ends with a loop leaves the bases to this one. -/
theorem freesAtEnd_loop {head : LoopHead} {body : List Node} {child m : Nest}
    (before : ∀ other ∈ Node.bodyNests body, other.head.frees = []) (none : head.frees = [])
    (nonempty : us ≠ []) (inside : FreesAtEnd frees us child m) (ss : List Statement) :
    FreesAtEnd frees (ss ++ us) ⟨head, body ++ [child.toNode]⟩ m := by
  obtain ⟨t, ht⟩ : ∃ t, us.getLast? = some t := ⟨_, List.getLast?_eq_some_getLast nonempty⟩
  have last : (ss ++ us).getLast? = us.getLast? := by rw [List.getLast?_append, ht, Option.some_or]
  obtain ⟨first, rest, split, others⟩ := inside.only
  refine ⟨⟨⟨head, body ++ [child.toNode]⟩ :: Node.bodyNests body ++ first, rest, ?_, ?_⟩,
    inside.frees, ?_, last ▸ inside.directly, fun h => absurd h (by simp [nonempty])⟩
  · rw [nests_toNode, subNests, Node.bodyNests_append, Node.bodyNests, split]
    simp [Node.bodyNests]
  · simp only [List.mem_append, List.mem_cons] at others ⊢
    rintro other (((rfl | inBody) | early) | late)
    · exact none
    · exact before other inBody
    · exact others other (.inl early)
    · exact others other (.inr late)
  · have within := inside.last
    rw [lastAccess] at within
    rw [last, ← within, lastAccess, lastMatchBody_append, toNode, Node.lastMatch, within, ht]
    rfl

theorem freesAtEnd_ofStatementsSized (rank : Nat) (size : Int) (frees : BaseSet)
    (ss : List Statement) (n : Nat) :
    ∃ m, FreesAtEnd frees (computing ss) (ofStatementsSized rank size frees ss n).1 m := by
  refine ofStatementsSized_induction (P := fun _ _ frees ss built =>
    ∀ n, ∃ m, FreesAtEnd frees ss (built n).1 m) ?_ rank size frees ss n
  intro rank size frees ss inner runs n
  obtain ⟨same, fits⟩ := segments_spec rank ss
  rw [assemble_eq]
  rcases List.eq_nil_or_concat (segments rank ss) with none | ⟨init, last, split⟩
  · rw [none] at same ⊢
    obtain rfl : [] = ss := same
    exact ⟨_, ⟨[], [], rfl, List.forall_mem_nil _⟩, rfl, rfl, rfl, fun _ => rfl⟩
  rw [List.concat_eq_append] at split
  rw [split] at same fits runs ⊢
  rw [List.flatMap_append, List.flatMap_singleton] at same
  have before : ∀ other ∈ Node.bodyNests (buildBody rank [] inner init (n + 1)).1,
      other.head.frees = [] :=
    none_of_buildBody (fun us hus => runs [] us (List.mem_append_left _ hus)) (n + 1)
  rw [← same, buildBody_append, endsInRun_append]
  cases last with
  | single s =>
      rw [buildBody_single]
      generalize rankWord rank = word
      refine ⟨_, freesAtEnd_leaf before ?_ ?_ _ s⟩
      · rfl
      · rfl
  | run us =>
      have member : Segment.run us ∈ init ++ [.run us] := by simp
      obtain ⟨m, inside⟩ := runs frees us member (buildBody rank [] inner init (n + 1)).2
      exact ⟨m, freesAtEnd_loop before rfl (fits _ member).1 inside _⟩

/-! ## Built nests -/

/-- A nest is put together level by level. It holds the statements that compute something in their
order, its loops have different numbers, and the one that directly holds the last statement frees
the bases. A nest of statements with one size is valid wherever its rank can be recorded; a greater
rank is cut to a word, and unless it becomes negative, the statements need the same size along that
axis too. -/
theorem ofStatements_nested (rank : Nat) (frees : BaseSet) (ss : List Statement)
    (views : ∀ s ∈ computing ss, s.instr.WellFormed)
    (together : ∀ s ∈ computing ss, ∀ t ∈ computing ss, s.instr.sizeAt rank = t.instr.sizeAt rank)
    (n : Nat) :
    (∀ size, ofStatementsSized rank size frees ss =
      assemble (ofStatements (rank + 1)) rank size frees (segments rank (computing ss))) ∧
    (ofStatements rank frees ss n).1.statements = computing ss ∧
    (rank < 2 ^ 31 → (ofStatements rank frees ss n).1.isValid = true) ∧
    ((ofStatements rank frees ss n).1.isValid = true ↔ rankWord rank < 0 ∨
      ∀ s ∈ computing ss, s.instr.sizeAt (rankWord rank).toNat = s.instr.sizeAt rank) ∧
    (ofStatements rank frees ss n).1.ids.Nodup ∧
    ∃ m, FreesAtEnd frees (computing ss) (ofStatements rank frees ss n).1 m := by
  have computes : ∀ s ∈ computing ss, s.Computes := fun s hs =>
    ⟨notSystem_of_mem_computing hs, views s hs⟩
  have size : ∀ s ∈ computing ss, s.instr.sizeAt rank = commonSize rank (computing ss) := by
    intro s hs
    rw [commonSize]
    cases first : computing ss with
    | nil => simp [first] at hs
    | cons t ts => exact together s hs t (by simp [first])
  have shaped := shaped_ofStatementsSized rank (commonSize rank (computing ss)) frees ss computes n
  have valid : (ofStatements rank frees ss n).1.isValid = true ↔ rankWord rank < 0 ∨
      ∀ s ∈ computing ss, s.instr.sizeAt (rankWord rank).toNat = s.instr.sizeAt rank := by
    refine shaped.valid.trans (or_congr_right (forall₂_congr fun s hs => ?_))
    rw [size s hs]
    refine ⟨fun shallow => ?_, fun same _ => same⟩
    -- a statement that goes deeper has an axis of this rank, which is thus small
    by_cases deep : s.instr.ndim ≤ rank + 1
    · exact shallow deep
    · have few := Instruction.ndim_le_maxAxes (views s hs)
      rw [maxAxes] at few
      rw [rankWord_of_lt (by omega), Int.toNat_natCast, size s hs]
  refine ⟨fun size => ofStatementsSized_eq rank size frees ss, statements_ofStatements rank frees ss n,
    fun small => valid.mpr (.inr fun s _ => ?_), valid, ?_, freesAtEnd_ofStatementsSized ..⟩
  · rw [rankWord_of_lt small, Int.toNat_natCast]
  · exact ((handsOut_ofStatements rank frees ss n).nodup List.nodup_nil (List.forall_mem_nil _)).1

/-- A copy of an array of the given shape. -/
def copyOf (shape : List Int) : Statement :=
  .fresh { opcode := .unary .identity
           operands := [{ base := some 0, dtype := .int64, axes := View.rowMajor shape },
             { base := some 1, dtype := .int64, axes := View.rowMajor shape }] }

/-- The loop of a row and a table with as many rows is valid, and the inner loop of the table frees
what is freed. A loop of rank `2 ^ 32` around the row alone is recorded as one of rank 0, where the
row has another size. -/
theorem ofStatements_nested_copies :
    ((ofStatements 0 [7] [copyOf [2], copyOf [2, 3]] 0).1.isValid = true ∧
      ∃ m, FreesAtEnd [7] [copyOf [2], copyOf [2, 3]]
        (ofStatements 0 [7] [copyOf [2], copyOf [2, 3]] 0).1 m) ∧
    (ofStatements (2 ^ 32) [] [copyOf [2]] 0).1.isValid = false := by
  obtain ⟨-, -, valid, -, -, freed⟩ :=
    ofStatements_nested 0 [7] [copyOf [2], copyOf [2, 3]] (by decide) (by decide) 0
  obtain ⟨-, -, -, cut, -⟩ :=
    ofStatements_nested (2 ^ 32) [] [copyOf [2]] (by decide) (by simp [computing]) 0
  refine ⟨⟨valid (by decide), freed⟩, ?_⟩
  rw [Bool.eq_false_iff, ne_eq, cut]
  decide +kernel

end ArrayFusion.Nest
