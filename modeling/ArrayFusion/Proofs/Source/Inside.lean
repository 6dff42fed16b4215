import ArrayFusion.Proofs.Nest.Layout
import ArrayFusion.Proofs.Source.Serial

/-!
# Scopes inside of a loop body

Inner loops add names to the scope of a loop body. They take no scalar away, they protect nothing of
their own because they are not shared, and they open other axes. What the body of a loop knows of a
view is so known at every statement inside, as the origins of these statements show.
-/

namespace ArrayFusion

/-! ## Loops inside of a loop -/

/-- Loops are as deep as they are nested. -/
theorem Node.Layout.length_le_rank {outer : List Int} {n : Node} (h : n.Layout outer) :
    ∀ l ∈ n.nests, (outer.length : Int) ≤ l.head.rank := by
  induction h with
  | leaf computes under depth innermost => exact nofun
  | @loop outer head body rank size records together nodes ih =>
    rw [nests, List.forall_mem_cons]
    refine ⟨rank.ge, fun l hl => ?_⟩
    rw [bodyNests_eq_flatMap, List.mem_flatMap] at hl
    obtain ⟨n, hn, hl⟩ := hl
    have deeper := ih n hn l hl
    rw [List.length_append, List.length_singleton] at deeper
    omega

namespace Nest

variable {l : Nest} {outer : List Int}

/-- Inner loops are no loops of rank 0. -/
theorem inner_rank_ne_zero (layout : l.toNode.Layout outer) :
    ∀ m ∈ Node.bodyNests l.body, m.head.rank ≠ 0 := by
  intro m hm
  rw [Node.bodyNests_eq_flatMap, List.mem_flatMap] at hm
  obtain ⟨n, hn, hm⟩ := hm
  have deeper := (layout.nodes n hn).length_le_rank m hm
  rw [List.length_append, List.length_singleton] at deeper
  omega

theorem records_of_layout (layout : l.toNode.Layout outer) : l.head.Records l.statements := by
  cases layout with
  | loop rank size records together nodes => exact records

theorem sweepsAlong_zero {t : Statement} (rank : l.head.rank = 0)
    (along : t.instr.sweepAxis? = some 0) : sweepsAlong l.head.rank t = true := by
  rw [sweepsAlong, along, rank]
  rfl

theorem mem_localStatements {t : Statement} :
    t ∈ l.localStatements ↔ ∃ rank, .leaf t rank ∈ l.body := by
  rw [localStatements, List.mem_filterMap]
  constructor
  · rintro ⟨n, hn, found⟩
    cases n with
    | leaf t' rank =>
      cases found
      exact ⟨rank, hn⟩
    | loop head body => contradiction
  · rintro ⟨rank, hn⟩
    exact ⟨_, hn, rfl⟩

theorem mem_statements_of_local {t : Statement} (ht : t ∈ l.localStatements) :
    t ∈ l.statements := by
  obtain ⟨rank, hn⟩ := mem_localStatements.mp ht
  exact (Node.statements_sublist hn).subset (List.mem_singleton_self t)

end Nest

/-! ## Names of inner scopes -/

namespace Scope

/-- What the body of an outermost loop knows is known inside of it: scalars still stand for the same
views, updates are protected alike, and no other iteration is the first one along axis 0. -/
structure Inside (s s' : Scope) : Prop where
  symbols : s'.symbols = s.symbols
  replaced : ∀ v, s.isReplaced v = true → s'.isReplaced v = true
  protection : ∀ v, s'.protection? v = s.protection? v
  opening : s'.isOpening 0 = true → s.isOpening 0 = true

variable {s : Scope}

theorem Inside.refl (s : Scope) : s.Inside s := ⟨rfl, fun _ => id, fun _ => rfl, id⟩

theorem Inside.trans {s' s'' : Scope} (h : s.Inside s') (h' : s'.Inside s'') : s.Inside s'' where
  symbols := h'.symbols.trans h.symbols
  replaced v known := h'.replaced v (h.replaced v known)
  protection v := (h'.protection v).trans (h.protection v)
  opening first := h.opening (h'.opening first)

theorem inside_child (s : Scope) (rank : Int) : s.Inside (s.child rank) where
  symbols := rfl
  replaced v known := by simpa [isReplaced] using known
  protection v := by
    rw [protection?, frames_child]
    rfl
  opening first := by simpa [isOpening] using first

theorem inside_replace (s : Scope) (v : View) : s.Inside (s.replace v) where
  symbols := rfl
  replaced w known := by rw [isReplaced_replace, known, Bool.or_true]
  protection _ := rfl
  opening := id

theorem inside_openAxis (s : Scope) {axis : Nat} (inner : axis ≠ 0) :
    s.Inside (s.openAxis axis) where
  symbols := rfl
  replaced _ := id
  protection _ := rfl
  opening first := by
    simp only [isOpening, openAxis, frames, List.any_cons, Bool.or_eq_true, beq_iff_eq,
      Option.some.injEq, inner, false_or] at first ⊢
    exact .inr first

theorem inside_addIndexVar (s : Scope) (e : String) : s.Inside (s.addIndexVar e).1 := by
  rw [addIndexVar]
  split
  · exact .refl s
  · exact ⟨rfl, fun _ => id, fun _ => rfl, id⟩

theorem inside_replaceAll (s : Scope) (vs : List View) : s.Inside (vs.foldl replace s) := by
  induction vs generalizing s with
  | nil => exact .refl s
  | cons v vs ih => exact (s.inside_replace v).trans (ih (s.replace v))

/-- A scalar stands for each of the views. -/
theorem isReplaced_replaceAll (s : Scope) {vs : List View} {v : View} (hv : v ∈ vs) :
    (vs.foldl replace s).isReplaced v = true := by
  induction vs generalizing s with
  | nil => contradiction
  | cons w vs ih =>
    obtain rfl | hv := List.mem_cons.mp hv
    · refine ((s.replace v).inside_replaceAll vs).replaced v ?_
      rw [isReplaced_replace, View.sameAccess_iff.mpr ⟨rfl, rfl, rfl⟩, Bool.true_or]
    · exact ih (s.replace w) hv

variable {guards : List (View × Protection)}

/-- The updates of each of the views are protected. -/
theorem protection?_guardAll (s : Scope) {v : View}
    (guarded : (∃ p, (v, p) ∈ guards) ∨ (s.protection? v).isSome = true) :
    ((guards.foldl (fun s (v, p) => s.guard v p) s).protection? v).isSome = true := by
  induction guards generalizing s with
  | nil => exact guarded.resolve_left fun ⟨_, member⟩ => List.not_mem_nil member
  | cons entry guards ih =>
    refine ih (s.guard entry.1 entry.2) ?_
    rw [protection?_guard]
    obtain ⟨p, member⟩ | known := guarded
    · obtain rfl | member := List.mem_cons.mp member
      · rw [if_pos (View.sameAccess_iff.mpr ⟨rfl, rfl, rfl⟩)]
        exact .inr rfl
      · exact .inl ⟨p, member⟩
    · split
      · exact .inr rfl
      · exact .inr known

/-- Protection changes nothing else. -/
theorem kept_guardAll (s : Scope) (guards : List (View × Protection)) :
    let inner := guards.foldl (fun s (v, p) => s.guard v p) s
    inner.symbols = s.symbols ∧ (∀ v, inner.isReplaced v = s.isReplaced v) ∧
      ∀ axis, inner.isOpening axis = s.isOpening axis := by
  induction guards generalizing s with
  | nil => exact ⟨rfl, fun _ => rfl, fun _ => rfl⟩
  | cons entry guards ih => exact ih (s.guard entry.1 entry.2)

theorem isOpening_replaceAll (s : Scope) (vs : List View) (axis : Nat) :
    (vs.foldl replace s).isOpening axis = s.isOpening axis := by
  induction vs generalizing s with
  | nil => rfl
  | cons v vs ih => exact ih (s.replace v)

end Scope

namespace Dialect

variable {d : Dialect} {s : Scope}

theorem inside_indexVariables (s : Scope) (es : List String) :
    s.Inside (indexVariables s es).1 := by
  induction es generalizing s with
  | nil => exact .refl s
  | cons e es ih =>
    rw [indexVariables]
    cases s.indexVar? e with
    | some name => exact ih s
    | none => exact (s.inside_addIndexVar e).trans (ih _)

theorem inside_named (s : Scope) (l : Nest) : s.Inside (named s l).1 := by
  rw [named]
  split
  · exact inside_indexVariables s _
  · exact .refl s

/-- The scope of an inner loop is inside, also in its first iteration. -/
theorem inside_foldScope (s : Scope) (l : Nest) : s.Inside (foldScope s l []) :=
  (s.inside_child l.head.rank).trans (Scope.inside_replaceAll _ _)

section FoldScope

variable (s : Scope) (l : Nest) (guards : List (View × Protection))

theorem symbols_foldScope : (foldScope s l guards).symbols = s.symbols :=
  ((foldScope s l []).kept_guardAll guards).1.trans (inside_foldScope s l).symbols

theorem isOpening_foldScope (axis : Nat) :
    (foldScope s l guards).isOpening axis = s.isOpening axis := by
  refine (((foldScope s l []).kept_guardAll guards).2.2 axis).trans ?_
  refine (Scope.isOpening_replaceAll _ _ axis).trans ?_
  simp [Scope.isOpening]

/-- Scalars stand for the outputs of kept folds. -/
theorem isReplaced_foldScope {i : Instruction} (kept : i ∈ s.keptFolds l) {out : View}
    (output : i.operands.head? = some out) : (foldScope s l guards).isReplaced out = true := by
  refine (((foldScope s l []).kept_guardAll guards).2.1 out).trans ?_
  exact Scope.isReplaced_replaceAll _ (List.mem_filterMap.mpr ⟨i, kept, output⟩)

variable {guards}

/-- Views with guards are protected. -/
theorem protection?_foldScope {out : View} {p : Protection} (guarded : (out, p) ∈ guards) :
    ((foldScope s l guards).protection? out).isSome = true :=
  Scope.protection?_guardAll _ (.inl ⟨p, guarded⟩)

end FoldScope

end Dialect

/-- The statement comes from one of some statements, and its scope is inside. A result that is
stored after a loop is that of a fold along this loop. -/
def Origin.Within (s : Scope) (ss : List Statement) : Origin → Prop
  | .computed s' i => s.Inside s' ∧ ∃ t ∈ ss, t.instr = i
  | .stored _ i out => i.operands.head? = some out ∧
      ∃ t ∈ ss, t.instr = i ∧ ∃ rank ≠ 0, Nest.sweepsAlong rank t = true
  | .located .. => True

theorem Origin.Within.mono {s s' : Scope} {ss ss' : List Statement} {o : Origin}
    (h : o.Within s' ss) (inside : s.Inside s') (sub : ∀ t ∈ ss, t ∈ ss') : o.Within s ss' := by
  cases o with
  | computed s'' i =>
    obtain ⟨deeper, t, ht, same⟩ := h
    exact ⟨inside.trans deeper, t, sub t ht, same⟩
  | stored s'' i out =>
    obtain ⟨output, t, ht, sweep⟩ := h
    exact ⟨output, t, sub t ht, sweep⟩
  | located name index => trivial

namespace Dialect

variable {d : Dialect} {s : Scope}

theorem within_loopBodyOrigins {l : Nest} {parts : Scope → List Origin} {ss : List Statement}
    {s' : Scope} (inside : s.Inside s') (each : ∀ s', ∀ o ∈ parts s', o.Within s' ss) :
    ∀ o ∈ loopBodyOrigins s' l parts, o.Within s ss := by
  intro o member
  rw [loopBodyOrigins, List.mem_append, List.mem_map] at member
  obtain ⟨index, -, rfl⟩ | member := member
  · trivial
  · exact (each _ o member).mono (inside.trans (inside_named s' l)) fun _ => id

/-- Folds that a loop keeps in scalars are statements of the loop. -/
theorem mem_keptFolds {l : Nest} {i : Instruction} (hi : i ∈ s.keptFolds l) :
    ∃ t ∈ l.localStatements, t.instr = i ∧ Nest.sweepsAlong l.head.rank t = true ∧
      s.isKept i = true := by
  rw [Scope.keptFolds, List.mem_filter, List.mem_map] at hi
  obtain ⟨⟨t, ht, rfl⟩, kept⟩ := hi
  obtain ⟨ht, along⟩ := List.mem_filter.mp ht
  exact ⟨t, ht, rfl, along, kept⟩

theorem within_loopOrigins {l : Nest} {parts : Scope → List Origin} (deep : l.head.rank ≠ 0)
    (each : ∀ s', ∀ o ∈ parts s', o.Within s' l.statements) :
    ∀ o ∈ d.loopOrigins s l parts, o.Within s l.statements := by
  intro o member
  rw [loopOrigins] at member
  split at member
  · contradiction
  next busy =>
  split at member
  · exact within_loopBodyOrigins (s.inside_child _) each o member
  have inner : l.head.rank.toNat ≠ 0 := by omega
  -- No inner loop has guards.
  have none : d.guards s l = [] := by
    rw [guards, if_neg]
    exact fun parallel => deep (parallel_directive parallel).1
  rw [List.mem_append, List.mem_append, List.mem_map] at member
  obtain (member | member) | ⟨kept, member, rfl⟩ := member
  · rw [openingOrigins] at member
    split at member
    · contradiction
    · exact within_loopBodyOrigins ((inside_foldScope s l).trans (Scope.inside_openAxis _ inner))
        each o member
  · rw [remainingOrigins, none] at member
    split at member
    · exact within_loopBodyOrigins (inside_foldScope s l) each o member
    · contradiction
  · obtain ⟨i, hi, found⟩ := List.mem_filterMap.mp member
    obtain ⟨out, output, rfl⟩ := Option.map_eq_some_iff.mp found
    obtain ⟨t, ht, same, along, -⟩ := mem_keptFolds hi
    exact ⟨output, t, Nest.mem_statements_of_local ht, same, _, deep, along⟩

mutual

/-- Origins of the statements of inner loops are inside. -/
theorem within_nodeOrigins : (n : Node) → (∀ l ∈ n.nests, l.head.rank ≠ 0) → (s : Scope) →
    ∀ o ∈ nodeOrigins d s n, o.Within s n.statements
  | .leaf stmt _, _, s, o, member => by
    obtain rfl := List.mem_singleton.mp member
    exact ⟨.refl s, stmt, List.mem_singleton_self stmt, rfl⟩
  | .loop head body, deep, s, o, member => by
    rw [Node.nests, List.forall_mem_cons] at deep
    exact within_loopOrigins (l := ⟨head, body⟩) deep.1 (within_bodyOrigins body deep.2) o member

theorem within_bodyOrigins : (body : List Node) → (∀ l ∈ Node.bodyNests body, l.head.rank ≠ 0) →
    (s : Scope) → ∀ o ∈ bodyOrigins d s body, o.Within s (Node.bodyStatements body)
  | [], _, _, _, member => nomatch member
  | n :: body, deep, s, o, member => by
    rw [Node.bodyNests, List.forall_mem_append] at deep
    rw [bodyOrigins, List.mem_append] at member
    rw [Node.bodyStatements]
    obtain member | member := member
    · exact (within_nodeOrigins n deep.1 s o member).mono (.refl s) fun _ =>
        List.mem_append_left _
    · exact (within_bodyOrigins body deep.2 s o member).mono (.refl s) fun _ =>
        List.mem_append_right _

end

end Dialect

end ArrayFusion
