import ArrayFusion.Proofs.Eval.Order

/-!
# Loops that are shared act like statements one by one

A nest runs all its statements in each iteration of its loops. If it is well laid out, this is the
same action as running the first statement at all its positions, then the second one, and so on. The
induction follows the layout: in every loop the iterations of its statements change places, which
the loop and the loops around it allow.
-/

namespace ArrayFusion

open Shape

namespace Statement

/-- The action of a statement at all its positions that begin with the given indices. A statement
without axes has the position without indices only. -/
def actFrom (u : List Int) (s : Statement) : Action :=
  ((positions (s.instr.shape.drop u.length)).map fun w =>
    s.instr.actAt ((u ++ w).take s.instr.ndim)).prod

/-- The action of a statement at all its positions. -/
def act (s : Statement) : Action := s.actFrom []

/-- What the interpreter relies on: the statement computes something on operands that fit, and
writes no element twice. -/
structure Runs (s : Statement) : Prop where
  sound : s.instr.Sound
  once : s.instr.WritesOnce

end Statement

namespace Node

theorem act_run_leaf (s : Statement) (rank : Int) (ts : Turns) :
    ((leaf s rank).run ts).act = s.instr.act ts := by
  rw [run, Exec.act_change]
  rfl

theorem act_runBody (ts : Turns) (body : List Node) :
    (runBody ts body).act = (body.map fun n => (n.run ts).act).prod := by
  induction body with
  | nil => rfl
  | cons n body ih =>
      rw [runBody, Exec.act_bind, ih, List.map_cons, List.prod_cons]

theorem act_runBody_singleton (ts : Turns) (n : Node) : (runBody ts [n]).act = (n.run ts).act := by
  rw [act_runBody, List.map_singleton, List.prod_singleton]

theorem act_runBody_append (ts : Turns) (xs ys : List Node) :
    (runBody ts (xs ++ ys)).act = (runBody ts xs).act * (runBody ts ys).act := by
  rw [act_runBody, List.map_append, List.prod_append, ← act_runBody, ← act_runBody]

/-- Where a loop stands in an iteration. -/
def turn (head : LoopHead) (k : Int) : Turn := ⟨k, !head.sweeps.isEmpty && k == 0⟩

/-- A loop runs its body once for every index, in the first iteration apart or not. -/
theorem run_loop_eq_forM {head : LoopHead} (rank : 0 ≤ head.rank) (ts : Turns) (body : List Node) :
    (loop head body).run ts =
      (List.range head.size.toNat).forM fun k : Nat => runBody (ts ++ [turn head k]) body := by
  have indices : ∀ (f : Int → Exec Unit) (g : Nat → Exec Unit) (count first : Nat),
      (∀ k : Nat, first ≤ k → f k = g k) →
        Exec.forIndices f count first = (List.range' first count).forM g := by
    intro f g count
    induction count with
    | zero => exact fun _ _ => rfl
    | succ count ih =>
        intro first same
        rw [Exec.forIndices, same first (Nat.le_refl _)]
        exact congrArg (g first >>= fun _ => ·) (ih (first + 1) fun k more => same k (by omega))
  rw [run]
  by_cases empty : head.size ≤ 0 ∨ head.rank < 0
  · have none : head.size.toNat = 0 := by omega
    rw [if_pos empty, none]
    rfl
  rw [if_neg empty, List.range_eq_range']
  cases sweeps : head.sweeps.isEmpty with
  | true => exact indices _ _ _ 0 fun k _ => by simp [turn, sweeps]
  | false =>
      obtain ⟨n, size⟩ : ∃ n, head.size.toNat = n + 1 := ⟨head.size.toNat - 1, by omega⟩
      have opens : turn head (0 : Nat) = ⟨0, true⟩ := by simp [turn, sweeps]
      rw [if_neg (by simp), size, List.range'_succ, Nat.add_sub_cancel, ← opens]
      refine congrArg (runBody _ body >>= fun _ => ·) (indices _ _ n 1 fun k later => ?_)
      have notFirst : ((k : Int) == 0) = false := by
        simp only [beq_eq_false_iff_ne]
        omega
      simp [turn, notFirst]

/-- A loop acts like its iterations one after the other. -/
theorem act_run_loop {head : LoopHead} (rank : 0 ≤ head.rank) (ts : Turns) (body : List Node) :
    ((loop head body).run ts).act =
      ((List.range head.size.toNat).map fun k : Nat =>
        (runBody (ts ++ [turn head k]) body).act).prod := by
  rw [run_loop_eq_forM rank, Exec.act_forM]

/-- A body acts like its statements if its nodes do. -/
theorem act_runBody_of_nodes {ts : Turns} {body : List Node} {f : Statement → Action}
    (nodes : ∀ n ∈ body, (n.run ts).act = (n.statements.map f).prod) :
    (runBody ts body).act = ((bodyStatements body).map f).prod := by
  rw [act_runBody, List.map_congr_left nodes, bodyStatements_eq_flatMap, List.map_flatMap,
    List.flatMap_def, List.prod_flatten, List.map_map]
  rfl

end Node

namespace Statement

variable {s t : Statement} {outer u u' : List Int} {size : Int}

/-- A fold or scan along an axis is one along the loop of this rank. -/
theorem sweepsAlong_of_sweepAxis? (h : s.Runs) {axis : Nat}
    (along : s.instr.sweepAxis? = some axis) : Nest.sweepsAlong axis s = true := by
  rw [Nest.sweepsAlong_natCast axis h.sound.sweepAxis?_lt, along, beq_self_eq_true]

/-- Loops with more than one iteration run along the axes of the statements in them. -/
theorem Under.take_eq (under : s.Under outer) (range : InRange outer u) (range' : InRange outer u')
    (apart : u ≠ u') : s.instr.shape.take outer.length = outer := by
  rcases under with under | ⟨rfl, -⟩
  · exact under
  · have first : ∀ {u : List Int}, InRange [1] u → u = [0] := by
      rintro _ (_ | ⟨⟨least, most⟩, ⟨⟩⟩)
      exact congrArg (· :: []) (by omega)
    exact absurd ((first range).trans (first range').symm) apart

/-- Statements below the same loops run in different iterations of these loops in any order. -/
theorem commute_iterations (hs : s.Runs) (ht : t.Runs)
    (together : ∀ r < outer.length, s.Together r t)
    (underS : s.Under outer) (underT : t.Under outer) (range : InRange outer u)
    (range' : InRange outer u') (apart : u ≠ u') : Commute (t.actFrom u) (s.actFrom u') := by
  have alongS := underS.take_eq range range' apart
  have alongT := underT.take_eq range range' apart
  have inside : ∀ {s : Statement} {u w : List Int}, s.instr.shape.take outer.length = outer →
      InRange outer u → w ∈ positions (s.instr.shape.drop u.length) →
        InRange s.instr.shape (u ++ w) := by
    intro s u w under range member
    rw [range.length_eq] at member
    rw [← List.take_append_drop outer.length s.instr.shape, under]
    exact range.append (mem_positions.mp member)
  obtain ⟨last, length⟩ : ∃ last, outer.length = last + 1 := by
    refine ⟨outer.length - 1, (Nat.sub_add_cancel (Nat.pos_of_ne_zero fun none => apart ?_)).symm⟩
    obtain rfl : outer = [] := List.length_eq_zero_iff.mp none
    cases range
    cases range'
    rfl
  have loop : Instruction.InLoop last t.instr s.instr := {
    outer := by rw [← length, alongT, alongS]
    aligned := (together last (by omega)).1.symm
    first := fun axis below along =>
      (together axis (by omega)).2.2 (sweepsAlong_of_sweepAxis? ht along)
    second := fun axis below along =>
      (together axis (by omega)).2.1 (sweepsAlong_of_sweepAxis? hs along) }
  refine Commute.list_prod_left _ _ fun f hf => Commute.list_prod_right _ _ fun g hg => ?_
  obtain ⟨w, hw, rfl⟩ := List.mem_map.mp hf
  obtain ⟨w', hw', rfl⟩ := List.mem_map.mp hg
  have rangeT := inside alongT range hw
  have rangeS := inside alongS range' hw'
  have full : ∀ {s : Statement} {p : List Int}, InRange s.instr.shape p →
      p.take s.instr.ndim = p := fun range => List.take_of_length_le range.length_eq.le
  rw [full rangeT, full rangeS]
  refine Instruction.commute_of_inLoop ht.sound hs.sound ht.once hs.once loop rangeT rangeS ?_
  rwa [← length, List.take_left' range.length_eq, List.take_left' range'.length_eq]

/-- Below a loop that it fits into, a statement runs iteration by iteration. -/
theorem prod_actFrom (under : s.Under (outer ++ [size])) (length : u.length = outer.length) :
    ((List.range size.toNat).map fun k : Nat => s.actFrom (u ++ [(k : Int)])).prod =
      s.actFrom u := by
  rcases under with under | ⟨one, empty⟩
  · have split : s.instr.shape.drop u.length =
        size :: s.instr.shape.drop (u.length + 1) := by
      rw [length]
      have along : s.instr.shape[outer.length]? = some size := by
        have := congrArg (·[outer.length]?) under
        simpa using this
      obtain ⟨inside, here⟩ := List.getElem?_eq_some_iff.mp along
      rw [List.drop_eq_getElem_cons inside, here]
    rw [actFrom, split, positions, List.map_flatMap, List.flatMap_def, List.prod_flatten,
      List.map_map]
    simp only [actFrom, List.length_append, List.length_singleton, List.map_map, Function.comp_def,
      List.append_assoc, List.singleton_append]
  · obtain ⟨rfl, rfl⟩ : outer = [] ∧ size = 1 := by
      cases outer with
      | nil => simpa using one
      | cons n outer => simp at one
    have here : s.instr.ndim = 0 := by rw [Instruction.ndim, empty]; rfl
    obtain rfl : u = [] := List.length_eq_zero_iff.mp length
    simp [actFrom, empty, here, positions]

end Statement

namespace Node

/-- In an iteration of a loop, its statements stand one index further inside. -/
theorem standsAt_iteration {head : LoopHead} {ss : List Statement} (records : head.Records ss)
    {s : Statement} (hs : s ∈ ss) (runs : s.Runs) {ts : Turns} {u : List Int}
    (stands : s.instr.StandsAt ts u) (length : ts.length = u.length) (rank : head.rank = u.length)
    (k : Int) : s.instr.StandsAt (ts ++ [turn head k]) (u ++ [k]) := by
  obtain ⟨⟨enough, index⟩, opening⟩ := stands
  refine ⟨⟨by simp [length], fun axis x hx => ?_⟩, fun axis x along hx => ?_⟩
  · rcases Nat.lt_trichotomy axis u.length with before | rfl | behind
    · rw [List.getElem?_append_left before] at hx
      have := index axis x hx
      rwa [Turns.index, List.getElem?_append_left (by omega)]
    · rw [List.getElem?_concat_length] at hx
      cases hx
      rw [Turns.index, ← length, List.getElem?_concat_length]
      rfl
    · rw [List.getElem?_eq_none (by simp; omega)] at hx
      contradiction
  · rcases Nat.lt_trichotomy axis u.length with before | rfl | behind
    · rw [List.getElem?_append_left before] at hx
      have := opening axis x along hx
      rwa [Turns.isOpening, List.getElem?_append_left (by omega)]
    · -- The head lists the fold or scan, so that its loop has an opening iteration.
      have listed : s ∈ head.sweeps := by
        rw [records.sweeps, rank]
        exact List.mem_filter.mpr ⟨hs, Statement.sweepsAlong_of_sweepAxis? runs along⟩
      have sweeps : head.sweeps.isEmpty = false := by
        rw [List.isEmpty_eq_false_iff]
        exact List.ne_nil_of_mem listed
      rw [List.getElem?_concat_length] at hx
      cases hx
      rw [Turns.isOpening, ← length, List.getElem?_concat_length]
      simp [turn, sweeps]
    · rw [List.getElem?_eq_none (by simp; omega)] at hx
      contradiction

/-- At the position of its loops, a statement without axes below them is carried out once. -/
theorem act_run_leaf_eq_prod {outer : List Int} {s : Statement} (rank : Int) {u : List Int}
    {ts : Turns} (depth : s.instr.ndim ≤ outer.length) (range : InRange outer u) (runs : s.Runs)
    (stands : s.instr.StandsAt ts u) : ((leaf s rank).run ts).act = s.actFrom u := by
  have inside : s.instr.ndim ≤ u.length := range.length_eq ▸ depth
  have last : s.instr.shape.drop u.length = [] := List.drop_eq_nil_of_le inside
  have length : (u.take s.instr.ndim).length = s.instr.ndim := by
    rw [List.length_take]
    omega
  rw [act_run_leaf, Instruction.act_eq_actAt runs.sound.fit (stands.take _) length]
  simp [Statement.actFrom, last, positions]

/-- Statements that may run together in the loops around a body and in its own loop run their
iterations of these loops in any order. -/
theorem commute_of_together {outer : List Int} {size : Int} {ss : List Statement} {u : List Int}
    (runs : ∀ s ∈ ss, s.Runs) (under : ∀ s ∈ ss, s.Under (outer ++ [size]))
    (together : ss.Pairwise fun s t => ∀ r ≤ outer.length, s.Together r t)
    {k k' : Nat} (rangeK : InRange (outer ++ [size]) (u ++ [(k : Int)]))
    (rangeK' : InRange (outer ++ [size]) (u ++ [(k' : Int)])) (less : k < k') :
    ss.Pairwise fun s t =>
      Commute (t.actFrom (u ++ [(k : Int)])) (s.actFrom (u ++ [(k' : Int)])) := by
  refine together.imp_of_mem fun {s t} hs ht both => ?_
  refine Statement.commute_iterations (runs s hs) (runs t ht) (fun r below => both r ?_)
    (under s hs) (under t ht) rangeK rangeK' (by simpa using less.ne)
  rw [List.length_append, List.length_singleton] at below
  omega

/-- Running a node acts like running its statements one after the other. -/
theorem act_run_eq_prod {outer : List Int} {n : Node} (layout : Layout outer n) {u : List Int}
    {ts : Turns} (range : InRange outer u) (length : ts.length = u.length)
    (runs : ∀ s ∈ n.statements, s.Runs)
    (stands : ∀ s ∈ n.statements, s.instr.StandsAt ts u)
    (together : n.statements.Pairwise fun s t => ∀ r < outer.length, s.Together r t) :
    (n.run ts).act = (n.statements.map (·.actFrom u)).prod := by
  induction layout generalizing u ts with
  | @leaf outer s rank computes under depth innermost =>
      have single : s ∈ (leaf s rank).statements := by simp [statements]
      rw [act_run_leaf_eq_prod rank depth range (runs s single) (stands s single)]
      simp [statements]
  | @loop outer head body rank size records pairs nodes ih =>
      have under : ∀ s ∈ bodyStatements body, s.Under (outer ++ [head.size]) := fun s hs =>
        ((Layout.loop rank size records pairs nodes).body s hs).2
      have pairs' : (bodyStatements body).Pairwise fun s t =>
          ∀ r ≤ outer.length, s.Together r t := by
        rw [rank] at pairs
        refine (pairs.and together).imp fun {s t} both r below => ?_
        rcases Nat.lt_or_eq_of_le below with less | rfl
        · exact both.2 r less
        · exact both.1
      have inRange : ∀ k ∈ List.range head.size.toNat, InRange (outer ++ [head.size])
          (u ++ [(k : Int)]) := by
        intro k hk
        rw [List.mem_range] at hk
        exact range.append (.cons ⟨by omega, by omega⟩ .nil)
      -- One iteration runs the statements of the body one after the other.
      have iteration : ∀ k ∈ List.range head.size.toNat,
          (runBody (ts ++ [turn head k]) body).act =
            ((bodyStatements body).map (·.actFrom (u ++ [(k : Int)]))).prod := by
        intro k hk
        refine act_runBody_of_nodes fun n hn => ?_
        have sub := statements_sublist hn
        refine ih n hn (inRange k hk) (by simp [length]) (fun s hs => runs s (sub.subset hs))
          (fun s hs => ?_) (pairs'.sublist sub |>.imp fun both r below => both r ?_)
        · exact standsAt_iteration records (sub.subset hs) (runs s (sub.subset hs))
            (stands s (sub.subset hs)) length (rank.trans (by rw [range.length_eq])) k
        · rw [List.length_append, List.length_singleton] at below
          omega
      rw [act_run_loop (by omega), List.map_congr_left iteration, statements, prod_interchange]
      · refine congrArg List.prod (List.map_congr_left fun s hs => ?_)
        exact Statement.prod_actFrom (under s hs) range.length_eq
      · refine List.pairwise_lt_range.imp_of_mem fun {k k'} hk hk' less => ?_
        exact commute_of_together runs under pairs' (inRange k hk) (inRange k' hk') less

end Node

end ArrayFusion
