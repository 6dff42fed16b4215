import ArrayFusion.Proofs.Eval.Sequential
import ArrayFusion.Proofs.Fusion.Schedule

/-!
# Which positions a nest visits

Running a nest visits its statements, each as often as the loops around it ask for. A statement of a
nest is told apart from the others by its path, the places of the nodes that lead to it. In a nest
with a layout the loops around a statement have the ranks 0, 1, 2 and so on and the sizes of the
statement, so that its visits are its positions, in row-major order and each of them once.
-/

namespace ArrayFusion

open Shape

/-- A statement of a nest, seen from a node around it. -/
structure Placement where
  /-- Places of the nodes that lead to the statement, outermost first. -/
  path : List Nat
  /-- Loops around the statement, outermost first. -/
  loops : List LoopHead
  stmt : Statement
  /-- Rank of the loop that directly holds the statement. -/
  rank : Int

/-- The placement, seen from a body that holds its node at a place. -/
def Placement.via (k : Nat) (x : Placement) : Placement := { x with path := k :: x.path }

/-- The placement, seen from around a loop. -/
def Placement.inside (head : LoopHead) (x : Placement) : Placement :=
  { x with loops := head :: x.loops }

/-- A placement fits into loops of the given sizes if the loops around it have the ranks that
follow, down to its own, and all sizes together are those that its statement has. -/
structure Placement.Fits (outer : List Int) (x : Placement) : Prop where
  ranks : x.loops.map (·.rank) =
    (List.range' outer.length x.loops.length).map (Nat.cast : Nat → Int)
  innermost : x.rank + 1 = outer.length + x.loops.length
  under : x.stmt.Under (outer ++ x.loops.map (·.size))
  depth : x.stmt.instr.ndim ≤ outer.length + x.loops.length

/-- One execution of a statement of a nest. -/
structure Visit where
  path : List Nat
  stmt : Statement
  turns : Turns

namespace Visit

/-- The visit, seen from a body that holds its node at a place. -/
def via (k : Nat) (v : Visit) : Visit := { v with path := k :: v.path }

def run (v : Visit) : Exec Unit := Exec.change (v.stmt.instr.step v.turns)

/-- Indices at which the loops stand. -/
def indices (v : Visit) : List Int := v.turns.map (·.index)

end Visit

namespace Node

mutual

/-- The statements of a node with the loops around them. -/
def placements : Node → List Placement
  | leaf s rank => [⟨[], [], s, rank⟩]
  | loop head body => (bodyPlacements 0 body).map (·.inside head)

/-- The statements of a body with the loops around them. The places are counted from a first one. -/
def bodyPlacements (first : Nat) : List Node → List Placement
  | [] => []
  | n :: body => n.placements.map (·.via first) ++ bodyPlacements (first + 1) body

end

mutual

/-- The executions of statements that running a node consists of. -/
def visits (ts : Turns) : Node → List Visit
  | leaf s _ => [⟨[], s, ts⟩]
  | loop head body =>
    if head.rank < 0 then []
    else (List.range head.size.toNat).flatMap fun k : Nat =>
      bodyVisits (ts ++ [turn head k]) 0 body

/-- The executions of statements that running a body consists of. -/
def bodyVisits (ts : Turns) (first : Nat) : List Node → List Visit
  | [] => []
  | n :: body => (n.visits ts).map (·.via first) ++ bodyVisits ts (first + 1) body

end

/-! ## Running is visiting -/

theorem forM_via (k : Nat) (vs : List Visit) :
    (vs.map (·.via k)).forM Visit.run = vs.forM Visit.run := by
  induction vs with
  | nil => rfl
  | cons v vs ih => exact congrArg (v.run >>= fun _ => ·) ih

theorem forM_append (vs vs' : List Visit) :
    (vs ++ vs').forM Visit.run = vs.forM Visit.run >>= fun _ => vs'.forM Visit.run := by
  simp only [List.forM_eq_forM, List.forM_append]

theorem forM_flatMap {α : Type} (xs : List α) (f : α → List Visit) :
    (xs.flatMap f).forM Visit.run = xs.forM fun x => (f x).forM Visit.run := by
  induction xs with
  | nil => rfl
  | cons x xs ih => rw [List.flatMap_cons, forM_append, ih]; rfl

mutual

/-- Running a node is running its visits one after the other. -/
theorem run_eq_forM_visits (ts : Turns) : (n : Node) →
    n.run ts = (n.visits ts).forM Visit.run
  | leaf s rank => (bind_pure_unit (m := Exec)).symm
  | loop head body => by
      rw [visits]
      split
      next negative =>
        rw [run, if_pos (.inr negative)]
        rfl
      next rank =>
        rw [run_loop_eq_forM (Int.not_lt.mp rank), forM_flatMap]
        refine congrArg _ (funext fun k => runBody_eq_forM_visits _ 0 body)

theorem runBody_eq_forM_visits (ts : Turns) (first : Nat) : (body : List Node) →
    runBody ts body = (bodyVisits ts first body).forM Visit.run
  | [] => rfl
  | n :: body => by
      rw [runBody, bodyVisits, forM_append, forM_via, run_eq_forM_visits ts n,
        runBody_eq_forM_visits ts (first + 1) body]

end

/-! ## Placements of a body -/

theorem mem_bodyPlacements {first : Nat} {body : List Node} {x : Placement} :
    x ∈ bodyPlacements first body ↔
      ∃ (k : Nat) (n : Node), body[k]? = some n ∧ ∃ y ∈ n.placements, x = y.via (first + k) := by
  induction body generalizing first with
  | nil => simp [bodyPlacements]
  | cons n body ih =>
      rw [bodyPlacements, List.mem_append, List.mem_map, ih]
      constructor
      · rintro (⟨y, hy, rfl⟩ | ⟨k, m, hm, y, hy, rfl⟩)
        · exact ⟨0, n, rfl, y, hy, rfl⟩
        · exact ⟨k + 1, m, hm, y, hy, by rw [Nat.add_right_comm, Nat.add_assoc]⟩
      · rintro ⟨_ | k, m, hm, y, hy, rfl⟩
        · cases hm
          exact .inl ⟨y, hy, rfl⟩
        · exact .inr ⟨k, m, hm, y, hy, by rw [Nat.add_right_comm, Nat.add_assoc]⟩

theorem mem_placements_loop {head : LoopHead} {body : List Node} {x : Placement} :
    x ∈ (loop head body).placements ↔
      ∃ (k : Nat) (n : Node), body[k]? = some n ∧
        ∃ y ∈ n.placements, x = (y.via k).inside head := by
  simp only [placements, List.mem_map, mem_bodyPlacements, Nat.zero_add]
  constructor
  · rintro ⟨_, ⟨k, n, hn, y, hy, rfl⟩, rfl⟩
    exact ⟨k, n, hn, y, hy, rfl⟩
  · rintro ⟨k, n, hn, y, hy, rfl⟩
    exact ⟨_, ⟨k, n, hn, y, hy, rfl⟩, rfl⟩

mutual

/-- The placements of a node are its statements. -/
theorem map_stmt_placements : (n : Node) → n.placements.map (·.stmt) = n.statements
  | leaf s rank => rfl
  | loop head body => by
      rw [placements, statements, List.map_map, ← map_stmt_bodyPlacements 0 body]
      rfl

theorem map_stmt_bodyPlacements (first : Nat) : (body : List Node) →
    (bodyPlacements first body).map (·.stmt) = bodyStatements body
  | [] => rfl
  | n :: body => by
      rw [bodyPlacements, bodyStatements, List.map_append, List.map_map, ← map_stmt_placements n,
        ← map_stmt_bodyPlacements (first + 1) body]
      rfl

end

mutual

/-- Different placements have different paths. -/
theorem nodup_paths : (n : Node) → (n.placements.map (·.path)).Nodup
  | leaf s rank => by simp [placements]
  | loop head body => by
      rw [placements, List.map_map]
      exact nodup_bodyPaths 0 body

theorem nodup_bodyPaths (first : Nat) : (body : List Node) →
    ((bodyPlacements first body).map (·.path)).Nodup
  | [] => List.nodup_nil
  | n :: body => by
      rw [bodyPlacements, List.map_append, List.map_map]
      refine List.pairwise_append.mpr ⟨?_, nodup_bodyPaths (first + 1) body, ?_⟩
      · exact List.pairwise_map.mpr ((List.pairwise_map.mp (nodup_paths n)).imp
          fun apart same => apart (List.tail_eq_of_cons_eq same))
      · rintro path here _ later rfl
        obtain ⟨y, -, rfl⟩ := List.mem_map.mp here
        obtain ⟨x, hx, same⟩ := List.mem_map.mp later
        obtain ⟨k, m, -, z, -, rfl⟩ := mem_bodyPlacements.mp hx
        have := List.head_eq_of_cons_eq same
        omega

end

/-! ## Visits of a placement -/

/-- Where loops stand in the course of their iterations. -/
def courses : List LoopHead → List Turns
  | [] => [[]]
  | head :: heads =>
    (List.range head.size.toNat).flatMap fun k : Nat => (courses heads).map (turn head k :: ·)

/-- The loops run through the positions of the shape that their sizes make up. -/
theorem map_index_courses (heads : List LoopHead) :
    (courses heads).map (·.map (·.index)) = positions (heads.map (·.size)) := by
  induction heads with
  | nil => rfl
  | cons head heads ih =>
      simp only [courses, List.map_cons, positions, ← ih, List.map_flatMap, List.map_map]
      rfl

theorem filter_via (vs : List Visit) (k place : Nat) (path : List Nat) :
    (vs.map (·.via k)).filter (·.path = place :: path) =
      if k = place then (vs.filter (·.path = path)).map (·.via k) else [] := by
  rw [List.filter_map]
  split
  next same => simp [Function.comp_def, Visit.via, same]
  next apart => simp [Function.comp_def, Visit.via, apart]

theorem filter_bodyVisits_of_lt {ts : Turns} {body : List Node} {first place : Nat}
    (before : place < first) (path : List Nat) :
    (bodyVisits ts first body).filter (·.path = place :: path) = [] := by
  induction body generalizing first with
  | nil => rfl
  | cons n body ih =>
      rw [bodyVisits, List.filter_append, filter_via, if_neg (by omega), List.nil_append,
        ih (by omega)]

/-- The visits of a body that belong to one of its nodes. -/
theorem filter_bodyVisits {ts : Turns} {body : List Node} {n : Node} {k : Nat}
    (hn : body[k]? = some n) (first : Nat) (path : List Nat) :
    (bodyVisits ts first body).filter (·.path = (first + k) :: path) =
      ((n.visits ts).filter (·.path = path)).map (·.via (first + k)) := by
  induction body generalizing first k with
  | nil => simp at hn
  | cons m body ih =>
      rw [bodyVisits, List.filter_append, filter_via]
      cases k with
      | zero =>
          cases hn
          rw [if_pos (Nat.add_zero first).symm, filter_bodyVisits_of_lt (by omega),
            List.append_nil, Nat.add_zero]
      | succ k =>
          have place : first + (k + 1) = first + 1 + k := by omega
          rw [if_neg (by omega), List.nil_append, place, ih hn]

/-! ## Visits in a layout -/

theorem Layout.fits_placements {outer : List Int} {n : Node} (layout : Layout outer n) :
    ∀ x ∈ n.placements, x.Fits outer := by
  induction layout with
  | leaf computes under depth innermost =>
      intro x hx
      rw [placements, List.mem_singleton] at hx
      subst hx
      exact ⟨rfl, by simpa using innermost, by simpa using under, by simpa using depth⟩
  | @loop outer head body rank size records together nodes ih =>
      intro x hx
      obtain ⟨k, n, hn, y, hy, rfl⟩ := mem_placements_loop.mp hx
      obtain ⟨ranks, innermost, under, depth⟩ := ih n (List.mem_of_getElem? hn) y hy
      rw [List.length_append, List.length_singleton] at ranks innermost depth
      refine ⟨?_, ?_, ?_, ?_⟩
      · simp [Placement.inside, Placement.via, ranks, rank, List.range'_succ]
      · simp [Placement.inside, Placement.via]
        omega
      · simpa [Placement.inside, Placement.via] using under
      · simp [Placement.inside, Placement.via]
        omega

/-- The visits of a placement run through the iterations of the loops around it. -/
theorem Layout.visits {outer : List Int} {n : Node} (layout : Layout outer n) {x : Placement}
    (hx : x ∈ n.placements) (ts : Turns) : (n.visits ts).filter (·.path = x.path) =
      (courses x.loops).map fun us => ⟨x.path, x.stmt, ts ++ us⟩ := by
  induction layout generalizing x ts with
  | leaf computes under depth innermost =>
      rw [placements, List.mem_singleton] at hx
      subst hx
      simp [Node.visits, courses]
  | @loop outer head body rank size records together nodes ih =>
      obtain ⟨k, n, hn, y, hy, rfl⟩ := mem_placements_loop.mp hx
      have iteration : ∀ ts, (bodyVisits ts 0 body).filter (·.path = k :: y.path) =
          (courses y.loops).map fun us => ⟨k :: y.path, y.stmt, ts ++ us⟩ := by
        intro ts
        have own : (bodyVisits ts 0 body).filter (·.path = k :: y.path) =
            ((n.visits ts).filter (·.path = y.path)).map (·.via k) := by
          simpa using filter_bodyVisits hn 0 y.path
        rw [own, ih n (List.mem_of_getElem? hn) hy, List.map_map]
        rfl
      change ((Node.loop head body).visits ts).filter (·.path = k :: y.path) =
        (courses (head :: y.loops)).map fun us => ⟨k :: y.path, y.stmt, ts ++ us⟩
      simp only [Node.visits, if_neg (show ¬ head.rank < 0 by omega), List.filter_flatMap,
        iteration, courses, List.map_flatMap, List.map_map, List.append_assoc]
      rfl

mutual

/-- Every visit belongs to a placement. -/
theorem exists_placement_of_visit {ts : Turns} {v : Visit} : (n : Node) → v ∈ n.visits ts →
    ∃ x ∈ n.placements, x.path = v.path ∧ x.stmt = v.stmt
  | leaf s rank => by
      intro hv
      rw [visits, List.mem_singleton] at hv
      exact ⟨_, List.mem_singleton_self _, by rw [hv], by rw [hv]⟩
  | loop head body => by
      intro hv
      rw [visits] at hv
      split at hv
      · simp at hv
      · obtain ⟨k, -, hv⟩ := List.mem_flatMap.mp hv
        obtain ⟨x, hx, path, stmt⟩ := exists_placement_of_bodyVisit body hv
        exact ⟨x.inside head, List.mem_map_of_mem hx, path, stmt⟩

theorem exists_placement_of_bodyVisit {ts : Turns} {v : Visit} {first : Nat} : (body : List Node) →
    v ∈ bodyVisits ts first body →
      ∃ x ∈ bodyPlacements first body, x.path = v.path ∧ x.stmt = v.stmt
  | [] => by simp [bodyVisits]
  | n :: body => by
      intro hv
      rw [bodyPlacements]
      rw [bodyVisits, List.mem_append, List.mem_map] at hv
      rcases hv with ⟨w, hw, rfl⟩ | hv
      · obtain ⟨x, hx, path, stmt⟩ := exists_placement_of_visit n hw
        exact ⟨x.via first, List.mem_append_left _ (List.mem_map_of_mem hx),
          congrArg (first :: ·) path, stmt⟩
      · obtain ⟨x, hx, same⟩ := exists_placement_of_bodyVisit body hv
        exact ⟨x, List.mem_append_right _ hx, same⟩

end

end Node

/-! ## Statements are carried out in full -/

/-- Sizes of the loops that an instruction needs. Without axes it needs one loop that runs once. -/
def Instruction.loopSizes (i : Instruction) : List Int := if i.shape = [] then [1] else i.shape

/-- A statement of a nest stands in loops of its sizes, one of each rank from 0 on, and the visits
are at its positions, in row-major order and each of them once. -/
structure Placement.InFull (visits : List Visit) (x : Placement) : Prop where
  ranks : x.loops.map (·.rank) = (List.range x.loops.length).map (Nat.cast : Nat → Int)
  innermost : x.rank + 1 = x.loops.length
  sizes : x.loops.map (·.size) = x.stmt.instr.loopSizes
  visited : (visits.filter (·.path = x.path)).map (·.indices.take x.stmt.instr.ndim) =
    positions x.stmt.instr.shape

/-- All sizes together that a statement stands under are the sizes it needs. -/
theorem Statement.Under.loopSizes_eq {outer : List Int} {s : Statement} (under : s.Under outer)
    (depth : s.instr.ndim ≤ outer.length) (inside : outer ≠ []) : outer = s.instr.loopSizes := by
  rw [Instruction.loopSizes]
  rcases under with under | ⟨one, empty⟩
  · rw [List.take_of_length_le depth] at under
    rw [if_neg (under ▸ inside), under]
  · rw [if_pos empty, one]

theorem Nest.inFull_of_layout {l : Nest} (layout : l.toNode.Layout []) :
    ∀ x ∈ l.toNode.placements, x.InFull (l.toNode.visits []) := by
  intro x hx
  obtain ⟨ranks, innermost, under, depth⟩ := layout.fits_placements x hx
  have inside : x.loops ≠ [] := by
    obtain ⟨k, n, -, y, -, rfl⟩ := Node.mem_placements_loop.mp hx
    exact List.cons_ne_nil _ _
  have sizes : x.loops.map (·.size) = x.stmt.instr.loopSizes :=
    under.loopSizes_eq (by simpa using depth) (by simpa using inside)
  refine ⟨by simpa [List.range_eq_range'] using ranks, by simpa using innermost, sizes, ?_⟩
  have indices : ((l.toNode.visits []).filter (·.path = x.path)).map (·.indices) =
      positions x.stmt.instr.loopSizes := by
    rw [layout.visits hx, List.map_map, ← sizes, ← Node.map_index_courses]
    rfl
  have shorter := congrArg (List.map (List.take x.stmt.instr.ndim)) indices
  rw [List.map_map] at shorter
  refine shorter.trans ?_
  rw [Instruction.loopSizes]
  split
  next empty => simp [Instruction.ndim, empty, positions]
  next =>
    refine (List.map_congr_left fun p hp => ?_).trans (List.map_id _)
    exact List.take_of_length_le (mem_positions.mp hp).length_eq.le

namespace Fusion

/-- Every statement of a fused loop is carried out at each of its positions once, in row-major
order, in loops of the ranks 0, 1, 2 and so on that have its sizes. -/
theorem fuse_visits (separate : Bool) {ss : List Statement} (views : ∀ s ∈ ss, s.instr.WellFormed)
    {n m : Nat} {ls : List Nest} (fused : fuse separate ss n = .ok (ls, m)) {l : Nest}
    (hl : l ∈ ls) :
    l.toNode.run [] = (l.toNode.visits []).forM Visit.run ∧
      l.toNode.placements.map (·.stmt) = l.statements ∧ (l.toNode.placements.map (·.path)).Nodup ∧
      (∀ v ∈ l.toNode.visits [], ∃ x ∈ l.toNode.placements, x.path = v.path ∧ x.stmt = v.stmt) ∧
      ∀ x ∈ l.toNode.placements,
        x.InFull (l.toNode.visits []) ∧ (positions x.stmt.instr.shape).Nodup := by
  have faithful := faithful_of_fuse views fused
  refine ⟨Node.run_eq_forM_visits _ _, ?_, Node.nodup_paths _, fun v hv => ?_, fun x hx => ⟨?_, ?_⟩⟩
  · rw [Node.map_stmt_placements, Nest.statements_toNode]
  · exact Node.exists_placement_of_visit _ hv
  · exact Nest.inFull_of_layout (faithful.laidOut l hl) x hx
  · exact nodup_positions _

/-- A square and a flat array are copied in one nest, which splits the loop of the flat one. -/
theorem fuse_visits_square :
    let square (b : BaseId) : View :=
      { base := some b, dtype := .int64, axes := View.rowMajor [2, 2] }
    let flat (b : BaseId) : View := .whole b .int64 4
    let ss := Statement.number
      [{ opcode := .unary .identity, operands := [square 1, square 0] },
       { opcode := .unary .identity, operands := [flat 2, flat 0] }] 0
    ∃ l m, fuse false ss 0 = .ok ([l], m) ∧ l.toNode.placements.length = 2 ∧
      ∀ x ∈ l.toNode.placements, x.InFull (l.toNode.visits []) := by
  intro square flat ss
  have single : (fuse false ss 0).toOption.map (fun r => r.1.map (·.statements.length)) =
      some [2] := by decide
  cases found : fuse false ss 0 with
  | error e => simp [found, Except.toOption] at single
  | ok r =>
      obtain ⟨ls, m⟩ := r
      rw [found] at single
      obtain ⟨l, rfl, two⟩ := List.map_eq_singleton_iff.mp (Option.some.inj single)
      obtain ⟨-, placements, -, -, full⟩ :=
        fuse_visits false (by decide : ∀ s ∈ ss, s.instr.WellFormed) found
          (List.mem_singleton_self l)
      refine ⟨l, m, rfl, ?_, fun x hx => (full x hx).1⟩
      rw [← two, ← placements, List.length_map]

end Fusion

end ArrayFusion
