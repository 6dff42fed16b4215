import ArrayFusion.Proofs.Source.Origins

/-!
# Loops that one thread runs

Only a loop of rank 0 may be run by several threads. Of the code of such a loop, its opening
iteration and its body are serial, so that the loop itself is the only one that is shared.
-/

namespace ArrayFusion

namespace Code

/-- Several threads run the loop. -/
def isParallel : Code → Bool
  | loop x _ _ _ _ => x.parallel
  | _ => false

/-- One thread runs all the loops. -/
def Serial (body : List Code) : Prop := ∀ c ∈ partsIn body, c.isParallel = false

theorem serial_nil : Serial [] := fun _ member => (List.not_mem_nil member).elim

theorem not_mem_of_serial {body : List Code} {c : Code} (h : Serial body)
    (parallel : c.isParallel = true) : c ∉ partsIn body := fun member =>
  Bool.false_ne_true ((h c member).symm.trans parallel)

theorem Serial.append {first second : List Code} (h : Serial first) (h' : Serial second) :
    Serial (first ++ second) := by
  intro c member
  rw [partsIn_append, List.mem_append] at member
  exact member.elim (h c) (h' c)

theorem Declares.serial {body : List Code} (h : Declares body) : Serial body := by
  intro c member
  rw [h.partsIn] at member
  obtain ⟨line, rfl⟩ := h c member
  rfl

theorem serial_texts {α : Type} (text : α → String) (xs : List α) :
    Serial (xs.map fun x => .statement (text x)) := by
  induction xs with
  | nil => exact serial_nil
  | cons x xs ih => exact List.forall_mem_cons.mpr ⟨rfl, ih⟩

theorem Serial.scope {body : List Code} (h : Serial body) : Serial [.scope body] := by
  simpa [Serial, isParallel] using h

theorem Serial.block {comment : String} {body : List Code} (h : Serial body) :
    Serial [.block comment body] := by
  simpa [Serial, isParallel] using h

theorem Serial.threaded {rank : Nat} {index : String} {size : Int} {body : List Code}
    (h : Serial body) : Serial [.threaded rank index size body] := by
  simpa [Serial, isParallel] using h

theorem Serial.indexSetting {rank : Nat} {value : String} {body : List Code}
    (h : Serial body) : Serial (.indexSetting rank value :: body) := by
  simpa [Serial, isParallel] using h

end Code

open Code (Serial)

namespace Dialect

variable {d : Dialect} {s : Scope}

theorem parallel_directive {l : Nest} (h : (d.directive s l).parallel = true) :
    l.head.rank = 0 ∧ (∀ t ∈ l.head.sweeps, t.instr.opcode.isAccumulate = false) ∧
      ∀ i ∈ s.keptFolds l, (d.combination? s i).isSome = true := by
  simp only [directive, Bool.and_eq_true, beq_iff_eq, Bool.not_eq_eq_eq_not, Bool.not_true,
    List.any_eq_false, Bool.not_eq_true, List.filterMap_length_eq_length] at h
  obtain ⟨⟨⟨-, rank⟩, scans⟩, combined⟩ := h
  exact ⟨rank, scans, combined⟩

theorem serial_statement {i : Instruction} {code : List Code} (h : d.statement s i = .ok code) :
    Serial code := by
  obtain ⟨-, rfl⟩ | ⟨text, -, rfl⟩ := statement_eq_ok h
  · exact Code.serial_nil
  · cases protection? s i <;> exact List.forall_mem_singleton.mpr rfl

theorem serial_loopBody {l : Nest} {parts : Scope → Except Fault (List Code)} {code : List Code}
    (serial : ∀ s' body, parts s' = .ok body → Serial body)
    (h : d.loopBody s l parts = .ok code) : Serial code := by
  obtain ⟨heading, body, declares, made, same⟩ := loopBody_split h
  have located : Serial (settings (named s l).2) := Code.serial_texts _ _
  have all := (declares.serial.append located).append (serial _ _ made)
  obtain rfl | rfl := same
  · exact all
  · exact all.scope

theorem serial_opening {l : Nest} {parts : Scope → Except Fault (List Code)} {code : List Code}
    (serial : ∀ s' body, parts s' = .ok body → Serial body)
    (h : d.opening s l parts = .ok code) : Serial code := by
  obtain ⟨-, rfl⟩ | ⟨-, body, made, rfl⟩ := opening_eq_ok h
  · exact Code.serial_nil
  · exact (serial_loopBody serial made).indexSetting.block

section Parallel

variable {l : Nest} {parts : Scope → Except Fault (List Code)} {code : List Code} {c : Code}
  (serial : ∀ s' body, parts s' = .ok body → Serial body) (member : c ∈ Code.partsIn code)
  (parallel : c.isParallel = true)

include serial member parallel

/-- Behind the opening iteration, only the loop itself may be run by several threads. -/
theorem parallel_remaining (h : d.remaining s l parts = .ok code) : ∃ body,
    c = .loop (d.directive s l) l.head.rank.toNat (firstIndex l) l.head.size body ∧
      d.loopBody (foldScope s l (d.guards s l)) l parts = .ok body := by
  obtain ⟨-, rfl⟩ | ⟨-, body, made, rfl⟩ := remaining_eq_ok h
  · contradiction
  · rw [Code.partsIn_loop, List.mem_cons] at member
    obtain rfl | inside := member
    · exact ⟨body, rfl, made⟩
    · exact (Code.not_mem_of_serial (serial_loopBody serial made) parallel inside).elim

/-- Of all loops in the code of a loop, only the loop itself may be run by several threads. -/
theorem parallel_loopCode (h : d.loopCode s l parts = .ok code) : ∃ body,
    c = .loop (d.directive s l) l.head.rank.toNat (firstIndex l) l.head.size body ∧
      d.loopBody (foldScope s l (d.guards s l)) l parts = .ok body := by
  have alone {body : List Code} (serial : Serial body) := Code.not_mem_of_serial serial parallel
  obtain ⟨-, rfl⟩ | ⟨-, ⟨-, index, body, made, rfl⟩ |
    ⟨-, declarations, opening, remaining, declared, opened, remained, same⟩⟩ := loopCode_eq_ok h
  · contradiction
  · exact (alone (serial_loopBody serial made).threaded member).elim
  have first : Serial opening := serial_opening serial opened
  have stored : Serial (d.results s (keptOutputs s l)) := Code.serial_texts _ _
  have inside : c ∈ Code.partsIn remaining := by
    rw [same] at member
    split at member
    · rw [Code.partsIn_append, List.mem_append] at member
      exact member.resolve_left (alone first)
    · rw [Code.partsIn_block, List.mem_cons] at member
      obtain rfl | member := member
      · contradiction
      simp only [Code.partsIn_append, List.mem_append] at member
      obtain ((member | member) | member) | member := member
      · exact (alone declared.serial member).elim
      · exact (alone first member).elim
      · exact member
      · exact (alone stored member).elim
  exact parallel_remaining serial inside parallel remained

end Parallel

mutual

/-- Only loops of rank 0 are run by several threads. -/
theorem serial_nodeCode : (n : Node) → {s : Scope} → {code : List Code} →
    (∀ l ∈ n.nests, l.head.rank ≠ 0) → d.nodeCode s n = .ok code → Serial code
  | .leaf _ _, _, _, _, h => serial_statement h
  | .loop head body, s, code, deep, h => by
    intro c member
    rw [Node.nests, List.forall_mem_cons] at deep
    have serial : ∀ s' code, d.bodyCode s' body = .ok code → Serial code :=
      fun _ _ made => serial_bodyCode body deep.2 made
    by_contra parallel
    rw [Bool.not_eq_false] at parallel
    obtain ⟨inner, rfl, -⟩ := parallel_loopCode serial member parallel h
    exact deep.1 (parallel_directive parallel).1

theorem serial_bodyCode : (body : List Node) → {s : Scope} → {code : List Code} →
    (∀ l ∈ Node.bodyNests body, l.head.rank ≠ 0) → d.bodyCode s body = .ok code → Serial code
  | [], _, _, _, h => by
    cases h
    exact Code.serial_nil
  | n :: body, s, code, deep, h => by
    rw [Node.bodyNests, List.forall_mem_append] at deep
    obtain ⟨first, made, h⟩ := exists_of_bind_eq_ok h
    obtain ⟨rest, made', h⟩ := exists_of_bind_eq_ok h
    cases h
    exact (serial_nodeCode n deep.1 made).append (serial_bodyCode body deep.2 made')

end

end Dialect

end ArrayFusion
