import ArrayFusion.Program.Partition
import Mathlib.Data.List.Forall2
import Mathlib.Data.List.Chain
import Mathlib.Data.List.Induction

/-!
# What the partitions of a program satisfy

The statements are cut into stretches first, then the frees that were put off are placed one by
one. What a cut gives is proved by following the statements, with the statements and the written
bases of the stretch so far; what placing a free keeps is read off `Places`, the one way in which a
free changes the stretches.
-/

namespace ArrayFusion

namespace Instruction

variable {i : Instruction} {b : BaseId}

theorem mentions_iff : i.mentions b = true ↔ b ∈ i.bases ∨ b ∈ i.indexBases := by
  rw [mentions, Bool.or_eq_true, List.contains_iff_mem, List.contains_iff_mem]

theorem mem_indexReads_of_mem_indexBases (h : b ∈ i.indexBases) : b ∈ i.indexReads := by
  rw [indexReads]
  split
  · split
    · exact BaseSet.mem_insert.2 (.inr h)
    · exact h
  · exact h

/-- Index arrays and the index operand of an indirect operation are mentioned. -/
theorem mentions_of_mem_indexReads (h : b ∈ i.indexReads) : i.mentions b = true := by
  have pointers : b ∈ i.indexBases → i.mentions b = true := fun h => mentions_iff.2 (.inr h)
  rw [indexReads] at h
  split at h
  · split at h
    next c operand =>
      rcases BaseSet.mem_insert.1 h with rfl | h
      · obtain ⟨v, hv, base⟩ := Option.bind_eq_some_iff.1 operand
        have member : b ∈ i.bases := by
          simpa [bases] using ⟨v, List.mem_of_getElem? hv, base⟩
        exact mentions_iff.2 (.inl member)
      · exact pointers h
    · exact pointers h
  · exact pointers h

theorem mem_bases_of_outputBase (h : i.outputBase? = some b) : b ∈ i.bases := by
  obtain ⟨v, hv, base⟩ := Option.bind_eq_some_iff.1 h
  simpa [bases] using ⟨v, List.mem_of_mem_head? hv, base⟩

end Instruction

namespace Stretch

variable {index : BaseSet} {ss : List Statement} {parts parts' : List (List Statement)}
  {free : Statement}

theorem touches_iff {bs : BaseSet} {s : Statement} :
    touches bs s = true ↔ ∃ b ∈ bs, s.instr.mentions b = true := by
  have either : ∀ b, b ∈ s.instr.bases ∨ b ∈ s.instr.indexReads ↔ s.instr.mentions b = true := by
    intro b
    constructor
    · rintro (operand | read)
      · exact Instruction.mentions_iff.2 (.inl operand)
      · exact Instruction.mentions_of_mem_indexReads read
    · intro mentioned
      exact (Instruction.mentions_iff.1 mentioned).imp_right
        Instruction.mem_indexReads_of_mem_indexBases
  rw [touches, BaseSet.meets_iff]
  constructor
  · rintro ⟨b, member, hb⟩
    exact ⟨b, hb, (either b).1 (BaseSet.mem_union.1 member)⟩
  · rintro ⟨b, hb, mentioned⟩
    exact ⟨b, BaseSet.mem_union.2 ((either b).2 mentioned), hb⟩

theorem touches_eq_false_iff {bs : BaseSet} {s : Statement} :
    touches bs s = false ↔ ∀ b ∈ bs, s.instr.mentions b = false := by
  rw [← Bool.not_eq_true, touches_iff]
  simp

/-- Only frees are put off. -/
theorem opcode_of_isDeferred {s : Statement} (h : isDeferred index s = true) :
    s.instr.opcode = .free := by
  rw [isDeferred, Bool.and_eq_true] at h
  simpa using h.1

/-! ## Cutting -/

/-- The second statement is not addressed by the output of the first. -/
def NotAddressed (s t : Statement) : Prop := ∀ b ∈ s.instr.outputBase?, b ∉ t.instr.indexReads

/-- A later stretch starts with a statement that the output of a statement before it addresses. -/
def Opens (index : BaseSet) (p q : List Statement) : Prop :=
  ∃ t ∈ q.head?, ∃ s ∈ p, isDeferred index s = false ∧
    ∃ b ∈ s.instr.outputBase?, b ∈ t.instr.indexReads

/-- The set holds the outputs of the statements that address arrays somewhere. -/
def Written (index : BaseSet) (current : List Statement) (written : BaseSet) : Prop :=
  ∀ b, b ∈ written ↔ b ∈ index ∧ ∃ s ∈ current, b ∈ s.instr.outputBase?

theorem written_singleton (s : Statement) :
    Written index [s] (.ofList (s.instr.outputBase?.toList.filter (index.contains ·))) := by
  intro b
  simp [and_comm]

theorem Written.cons {current : List Statement} {written : BaseSet}
    (h : Written index current written) (s : Statement) :
    Written index (s :: current)
      (written.union (s.instr.outputBase?.toList.filter (index.contains ·))) := by
  intro b
  rw [BaseSet.mem_union, h b]
  simp only [List.mem_filter, List.contains_iff_mem, Option.mem_toList, List.exists_mem_cons_iff,
    Option.mem_def]
  rw [and_comm (b := b ∈ index), ← and_or_left, or_comm]

/-- The stretch that is being built is the front of the first stretch. -/
theorem cut_eq_cons (index : BaseSet) (current : List Statement) (written : BaseSet)
    (body : List Statement) :
    ∃ part parts, cut index current written body = part :: parts ∧ current.reverse <+: part := by
  induction body generalizing current written with
  | nil => exact ⟨_, [], rfl, List.prefix_rfl⟩
  | cons s rest ih =>
    rw [cut]
    split
    · exact ⟨_, _, rfl, List.prefix_rfl⟩
    · obtain ⟨part, parts, same, front⟩ := ih (s :: current) _
      refine ⟨part, parts, same, List.IsPrefix.trans ?_ front⟩
      simp

theorem notAddressed_cut {current : List Statement} {written : BaseSet} {body : List Statement}
    (known : ∀ t ∈ body, ∀ b ∈ t.instr.indexReads, b ∈ index)
    (so_far : Written index current written) (front : current.reverse.Pairwise NotAddressed) :
    ∀ part ∈ cut index current written body, part.Pairwise NotAddressed := by
  induction body generalizing current written with
  | nil => simpa [cut] using front
  | cons s rest ih =>
    obtain ⟨first, later⟩ := List.forall_mem_cons.1 known
    rw [cut]
    split
    next addressed =>
      refine List.forall_mem_cons.2 ⟨front, ih later (written_singleton s) ?_⟩
      exact List.pairwise_singleton _ s
    next unaddressed =>
      refine ih later (so_far.cons s) ?_
      rw [List.reverse_cons]
      refine List.pairwise_append.2 ⟨front, List.pairwise_singleton _ s, ?_⟩
      rintro r hr t ht b output read
      obtain rfl := List.mem_singleton.1 ht
      refine unaddressed (BaseSet.meets_iff.2 ⟨b, read, (so_far b).2 ⟨first b read, r, ?_, output⟩⟩)
      exact List.mem_reverse.1 hr

theorem opens_cut {current : List Statement} {written : BaseSet} {body : List Statement}
    (kept : ∀ t ∈ current ++ body, isDeferred index t = false)
    (so_far : Written index current written) :
    (cut index current written body).IsChain (Opens index) := by
  induction body generalizing current written with
  | nil => exact List.isChain_singleton _
  | cons s rest ih =>
    rw [cut]
    split
    next addressed =>
      obtain ⟨b, read, member⟩ := BaseSet.meets_iff.1 addressed
      obtain ⟨-, t, ht, output⟩ := (so_far b).1 member
      have chain := ih (fun t ht => kept t (by simp at ht ⊢; tauto)) (written_singleton s)
      obtain ⟨part, parts, same, front⟩ := cut_eq_cons index [s]
        (.ofList (s.instr.outputBase?.toList.filter (index.contains ·))) rest
      rw [same] at chain ⊢
      refine List.isChain_cons_cons.2 ⟨⟨s, ?_, t, ?_, ?_, b, output, read⟩, chain⟩
      · obtain ⟨tail, rfl⟩ := front
        rfl
      · exact List.mem_reverse.2 ht
      · exact kept t (List.mem_append_left _ ht)
    next unaddressed =>
      exact ih (fun t ht => kept t (by simp at ht ⊢; tauto)) (so_far.cons s)

/-! ## Placing frees -/

/-- How one free is put into the stretches: behind the last statement that mentions one of its
bases, or at the end if there is none. -/
inductive Places (free : Statement) : List (List Statement) → List (List Statement) → Prop
  | behind {pre after : List Statement} {s : Statement} (done rest : List (List Statement))
      (mentions : touches free.instr.bases s = true)
      (last : ∀ t ∈ after ++ rest.flatten, touches free.instr.bases t = false) :
      Places free (done ++ (pre ++ s :: after) :: rest)
        (done ++ (pre ++ s :: free :: after) :: rest)
  | atEnd {part : List Statement} (done : List (List Statement))
      (nowhere : ∀ t ∈ done.flatten ++ part, touches free.instr.bases t = false) :
      Places free (done ++ [part]) (done ++ [part ++ [free]])

theorem insertAfterLast_eq_none {bs : BaseSet} {part : List Statement}
    (h : insertAfterLast bs free part = none) : ∀ s ∈ part, touches bs s = false := by
  induction part with
  | nil => simp
  | cons s rest ih =>
    rw [insertAfterLast] at h
    split at h
    · contradiction
    next none =>
      split at h
      · contradiction
      next untouched => exact List.forall_mem_cons.2 ⟨by simpa using untouched, ih none⟩

theorem insertAfterLast_eq_some {bs : BaseSet} {part part' : List Statement}
    (h : insertAfterLast bs free part = some part') :
    ∃ pre s after, part = pre ++ s :: after ∧ part' = pre ++ s :: free :: after ∧
      touches bs s = true ∧ ∀ t ∈ after, touches bs t = false := by
  induction part generalizing part' with
  | nil => contradiction
  | cons s rest ih =>
    rw [insertAfterLast] at h
    split at h
    next rest' found =>
      obtain ⟨pre, t, after, rfl, rfl, mentions, last⟩ := ih found
      cases h
      exact ⟨s :: pre, t, after, rfl, rfl, mentions, last⟩
    next none =>
      split at h
      next mentions =>
        cases h
        exact ⟨[], s, rest, rfl, rfl, mentions, insertAfterLast_eq_none none⟩
      · contradiction

theorem placeFree?_eq_none {bs : BaseSet} (h : placeFree? bs free parts = none) :
    ∀ t ∈ parts.flatten, touches bs t = false := by
  induction parts with
  | nil => simp
  | cons part parts ih =>
    rw [placeFree?] at h
    split at h
    · contradiction
    next none =>
      intro t ht
      rcases List.mem_append.1 (List.flatten_cons ▸ ht) with ht | ht
      · exact insertAfterLast_eq_none (Option.map_eq_none_iff.1 h) t ht
      · exact ih none t ht

theorem placeFree?_eq_some {bs : BaseSet} (h : placeFree? bs free parts = some parts') :
    ∃ done pre s after rest, parts = done ++ (pre ++ s :: after) :: rest ∧
      parts' = done ++ (pre ++ s :: free :: after) :: rest ∧ touches bs s = true ∧
      ∀ t ∈ after ++ rest.flatten, touches bs t = false := by
  induction parts generalizing parts' with
  | nil => contradiction
  | cons part parts ih =>
    rw [placeFree?] at h
    split at h
    next found =>
      cases h
      obtain ⟨done, pre, s, after, rest, rfl, rfl, mentions, last⟩ := ih found
      exact ⟨part :: done, pre, s, after, rest, rfl, rfl, mentions, last⟩
    next none =>
      obtain ⟨part', found, rfl⟩ := Option.map_eq_some_iff.1 h
      obtain ⟨pre, s, after, rfl, rfl, mentions, last⟩ := insertAfterLast_eq_some found
      refine ⟨[], pre, s, after, parts, rfl, rfl, mentions, fun t ht => ?_⟩
      rcases List.mem_append.1 ht with ht | ht
      · exact last t ht
      · exact placeFree?_eq_none none t ht

theorem appendLast_concat (free : Statement) (done : List (List Statement))
    (part : List Statement) : appendLast free (done ++ [part]) = done ++ [part ++ [free]] := by
  induction done with
  | nil => rfl
  | cons p done ih =>
    rw [List.cons_append, appendLast, ih]
    · rfl
    · simp

theorem places_placeFree (nonempty : parts ≠ []) (free : Statement) :
    Places free parts (placeFree parts free) := by
  rw [placeFree]
  cases found : placeFree? free.instr.bases free parts with
  | some parts' =>
    obtain ⟨done, pre, s, after, rest, rfl, rfl, mentions, last⟩ := placeFree?_eq_some found
    exact .behind done rest mentions last
  | none =>
    obtain ⟨done, part, rfl⟩ := (List.eq_nil_or_concat' parts).resolve_left nonempty
    rw [Option.getD_none, appendLast_concat]
    refine .atEnd done fun t ht => placeFree?_eq_none found t ?_
    simpa using ht

namespace Places

/-- The free is put in front of statements that do not mention its bases. -/
theorem split (h : Places free parts parts') : ∃ before after : List Statement,
    parts.flatten = before ++ after ∧ parts'.flatten = before ++ free :: after ∧
      ∀ t ∈ after, touches free.instr.bases t = false := by
  cases h with
  | @behind pre after s done rest mentions last =>
    exact ⟨done.flatten ++ (pre ++ [s]), after ++ rest.flatten, by simp, by simp, last⟩
  | @atEnd part done nowhere => exact ⟨done.flatten ++ part, [], by simp, by simp, by simp⟩

theorem perm (h : Places free parts parts') : parts'.flatten.Perm (free :: parts.flatten) := by
  obtain ⟨before, after, same, same', -⟩ := h.split
  rw [same, same']
  exact List.perm_middle

theorem ne_nil (h : Places free parts parts') : parts' ≠ [] := by
  cases h <;> simp

/-- Every stretch keeps its statements in their order, and the first of them stays the first. -/
theorem grows (h : Places free parts parts') :
    List.Forall₂ (fun p p' => p.Sublist p' ∧ ∀ t ∈ p.head?, t ∈ p'.head?) parts parts' := by
  have same : ∀ ps : List (List Statement),
      List.Forall₂ (fun p p' => p.Sublist p' ∧ ∀ t ∈ p.head?, t ∈ p'.head?) ps ps := fun ps =>
    List.forall₂_same.2 fun p _ => ⟨List.Sublist.refl p, fun _ ht => ht⟩
  cases h with
  | @behind pre after s done rest mentions last =>
    refine List.rel_append (same done) (.cons ⟨?_, ?_⟩ (same rest))
    · exact List.Sublist.append_left (.cons_cons s (List.sublist_cons_self free after)) pre
    · cases pre <;> simp
  | @atEnd part done nowhere =>
    refine List.rel_append (same done) (.cons ⟨List.sublist_append_left part _, ?_⟩ .nil)
    cases part <;> simp

theorem isChain_opens (h : Places free parts parts') (chain : parts.IsChain (Opens index)) :
    parts'.IsChain (Opens index) := by
  have grows := h.grows
  clear h
  induction grows with
  | nil => exact chain
  | @cons p p' ps ps' grow rest ih =>
    cases rest with
    | nil => exact List.isChain_singleton _
    | @cons q q' ps ps' grow' rest =>
      obtain ⟨⟨t, ht, s, hs, opens⟩, chain⟩ := List.isChain_cons_cons.1 chain
      exact List.isChain_cons_cons.2
        ⟨⟨t, grow'.2 t ht, s, grow.1.subset hs, opens⟩, ih chain⟩

/-- The stretches stay the same, but for the one with the free in it. There the statement in front
of the free mentions its bases, unless no statement does. -/
theorem mem_cases (h : Places free parts parts') {part : List Statement} (member : part ∈ parts') :
    part ∈ parts ∨ ∃ pre after, pre ++ after ∈ parts ∧ part = pre ++ free :: after ∧
      (∀ t ∈ after, touches free.instr.bases t = false) ∧
      ((∃ front s, pre = front ++ [s] ∧ touches free.instr.bases s = true) ∨
        ∀ t ∈ parts.flatten, touches free.instr.bases t = false) := by
  cases h with
  | @behind pre after s done rest mentions last =>
    rcases List.mem_append.1 member with old | new
    · exact .inl (List.mem_append_left _ old)
    rcases List.mem_cons.1 new with rfl | old
    · refine .inr ⟨pre ++ [s], after, by simp, by simp, ?_, .inl ⟨pre, s, rfl, mentions⟩⟩
      exact fun t ht => last t (List.mem_append_left _ ht)
    · exact .inl (List.mem_append_right _ (List.mem_cons_of_mem _ old))
  | @atEnd part' done nowhere =>
    rcases List.mem_append.1 member with old | new
    · exact .inl (List.mem_append_left _ old)
    · obtain rfl := List.mem_singleton.1 new
      refine .inr ⟨part', [], by simp, rfl, by simp, .inr fun t ht => nowhere t ?_⟩
      simpa using ht

end Places

/-- A place in a list with one more member is in front of this member, behind it or its own. -/
theorem eq_or_split {pre rest front after : List Statement} {f g : Statement}
    (h : pre ++ g :: rest = front ++ f :: after) :
    (∃ between, pre = front ++ f :: between) ∨ (front = pre ∧ f = g) ∨
      ∃ between, front = pre ++ g :: between ∧ rest = between ++ f :: after := by
  rcases List.append_eq_append_iff.1 h with ⟨between, rfl, same⟩ | ⟨between, rfl, same⟩
  · cases between with
    | nil => exact .inr (.inl ⟨by simp, (List.cons.inj same).1.symm⟩)
    | cons u between =>
      obtain ⟨rfl, rfl⟩ := List.cons.inj same
      exact .inr (.inr ⟨between, rfl, rfl⟩)
  · cases between with
    | nil => exact .inr (.inl ⟨by simp, (List.cons.inj same).1⟩)
    | cons u between =>
      obtain ⟨rfl, -⟩ := List.cons.inj same
      exact .inl ⟨between, rfl⟩

/-- The statements in front of a moved free end in one that mentions its bases and other moved
frees. -/
def Behind (index : BaseSet) (free : Statement) (front : List Statement) : Prop :=
  ∃ pre s frees, front = pre ++ s :: frees ∧ touches free.instr.bases s = true ∧
    ∀ u ∈ frees, isDeferred index u = true

theorem Behind.insert {f g : Statement} {front after : List Statement}
    (h : Behind index f (front ++ after)) (moved : isDeferred index g = true) :
    Behind index f (front ++ g :: after) := by
  obtain ⟨pre, s, frees, same, mentions, all⟩ := h
  rcases List.append_eq_append_iff.1 same with ⟨between, rfl, rfl⟩ | ⟨between, rfl, rest⟩
  · exact ⟨front ++ g :: between, s, frees, by simp, mentions, all⟩
  · cases between with
    | nil => exact ⟨pre ++ [g], s, frees, by simpa using rest.symm, mentions, all⟩
    | cons t between =>
      obtain ⟨rfl, rfl⟩ := List.cons.inj rest
      refine ⟨pre, s, between ++ g :: after, by simp, mentions, fun u hu => ?_⟩
      rcases List.mem_append.1 hu with hu | hu
      · exact all u (List.mem_append_left _ hu)
      · rcases List.mem_cons.1 hu with rfl | hu
        · exact moved
        · exact all u (List.mem_append_right _ hu)

/-- No stretch writes a base and then uses it to address arrays, but for moved frees. -/
def Exact (index : BaseSet) (parts : List (List Statement)) : Prop :=
  ∀ part ∈ parts, part.Pairwise fun s t => isDeferred index t = false → NotAddressed s t

/-- A moved free stands right behind a mention of its bases, unless it alone mentions them. -/
def AllBehind (index : BaseSet) (parts : List (List Statement)) : Prop :=
  ∀ part ∈ parts, ∀ front f after, part = front ++ f :: after → isDeferred index f = true →
    ∀ t ∈ parts.flatten, t ≠ f → touches f.instr.bases t = true → Behind index f front

theorem exact_of_pairwise (exact : ∀ part ∈ parts, part.Pairwise NotAddressed) :
    Exact index parts := by
  intro part member
  refine (exact part member).imp ?_
  intro s t unaddressed _
  exact unaddressed

/-- What follows a placed free does not mention its output. -/
theorem Exact.places {g : Statement} (h : Exact index parts) (placed : Places g parts parts')
    (moved : isDeferred index g = true) : Exact index parts' := by
  intro part member
  rcases placed.mem_cases member with old | ⟨pre, after, old, rfl, untouched, -⟩
  · exact h part old
  have ⟨front, back, across⟩ := List.pairwise_append.1 (h _ old)
  refine List.pairwise_append.2 ⟨front, List.pairwise_cons.2 ⟨?_, back⟩, ?_⟩
  · intro t ht _ b output read
    have mentioned : t.instr.mentions b = true := Instruction.mentions_of_mem_indexReads read
    have unmentioned := touches_eq_false_iff.1 (untouched t ht) b
      (Instruction.mem_bases_of_outputBase output)
    exact Bool.noConfusion (mentioned.symm.trans unmentioned)
  · intro s hs t ht
    rcases List.mem_cons.1 ht with rfl | ht
    · exact fun kept => absurd moved (by simp [kept])
    · exact across s hs t ht

/-- What holds of a free and any statement that does not mention its bases, and of moved frees in
their order, holds of every moved free and the statements behind it. -/
theorem Places.pairwise {g : Statement} {R : Statement → Statement → Prop}
    (placed : Places g parts parts')
    (apart : ∀ t, touches g.instr.bases t = false → R g t)
    (fresh : ∀ f ∈ parts.flatten, isDeferred index f = true → R f g)
    (h : parts.flatten.Pairwise fun f t => isDeferred index f = true → R f t) :
    parts'.flatten.Pairwise fun f t => isDeferred index f = true → R f t := by
  obtain ⟨before, after, same, same', untouched⟩ := placed.split
  rw [same']
  have ⟨front, back, across⟩ := List.pairwise_append.1 (same ▸ h)
  refine List.pairwise_append.2 ⟨front, List.pairwise_cons.2 ⟨?_, back⟩, ?_⟩
  · exact fun t ht _ => apart t (untouched t ht)
  · intro f hf t ht
    rcases List.mem_cons.1 ht with rfl | ht
    · exact fresh f (by simp [same, hf])
    · exact across f hf t ht

/-- A free that mentions no base of the frees before it is placed behind all mentions. -/
theorem AllBehind.places {g : Statement} (h : AllBehind index parts)
    (placed : Places g parts parts') (moved : isDeferred index g = true)
    (fresh : ∀ f ∈ parts.flatten, isDeferred index f = true → touches f.instr.bases g = false) :
    AllBehind index parts' := by
  intro part member front f after same movedF t ht different mentions
  -- A free that was there before is not the new one and is not mentioned by it.
  have old : f ∈ parts.flatten → t ∈ parts.flatten := by
    intro hf
    rcases List.mem_cons.1 (placed.perm.subset ht) with rfl | ht
    · exact absurd mentions (by simp [fresh f hf movedF])
    · exact ht
  have kept {p} (hp : p ∈ parts) {front after} (same : p = front ++ f :: after) :
      Behind index f front := by
    refine h p hp front f after same movedF t (old ?_) different mentions
    exact List.mem_flatten.2 ⟨p, hp, by simp [same]⟩
  rcases placed.mem_cases member with old | ⟨pre, rest, hp, rfl, -, inFront⟩
  · exact kept old same
  rcases eq_or_split same with ⟨between, rfl⟩ | ⟨rfl, rfl⟩ | ⟨between, rfl, rfl⟩
  · exact kept hp (List.append_assoc _ _ _)
  · rcases inFront with ⟨front, s, rfl, mentions⟩ | nowhere
    · exact ⟨front, s, [], rfl, mentions, by simp⟩
    · rcases List.mem_cons.1 (placed.perm.subset ht) with rfl | ht
      · exact absurd rfl different
      · exact absurd mentions (by simp [nowhere t ht])
  · exact (kept hp (List.append_assoc _ _ _).symm).insert moved

/-! ## The partitions -/

/-- No statement mentions a base that a statement before it frees. -/
def UnmentionedAfterFree (ss : List Statement) : Prop :=
  ss.Pairwise fun f t => f.instr.opcode = .free → ∀ b ∈ f.instr.bases, t.instr.mentions b = false

instance (ss : List Statement) : Decidable (UnmentionedAfterFree ss) :=
  inferInstanceAs (Decidable (ss.Pairwise fun f t =>
    f.instr.opcode = .free → ∀ b ∈ f.instr.bases, t.instr.mentions b = false))

variable {body : List Statement}

theorem UnmentionedAfterFree.touches (h : UnmentionedAfterFree ss) (index : BaseSet) :
    ss.Pairwise fun f t => isDeferred index f = true → touches f.instr.bases t = false := by
  refine List.Pairwise.imp ?_ h
  intro f t unmentioned moved
  exact touches_eq_false_iff.2 (unmentioned (opcode_of_isDeferred moved))

theorem mem_indexBases {t : Statement} (member : t ∈ body) {b : BaseId}
    (read : b ∈ t.instr.indexReads) : b ∈ indexBases body :=
  BaseSet.mem_unions.2 ⟨_, List.mem_map_of_mem member, read⟩

/-- The statements that are not put off. -/
def kept (body : List Statement) : List Statement :=
  body.filter (!isDeferred (indexBases body) ·)

theorem isDeferred_of_mem_kept {s : Statement} (h : s ∈ kept body) :
    isDeferred (indexBases body) s = false := by
  simpa using (List.mem_filter.1 h).2

/-- The stretches of a program before the frees are placed. -/
def stretches (body : List Statement) : List (List Statement) :=
  cut (indexBases body) [] [] (kept body)

theorem flatten_stretches (body : List Statement) : (stretches body).flatten = kept body := by
  rw [stretches, flatten_cut]
  rfl

theorem pairwise_stretches (body : List Statement) :
    ∀ part ∈ stretches body, part.Pairwise NotAddressed := by
  refine notAddressed_cut (fun t ht b read => ?_) (fun b => by simp) .nil
  exact mem_indexBases (List.mem_of_mem_filter ht) read

theorem isChain_stretches (body : List Statement) :
    (stretches body).IsChain (Opens (indexBases body)) :=
  opens_cut (fun _ ht => isDeferred_of_mem_kept ht) (fun b => by simp)

/-- Placing frees keeps what one placed free keeps. -/
theorem foldl_placeFree {P : List (List Statement) → Prop} {frees : List Statement}
    (nonempty : parts ≠ []) (start : P parts)
    (step : ∀ free ∈ frees, ∀ ps ps', Places free ps ps' → P ps → P ps') :
    P (frees.foldl placeFree parts) := by
  induction frees generalizing parts with
  | nil => exact start
  | cons free frees ih =>
    have placed := places_placeFree nonempty free
    have ⟨first, later⟩ := List.forall_mem_cons.1 step
    exact ih placed.ne_nil (first _ _ placed start) later

theorem perm_foldl_placeFree (nonempty : parts ≠ []) (frees : List Statement) :
    (frees.foldl placeFree parts).flatten.Perm (frees ++ parts.flatten) := by
  induction frees generalizing parts with
  | nil => exact .refl _
  | cons free frees ih =>
    have placed := places_placeFree nonempty free
    calc (frees.foldl placeFree (placeFree parts free)).flatten
      _ |>.Perm (frees ++ (placeFree parts free).flatten) := ih placed.ne_nil
      _ |>.Perm (frees ++ free :: parts.flatten) := placed.perm.append_left frees
      _ |>.Perm (free :: (frees ++ parts.flatten)) := List.perm_middle

/-- Frees are placed one after the other, among the statements that are kept and the frees before
them. -/
theorem foldl_placeFree_of_fresh {P : List (List Statement) → Prop}
    {R : Statement → Statement → Prop} {frees : List Statement} (nonempty : parts ≠ [])
    (start : P parts)
    (unmoved : ∀ s ∈ parts.flatten, isDeferred index s = false) (fresh : frees.Pairwise R)
    (step : ∀ g ∈ frees, ∀ ps ps', Places g ps ps' →
      (∀ f ∈ ps.flatten, isDeferred index f = true → R f g) → P ps → P ps') :
    P (frees.foldl placeFree parts) := by
  induction frees using List.reverseRecOn with
  | nil => exact start
  | append_singleton frees g ih =>
    obtain ⟨front, -, last⟩ := List.pairwise_append.1 fresh
    have before := ih front fun f hf => step f (List.mem_append_left _ hf)
    rw [List.foldl_append, List.foldl_cons, List.foldl_nil]
    have nonempty' : frees.foldl placeFree parts ≠ [] :=
      foldl_placeFree nonempty nonempty fun _ _ _ _ placed _ => placed.ne_nil
    refine step g (by simp) _ _ (places_placeFree nonempty' g) (fun f hf moved => ?_) before
    rcases List.mem_append.1 ((perm_foldl_placeFree nonempty frees).subset hf) with hf | hf
    · exact last f hf g (List.mem_singleton_self g)
    · exact absurd moved (by simp [unmoved f hf])

theorem stretches_ne_nil (body : List Statement) : stretches body ≠ [] := cut_ne_nil _ _ _ _

theorem partitions_eq (body : List Statement) : partitions body =
    (body.filter (isDeferred (indexBases body))).foldl placeFree (stretches body) := rfl

theorem perm_partitions (body : List Statement) : (partitions body).flatten.Perm body := by
  calc (partitions body).flatten
    _ |>.Perm (body.filter (isDeferred (indexBases body)) ++ (stretches body).flatten) :=
      perm_foldl_placeFree (stretches_ne_nil body) _
    _ |>.Perm body := by
      rw [flatten_stretches]
      exact List.filter_append_perm _ body

/-- Statements that are not put off stay in their order. -/
theorem filter_partitions (body : List Statement) :
    (partitions body).flatten.filter (!isDeferred (indexBases body) ·) = kept body := by
  rw [partitions_eq]
  refine foldl_placeFree (P := fun ps => ps.flatten.filter (!isDeferred (indexBases body) ·) =
    kept body) (stretches_ne_nil body) ?_ ?_
  · rw [flatten_stretches, kept, List.filter_filter]
    simp
  · intro free hfree ps ps' placed same
    obtain ⟨before, after, split, split', -⟩ := placed.split
    have moved := (List.mem_filter.1 hfree).2
    rw [split, List.filter_append] at same
    rw [split', List.filter_append, List.filter_cons_of_neg (by simp [moved]), same]

theorem exact_partitions (body : List Statement) : Exact (indexBases body) (partitions body) :=
  foldl_placeFree (stretches_ne_nil body) (exact_of_pairwise (pairwise_stretches body))
    fun _ hg _ _ placed exact => exact.places placed (List.mem_filter.1 hg).2

theorem isDeferred_of_mem_stretches {s : Statement} (h : s ∈ (stretches body).flatten) :
    isDeferred (indexBases body) s = false :=
  isDeferred_of_mem_kept (flatten_stretches body ▸ h)

/-- Moved frees among themselves stay in an order that is as good as that of the program. -/
theorem pairwise_partitions {R : Statement → Statement → Prop}
    (apart : ∀ f t, touches f.instr.bases t = false → R f t)
    (fresh : body.Pairwise fun f g => isDeferred (indexBases body) f = true →
      isDeferred (indexBases body) g = true → R f g) :
    (partitions body).flatten.Pairwise fun f t =>
      isDeferred (indexBases body) f = true → R f t := by
  refine foldl_placeFree_of_fresh (R := R)
    (P := fun ps => ps.flatten.Pairwise fun f t => isDeferred (indexBases body) f = true → R f t)
    (stretches_ne_nil body) ?_ (fun _ => isDeferred_of_mem_stretches) (List.pairwise_filter.2 fresh)
    fun g _ _ _ placed fresh => placed.pairwise (apart g) fresh
  refine List.Pairwise.imp_of_mem (R := fun _ _ => True) ?_
    (List.pairwise_of_forall fun _ _ => trivial)
  intro f t hf _ _ moved
  exact absurd moved (by simp [isDeferred_of_mem_stretches hf])

theorem allBehind_partitions (freed : UnmentionedAfterFree body) :
    AllBehind (indexBases body) (partitions body) := by
  refine foldl_placeFree_of_fresh
    (R := fun f g => touches f.instr.bases g = false)
    (stretches_ne_nil body) ?_ (fun _ => isDeferred_of_mem_stretches) ?_
    fun g hg _ _ placed fresh behind => behind.places placed (List.mem_filter.1 hg).2 fresh
  · intro part member front f after same moved
    have hf : f ∈ (stretches body).flatten := List.mem_flatten.2 ⟨part, member, by simp [same]⟩
    exact absurd moved (by simp [isDeferred_of_mem_stretches hf])
  · refine List.pairwise_filter.2 ((freed.touches (indexBases body)).imp ?_)
    intro f g untouched moved _
    exact untouched moved

theorem isChain_partitions (body : List Statement) :
    (partitions body).IsChain (Opens (indexBases body)) :=
  foldl_placeFree (stretches_ne_nil body) (isChain_stretches body)
    fun _ _ _ _ placed chain => placed.isChain_opens chain

/-- What the partitions of a program are to satisfy. -/
structure Splits (body : List Statement) (parts : List (List Statement)) : Prop where
  /-- Every statement of the program stands in one place of one stretch. -/
  perm : parts.flatten.Perm body
  /-- Only frees of bases that address arrays are moved. -/
  order : parts.flatten.filter (!isDeferred (indexBases body) ·) =
    body.filter (!isDeferred (indexBases body) ·)
  /-- No stretch writes a base and then uses it to address arrays, but for the moved frees. -/
  exact : ∀ part ∈ parts, part.Pairwise fun s t => isDeferred (indexBases body) t = false →
    ∀ b ∈ s.instr.outputBase?, b ∉ t.instr.indexReads
  /-- Every later stretch starts with a use of a base that the stretch before it writes. -/
  needed : parts.IsChain fun p q => ∃ t ∈ q.head?, ∃ s ∈ p,
    isDeferred (indexBases body) s = false ∧ ∃ b ∈ s.instr.outputBase?, b ∈ t.instr.indexReads
  /-- A moved free comes after all statements that mention its bases. -/
  last : parts.flatten.Pairwise fun f t => isDeferred (indexBases body) f = true →
    ∀ b ∈ f.instr.bases, t.instr.mentions b = false
  /-- If there are such statements, only moved frees stand between the last of them and the
  free. -/
  behind : ∀ part ∈ parts, ∀ front f after, part = front ++ f :: after →
    isDeferred (indexBases body) f = true →
    (∃ t ∈ body, t ≠ f ∧ ∃ b ∈ f.instr.bases, t.instr.mentions b = true) →
    ∃ pre s frees, front = pre ++ s :: frees ∧
      (∃ b ∈ f.instr.bases, s.instr.mentions b = true) ∧
      ∀ u ∈ frees, isDeferred (indexBases body) u = true

/-- The partitions of a program in which no statement mentions a freed base are what they are to
be, for all statements but the moved frees themselves: these may stand behind a statement that
writes one of their own index arrays. -/
theorem partitions_split {body : List Statement} (freed : UnmentionedAfterFree body) :
    Splits body (partitions body) where
  perm := perm_partitions body
  order := filter_partitions body
  exact := exact_partitions body
  needed := isChain_partitions body
  last := by
    refine pairwise_partitions (fun f t => touches_eq_false_iff.1)
      ((freed.touches (indexBases body)).imp ?_)
    intro f g untouched moved _
    exact touches_eq_false_iff.1 (untouched moved)
  behind := by
    rintro part member front f after same moved ⟨t, ht, different, mentions⟩
    obtain ⟨pre, s, frees, rfl, touched, all⟩ := allBehind_partitions freed part member front
      f after same moved t ((perm_partitions body).mem_iff.2 ht) different (touches_iff.2 mentions)
    exact ⟨pre, s, frees, rfl, touches_iff.1 touched, all⟩

/-- The start of a copied window is written, read and freed. The free moves in front of the copy
that does not use it. -/
theorem partitions_split_window :
    let window : View := { View.whole 2 .int64 4 with index.start := some 1 }
    let body := Statement.number
      [{ opcode := .range, operands := [.whole 1 .int64 1] },
       { opcode := .unary .identity, operands := [.whole 3 .int64 4, window] },
       { opcode := .unary .identity, operands := [.whole 4 .int64 4, .whole 3 .int64 4] },
       { opcode := .free, operands := [.whole 1 .int64 1] }] 0
    UnmentionedAfterFree body ∧ Splits body (partitions body) ∧
      (partitions body).map (·.map (·.place)) = [[some 0], [some 1, some 3, some 2]] := by
  intro window body
  have freed : UnmentionedAfterFree body := by decide
  exact ⟨freed, partitions_split freed, by decide⟩

end Stretch

end ArrayFusion
