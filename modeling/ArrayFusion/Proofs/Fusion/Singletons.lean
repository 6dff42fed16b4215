import ArrayFusion.Proofs.Fusion.Built

/-!
# The loops of single statements

Before the passes, every statement that computes something has a loop of its own, in the order of
the program, and every base that a free names is freed after the last loop that mentioned it when
the free was met. `Prepared` follows the statements one by one.
-/

namespace ArrayFusion.Fusion

/-- Every loop of the list is well laid out at the outermost level. -/
def LaidOut (ls : List Nest) : Prop := ∀ l ∈ ls, l.toNode.Layout []

/-- How one free changes a list of loops. -/
inductive PlacesFree (b : BaseId) : List Nest → List Nest → Prop
  | attach (before after : List Nest) {l : Nest} (last : ∀ m ∈ after, b ∉ m.allBases) :
      PlacesFree b (before ++ l :: after) (before ++ l.attachFree b :: after)
  | alone (ls : List Nest) (id : Nat) :
      PlacesFree b ls (ls ++ [⟨{ id, rank := 0, size := 1, frees := [b] }, []⟩])

/-- How the frees of several bases change a list of loops. -/
inductive PlacesAll : List BaseId → List Nest → List Nest → Prop
  | nil (ls : List Nest) : PlacesAll [] ls ls
  | cons {b : BaseId} {bs : List BaseId} {ls ls' ls'' : List Nest} (first : PlacesFree b ls ls')
      (rest : PlacesAll bs ls' ls'') : PlacesAll (b :: bs) ls ls''

/-- Loops that the statements of a program are prepared as. -/
inductive Prepared : List Statement → List Nest → Prop
  | nil : Prepared [] []
  | compute {ss : List Statement} {ls : List Nest} {s : Statement} (prepared : Prepared ss ls)
      (computes : s.instr.opcode.isSystem = false) (n : Nat) :
      Prepared (ss ++ [s]) (ls ++ [(Nest.ofStatements 0 [] [s] n).1])
  | skip {ss : List Statement} {ls : List Nest} {s : Statement} (prepared : Prepared ss ls)
      (system : s.instr.opcode.isSystem = true) (notFree : s.instr.opcode ≠ .free) :
      Prepared (ss ++ [s]) ls
  | free {ss : List Statement} {ls ls' : List Nest} {s : Statement} (prepared : Prepared ss ls)
      (free : s.instr.opcode = .free) (placed : PlacesAll s.instr.bases ls ls') :
      Prepared (ss ++ [s]) ls'

theorem freeInLast_eq_some {b : BaseId} {ls ls' : List Nest} (h : freeInLast b ls = some ls') :
    PlacesFree b ls ls' := by
  -- The loops behind the one that changes do not mention the base.
  have unmentioned : ∀ {ls : List Nest}, freeInLast b ls = none → ∀ l ∈ ls, b ∉ l.allBases := by
    intro ls none
    induction ls with
    | nil => simp
    | cons l ls ih =>
        rw [freeInLast] at none
        split at none
        · contradiction
        next rest =>
          split at none
          · contradiction
          next absent =>
            intro m hm
            rcases List.mem_cons.mp hm with rfl | hm
            · simpa using absent
            · exact ih rest m hm
  induction ls generalizing ls' with
  | nil => contradiction
  | cons l ls ih =>
      rw [freeInLast] at h
      split at h
      next rest found =>
        cases h
        cases ih found with
        | attach before after last => exact .attach (l :: before) after last
        | alone _ id => exact .alone (l :: ls) id
      next none =>
        split at h
        · cases h
          exact .attach [] ls (unmentioned none)
        · contradiction

theorem placesFree_placeFree (ls : List Nest) (b : BaseId) (n : Nat) :
    PlacesFree b ls (placeFree ls b n).1 := by
  rw [placeFree]
  cases found : freeInLast b ls with
  | some ls' => exact freeInLast_eq_some found
  | none => exact .alone ls n

theorem placesAll_foldlM (bs : List BaseId) (ls : List Nest) (n : Nat) :
    PlacesAll bs ls (bs.foldlM placeFree ls n).1 := by
  induction bs generalizing ls n with
  | nil => exact .nil ls
  | cons b bs ih => exact .cons (placesFree_placeFree ls b n) (ih _ _)

/-- The loops of single statements are prepared statement by statement. -/
theorem prepared_singletons (ss : List Statement) (n : Nat) : Prepared ss (singletons ss n).1 := by
  induction ss using List.reverseRecOn with
  | nil => exact .nil
  | append_singleton ss s ih =>
      have step : (singletons (ss ++ [s]) n).1 =
          (addStatement (singletons ss n).1 s (singletons ss n).2).1 := by
        rw [singletons, List.foldlM_append]
        simp only [List.foldlM_cons, List.foldlM_nil, bind_pure]
        rfl
      rw [step, addStatement]
      split
      next free => exact .free ih free (placesAll_foldlM _ _ _)
      next notFree =>
        split
        next system => exact .skip ih system notFree
        next computes => exact .compute ih (by simpa using computes) _

/-! ## What preparing keeps -/

theorem PlacesFree.laidOut {b : BaseId} {ls ls' : List Nest} (h : PlacesFree b ls ls')
    (laidOut : LaidOut ls) : LaidOut ls' := by
  cases h with
  | attach before after last =>
      intro k hk
      rcases List.mem_append.mp hk with hk | hk
      · exact laidOut k (by simp [hk])
      rcases List.mem_cons.mp hk with rfl | hk
      · exact (Nest.layout_attachFree (laidOut _ (by simp)) b).layout
      · exact laidOut k (by simp [hk])
  | alone _ id =>
      intro k hk
      rcases List.mem_append.mp hk with hk | hk
      · exact laidOut k hk
      · rw [List.mem_singleton.mp hk]
        exact Nest.layout_of_built (.holder id b)

theorem PlacesFree.statements {b : BaseId} {ls ls' : List Nest} (h : PlacesFree b ls ls')
    (laidOut : LaidOut ls) : ls'.flatMap Nest.statements = ls.flatMap Nest.statements := by
  cases h with
  | @attach before after l last =>
      have same : (l.attachFree b).statements = l.statements := by
        simpa using (Nest.layout_attachFree (laidOut l (by simp)) b).statements
      simp [same]
  | alone id => simp [Nest.statements, Node.bodyStatements]

theorem PlacesFree.frees {b c : BaseId} {ls ls' : List Nest} (h : PlacesFree b ls ls')
    (laidOut : LaidOut ls) :
    (∃ l ∈ ls', c ∈ l.allFrees) ↔ c = b ∨ ∃ l ∈ ls, c ∈ l.allFrees := by
  simp only [Nest.mem_allFrees_iff]
  cases h with
  | @attach before after l last =>
      have inner := (Nest.layout_attachFree (laidOut l (by simp)) b).frees c
      simp only [List.mem_append, List.mem_cons, or_and_right, exists_or, exists_eq_left, inner]
      grind
  | alone id => simp [Nest.toNode, or_and_right, exists_or, or_comm]

theorem PlacesAll.keeps {bs : List BaseId} {ls ls' : List Nest} (h : PlacesAll bs ls ls')
    (laidOut : LaidOut ls) : LaidOut ls' ∧
      ls'.flatMap Nest.statements = ls.flatMap Nest.statements ∧
      ∀ c, (∃ l ∈ ls', c ∈ l.allFrees) ↔ c ∈ bs ∨ ∃ l ∈ ls, c ∈ l.allFrees := by
  induction h with
  | nil ls => simp [laidOut]
  | cons first rest ih =>
      obtain ⟨laidOut', statements, frees⟩ := ih (first.laidOut laidOut)
      refine ⟨laidOut', statements.trans (first.statements laidOut), fun c => ?_⟩
      rw [frees, first.frees laidOut, List.mem_cons, ← or_assoc]
      exact or_congr_left or_comm

theorem PlacesAll.single {bs : List BaseId} {ls ls' : List Nest} (h : PlacesAll bs ls ls')
    (laidOut : LaidOut ls) (single : ∀ l ∈ ls, l.statements.length ≤ 1) :
    ∀ l ∈ ls', l.statements.length ≤ 1 := by
  induction h with
  | nil => exact single
  | @cons b bs ls ls' ls'' first rest ih =>
      refine ih (first.laidOut laidOut) ?_
      cases first with
      | @attach before after l last =>
          have same : (l.attachFree b).statements = l.statements := by
            simpa using (Nest.layout_attachFree (laidOut l (by simp)) b).statements
          simp only [List.forall_mem_append, List.forall_mem_cons] at single ⊢
          rwa [same]
      | alone id =>
          simp only [List.forall_mem_append, List.forall_mem_singleton]
          exact ⟨single, Nat.zero_le 1⟩

/-- The prepared loops carry out the statements that compute something, in their order, and free
the bases that frees name. -/
theorem Prepared.keeps {ss : List Statement} {ls : List Nest} (h : Prepared ss ls)
    (views : ∀ s ∈ ss, s.instr.WellFormed) : LaidOut ls ∧
      ls.flatMap Nest.statements = ss.filter (!·.instr.opcode.isSystem) ∧
      ∀ c, (∃ l ∈ ls, c ∈ l.allFrees) ↔ ∃ s ∈ ss, s.instr.opcode = .free ∧ c ∈ s.instr.bases := by
  induction h with
  | nil => simp [LaidOut]
  | @compute ss ls s prepared computes n ih =>
      obtain ⟨laidOut, statements, frees⟩ := ih fun t ht => views t (by simp [ht])
      have built := Nest.ofStatements_single ⟨computes, views s (by simp)⟩ n
      have notFree : s.instr.opcode ≠ .free := by
        intro free
        rw [free] at computes
        contradiction
      refine ⟨fun k hk => ?_, ?_, fun c => ?_⟩
      · rcases List.mem_append.mp hk with hk | hk
        · exact laidOut k hk
        · exact List.mem_singleton.mp hk ▸ built.layout
      · have same : (Nest.ofStatements 0 [] [s] n).1.statements = [s] := built.statements
        simp [statements, same, computes]
      · have none := built.frees c
        rw [← Nest.mem_allFrees_iff] at none
        simp only [List.mem_append, List.mem_singleton, or_and_right, exists_or, exists_eq_left,
          frees c, none, notFree, false_and, or_false]
  | @skip ss ls s prepared system notFree ih =>
      obtain ⟨laidOut, statements, frees⟩ := ih fun t ht => views t (by simp [ht])
      refine ⟨laidOut, by simp [statements, system], fun c => ?_⟩
      simp only [List.mem_append, List.mem_singleton, or_and_right, exists_or, exists_eq_left,
        frees c, notFree, false_and, or_false]
  | @free ss ls ls' s prepared free placed ih =>
      obtain ⟨laidOut, statements, frees⟩ := ih fun t ht => views t (by simp [ht])
      obtain ⟨laidOut', statements', frees'⟩ := placed.keeps laidOut
      refine ⟨laidOut', by simp [statements', statements, free, Opcode.isSystem], fun c => ?_⟩
      simp only [List.mem_append, List.mem_singleton, or_and_right, exists_or, exists_eq_left,
        frees' c, frees c, free, true_and]
      exact or_comm

/-- A prepared loop carries out one statement at most. -/
theorem Prepared.single {ss : List Statement} {ls : List Nest} (h : Prepared ss ls)
    (views : ∀ s ∈ ss, s.instr.WellFormed) : ∀ l ∈ ls, l.statements.length ≤ 1 := by
  induction h with
  | nil => simp
  | @compute ss ls s prepared computes n ih =>
      have built := Nest.ofStatements_single ⟨computes, views s (by simp)⟩ n
      have same : (Nest.ofStatements 0 [] [s] n).1.statements = [s] := built.statements
      have before := ih fun t ht => views t (by simp [ht])
      intro l hl
      rcases List.mem_append.mp hl with hl | hl
      · exact before l hl
      · rw [List.mem_singleton.mp hl, same, List.length_singleton]
  | skip prepared system notFree ih => exact ih fun t ht => views t (by simp [ht])
  | free prepared free placed ih =>
      have views' := fun t ht => views t (List.mem_append_left _ ht)
      exact placed.single (prepared.keeps views').1 (ih views')

/-! ## Where bases are freed -/

/-- The last loop that mentions the base frees it. -/
def LastFrees (b : BaseId) (ls : List Nest) : Prop :=
  ∃ before l after, ls = before ++ l :: after ∧ b ∈ l.allFrees ∧ ∀ m ∈ after, b ∉ m.allBases

/-- No loop behind one that frees the base has a statement that mentions it. -/
def FreedLast (b : BaseId) (ls : List Nest) : Prop :=
  ls.Pairwise fun l m => b ∈ l.allFrees → ¬ m.Accesses b

/-- The statement frees the base, or it computes something and mentions the base. -/
def Uses (b : BaseId) (s : Statement) : Prop :=
  (s.instr.opcode = .free ∧ b ∈ s.instr.bases) ∨
    (s.instr.opcode.isSystem = false ∧ s.instr.mentions b = true)

/-- The last statement that uses the base frees it. -/
def EndsInFree (b : BaseId) (ss : List Statement) : Prop :=
  ∃ before s after, ss = before ++ s :: after ∧ s.instr.opcode = .free ∧ b ∈ s.instr.bases ∧
    ∀ t ∈ after, ¬ Uses b t

/-- No statement behind a free that names the base computes something that mentions it. -/
def UnusedAfterFree (b : BaseId) (ss : List Statement) : Prop :=
  ss.Pairwise fun s t => s.instr.opcode = .free → b ∈ s.instr.bases →
    t.instr.opcode.isSystem = false → t.instr.mentions b = false

instance (b : BaseId) (ss : List Statement) : Decidable (UnusedAfterFree b ss) :=
  inferInstanceAs (Decidable (ss.Pairwise fun s t => s.instr.opcode = .free → b ∈ s.instr.bases →
    t.instr.opcode.isSystem = false → t.instr.mentions b = false))

theorem mem_bases_of_uses {b : BaseId} {s : Statement} (h : Uses b s) :
    b ∈ s.instr.bases ++ s.instr.indexBases := by
  rcases h with ⟨-, named⟩ | ⟨-, mentioned⟩
  · exact List.mem_append_left _ named
  · simpa [Instruction.mentions] using mentioned

/-- Only bases that statements name can be used after a free. -/
theorem unusedAfterFree_of_mem {ss : List Statement}
    (h : ∀ b ∈ ss.flatMap (·.instr.bases), UnusedAfterFree b ss) (b : BaseId) :
    UnusedAfterFree b ss := by
  by_cases named : b ∈ ss.flatMap (·.instr.bases)
  · exact h b named
  · refine List.pairwise_of_forall_mem_list fun s hs t _ _ here => ?_
    exact absurd (List.mem_flatMap.mpr ⟨s, hs, here⟩) named

theorem mem_allFrees_attachFree {l : Nest} (h : l.toNode.Layout []) (b c : BaseId) :
    c ∈ (l.attachFree b).allFrees ↔ c = b ∨ c ∈ l.allFrees := by
  rw [Nest.mem_allFrees_iff, Nest.mem_allFrees_iff]
  exact (Nest.layout_attachFree h b).frees c

theorem accesses_attachFree {l : Nest} (h : l.toNode.Layout []) (b c : BaseId) :
    (l.attachFree b).Accesses c ↔ l.Accesses c := by
  have same : (l.attachFree b).statements = l.statements := by
    simpa using (Nest.layout_attachFree h b).statements
  rw [Nest.Accesses, same, Nest.Accesses]

theorem mem_allFrees_holder {id : Nat} {b c : BaseId} :
    c ∈ (Nest.mk { id, rank := 0, size := 1, frees := [b] } []).allFrees ↔ c = b := by
  simp [Nest.mem_allFrees_iff, Nest.toNode]

theorem not_accesses_holder {id : Nat} {b c : BaseId} :
    ¬ (Nest.mk { id, rank := 0, size := 1, frees := [b] } []).Accesses c := by
  simp [Nest.Accesses, Nest.statements, Node.bodyStatements]

theorem lastFrees_cons {b : BaseId} {l : Nest} {ls : List Nest} : LastFrees b (l :: ls) ↔
    LastFrees b ls ∨ (b ∈ l.allFrees ∧ ∀ m ∈ ls, b ∉ m.allBases) := by
  constructor
  · rintro ⟨before, k, after, split, freed, last⟩
    cases before with
    | nil =>
        cases split
        exact .inr ⟨freed, last⟩
    | cons first before =>
        cases split
        exact .inl ⟨before, k, after, rfl, freed, last⟩
  · rintro (⟨before, k, after, rfl, freed, last⟩ | ⟨freed, last⟩)
    · exact ⟨l :: before, k, after, rfl, freed, last⟩
    · exact ⟨[], l, ls, rfl, freed, last⟩

/-- The loops at the end of a list may be replaced by others that free and mention no less. -/
theorem LastFrees.replace {b : BaseId} {tail tail' : List Nest} (before : List Nest)
    (freed : LastFrees b tail → LastFrees b tail')
    (unmentioned : (∀ m ∈ tail, b ∉ m.allBases) → ∀ m ∈ tail', b ∉ m.allBases)
    (h : LastFrees b (before ++ tail)) : LastFrees b (before ++ tail') := by
  induction before with
  | nil => exact freed h
  | cons l before ih =>
      rw [List.cons_append, lastFrees_cons] at h ⊢
      refine h.imp ih fun ⟨here, last⟩ => ⟨here, fun m hm => ?_⟩
      rcases List.mem_append.mp hm with hm | hm
      · exact last m (by simp [hm])
      · exact unmentioned (fun k hk => last k (by simp [hk])) m hm

theorem LastFrees.append {b : BaseId} {ls ms : List Nest} (h : LastFrees b ls)
    (unmentioned : ∀ m ∈ ms, b ∉ m.allBases) : LastFrees b (ls ++ ms) := by
  obtain ⟨before, l, after, rfl, freed, last⟩ := h
  refine ⟨before, l, after ++ ms, by simp, freed, fun m hm => ?_⟩
  rcases List.mem_append.mp hm with hm | hm
  · exact last m hm
  · exact unmentioned m hm

theorem PlacesFree.lastFrees {b : BaseId} {ls ls' : List Nest} (h : PlacesFree b ls ls')
    (laidOut : LaidOut ls) : LastFrees b ls' := by
  cases h with
  | @attach before after l last =>
      have freed : b ∈ (l.attachFree b).allFrees :=
        (mem_allFrees_attachFree (laidOut l (by simp)) b b).mpr (.inl rfl)
      exact ⟨before, _, after, rfl, freed, last⟩
  | alone _ id => exact ⟨ls, _, [], rfl, mem_allFrees_holder.mpr rfl, by simp⟩

theorem PlacesFree.lastFrees_mono {b c : BaseId} {ls ls' : List Nest} (h : PlacesFree c ls ls')
    (laidOut : LaidOut ls) (freed : LastFrees b ls) : LastFrees b ls' := by
  by_cases same : b = c
  · exact same ▸ h.lastFrees laidOut
  cases h with
  | alone _ id =>
      refine freed.append fun m hm => ?_
      rw [List.mem_singleton.mp hm, Nest.mem_allBases_iff, mem_allFrees_holder]
      exact not_or.mpr ⟨same, not_accesses_holder⟩
  | @attach before after l last =>
      have layout := laidOut l (by simp)
      have frees := mem_allFrees_attachFree layout c b
      have mentions : b ∈ (l.attachFree c).allBases ↔ b ∈ l.allBases := by
        rw [Nest.mem_allBases_iff, Nest.mem_allBases_iff, frees, accesses_attachFree layout]
        simp [same]
      refine freed.replace before ?_ ?_
      · rw [lastFrees_cons, lastFrees_cons, frees]
        exact Or.imp_right fun here => ⟨.inr here.1, here.2⟩
      · simp only [List.forall_mem_cons, mentions]
        exact id

theorem PlacesAll.lastFrees_mono {b : BaseId} {bs : List BaseId} {ls ls' : List Nest}
    (h : PlacesAll bs ls ls') (laidOut : LaidOut ls) (freed : LastFrees b ls) :
    LastFrees b ls' := by
  induction h with
  | nil ls => exact freed
  | cons first rest ih => exact ih (first.laidOut laidOut) (first.lastFrees_mono laidOut freed)

theorem PlacesAll.lastFrees {b : BaseId} {bs : List BaseId} {ls ls' : List Nest}
    (h : PlacesAll bs ls ls') (laidOut : LaidOut ls) (hb : b ∈ bs) : LastFrees b ls' := by
  induction h with
  | nil ls => simp at hb
  | cons first rest ih =>
      rcases List.mem_cons.mp hb with rfl | hb
      · exact rest.lastFrees_mono (first.laidOut laidOut) (first.lastFrees laidOut)
      · exact ih (first.laidOut laidOut) hb

theorem endsInFree_append {b : BaseId} {ss : List Statement} {s : Statement} :
    EndsInFree b (ss ++ [s]) ↔ (s.instr.opcode = .free ∧ b ∈ s.instr.bases) ∨
      (EndsInFree b ss ∧ ¬ Uses b s) := by
  constructor
  · rintro ⟨before, t, after, split, free, named, last⟩
    rcases List.eq_nil_or_concat after with rfl | ⟨after, u, rfl⟩
    · obtain ⟨-, same⟩ := List.append_inj' split rfl
      cases same
      exact .inl ⟨free, named⟩
    · rw [List.concat_eq_append, ← List.cons_append, ← List.append_assoc] at split
      obtain ⟨rfl, same⟩ := List.append_inj' split rfl
      cases same
      exact .inr ⟨⟨before, t, after, rfl, free, named, fun x hx => last x (by simp [hx])⟩,
        last s (by simp)⟩
  · rintro (⟨free, named⟩ | ⟨⟨before, t, after, rfl, free, named, last⟩, unused⟩)
    · exact ⟨ss, s, [], rfl, free, named, by simp⟩
    · refine ⟨before, t, after ++ [s], by simp, free, named, fun x hx => ?_⟩
      rcases List.mem_append.mp hx with hx | hx
      · exact last x hx
      · exact List.mem_singleton.mp hx ▸ unused

/-- A program that frees a base, and computes nothing with it later, ends in freeing it. -/
theorem endsInFree_of_unusedAfterFree {b : BaseId} {ss : List Statement}
    (unused : UnusedAfterFree b ss)
    (freed : ∃ s ∈ ss, s.instr.opcode = .free ∧ b ∈ s.instr.bases) : EndsInFree b ss := by
  induction ss using List.reverseRecOn with
  | nil => simp at freed
  | append_singleton ss s ih =>
      rw [endsInFree_append]
      by_cases here : s.instr.opcode = .free ∧ b ∈ s.instr.bases
      · exact .inl here
      obtain ⟨unused, -, behind⟩ := List.pairwise_append.mp unused
      obtain ⟨t, ht, free, named⟩ := freed
      have before : t ∈ ss := by
        rcases List.mem_append.mp ht with ht | ht
        · exact ht
        · obtain rfl := List.mem_singleton.mp ht
          exact absurd ⟨free, named⟩ here
      refine .inr ⟨ih unused ⟨t, before, free, named⟩, ?_⟩
      rintro (again | ⟨computes, mentioned⟩)
      · exact here again
      · rw [behind t before s (by simp) free named computes] at mentioned
        contradiction

/-- A base that the program frees last is freed by the last loop that mentions it. -/
theorem Prepared.lastFrees {b : BaseId} {ss : List Statement} {ls : List Nest}
    (h : Prepared ss ls) (views : ∀ s ∈ ss, s.instr.WellFormed) (ends : EndsInFree b ss) :
    LastFrees b ls := by
  induction h with
  | nil =>
      obtain ⟨before, s, after, split, -⟩ := ends
      simp at split
  | @compute ss ls s prepared computes n ih =>
      have views' : ∀ t ∈ ss, t.instr.WellFormed := fun t ht => views t (by simp [ht])
      rcases endsInFree_append.mp ends with ⟨free, -⟩ | ⟨ends, unused⟩
      · rw [free] at computes
        contradiction
      · have unmentioned : s.instr.mentions b = false := by
          simpa [Uses, computes] using (not_or.mp unused).2
        have built := Nest.ofStatements_single ⟨computes, views s (by simp)⟩ n
        have same : (Nest.ofStatements 0 [] [s] n).1.statements = [s] := built.statements
        refine (ih views' ends).append fun m hm => ?_
        rw [List.mem_singleton.mp hm, Nest.mem_allBases_iff, Nest.mem_allFrees_iff]
        refine not_or.mpr ⟨built.frees b, ?_⟩
        simp [Nest.Accesses, same, unmentioned]
  | @skip ss ls s prepared system notFree ih =>
      have views' : ∀ t ∈ ss, t.instr.WellFormed := fun t ht => views t (by simp [ht])
      rcases endsInFree_append.mp ends with ⟨free, -⟩ | ⟨ends, -⟩
      · exact absurd free notFree
      · exact ih views' ends
  | @free ss ls ls' s prepared free placed ih =>
      have views' : ∀ t ∈ ss, t.instr.WellFormed := fun t ht => views t (by simp [ht])
      have laidOut := (prepared.keeps views').1
      rcases endsInFree_append.mp ends with ⟨-, named⟩ | ⟨ends, -⟩
      · exact placed.lastFrees laidOut named
      · exact placed.lastFrees_mono laidOut (ih views' ends)

theorem PlacesFree.freedLast {b c : BaseId} {ls ls' : List Nest} (h : PlacesFree c ls ls')
    (laidOut : LaidOut ls) (freed : FreedLast b ls) : FreedLast b ls' := by
  cases h with
  | alone _ id =>
      refine List.pairwise_append.mpr ⟨freed, List.pairwise_singleton .., fun l _ m hm _ => ?_⟩
      rw [List.mem_singleton.mp hm]
      exact not_accesses_holder
  | @attach before after l last =>
      have layout := laidOut l (by simp)
      obtain ⟨first, rest, cross⟩ := List.pairwise_append.mp freed
      obtain ⟨here, rest⟩ := List.pairwise_cons.mp rest
      refine List.pairwise_append.mpr
        ⟨first, List.pairwise_cons.mpr ⟨fun m hm frees => ?_, rest⟩, ?_⟩
      · rcases (mem_allFrees_attachFree layout c b).mp frees with rfl | frees
        · exact fun accesses => last m hm (Nest.mem_allBases_iff.mpr (.inr accesses))
        · exact here m hm frees
      · intro k hk m hm frees
        rcases List.mem_cons.mp hm with rfl | hm
        · rw [accesses_attachFree layout]
          exact cross k hk l (by simp) frees
        · exact cross k hk m (by simp [hm]) frees

theorem PlacesAll.freedLast {b : BaseId} {bs : List BaseId} {ls ls' : List Nest}
    (h : PlacesAll bs ls ls') (laidOut : LaidOut ls) (freed : FreedLast b ls) :
    FreedLast b ls' := by
  induction h with
  | nil ls => exact freed
  | cons first rest ih => exact ih (first.laidOut laidOut) (first.freedLast laidOut freed)

/-- A base that the program does not use after freeing it is not used behind a loop that frees
it. -/
theorem Prepared.freedLast {b : BaseId} {ss : List Statement} {ls : List Nest}
    (h : Prepared ss ls) (views : ∀ s ∈ ss, s.instr.WellFormed) (unused : UnusedAfterFree b ss) :
    FreedLast b ls := by
  induction h with
  | nil => exact .nil
  | @compute ss ls s prepared computes n ih =>
      have views' : ∀ t ∈ ss, t.instr.WellFormed := fun t ht => views t (by simp [ht])
      obtain ⟨unused, -, behind⟩ := List.pairwise_append.mp unused
      refine List.pairwise_append.mpr ⟨ih views' unused, List.pairwise_singleton .., ?_⟩
      intro l hl m hm frees
      obtain ⟨-, -, origin⟩ := prepared.keeps views'
      obtain ⟨t, ht, free, named⟩ := (origin b).mp ⟨l, hl, frees⟩
      have unmentioned := behind t ht s (by simp) free named computes
      have built := Nest.ofStatements_single ⟨computes, views s (by simp)⟩ n
      have same : (Nest.ofStatements 0 [] [s] n).1.statements = [s] := built.statements
      rw [List.mem_singleton.mp hm]
      simp [Nest.Accesses, same, unmentioned]
  | @skip ss ls s prepared system notFree ih =>
      exact ih (fun t ht => views t (by simp [ht])) (List.pairwise_append.mp unused).1
  | @free ss ls ls' s prepared free placed ih =>
      have views' : ∀ t ∈ ss, t.instr.WellFormed := fun t ht => views t (by simp [ht])
      exact placed.freedLast (prepared.keeps views').1
        (ih views' (List.pairwise_append.mp unused).1)

end ArrayFusion.Fusion
