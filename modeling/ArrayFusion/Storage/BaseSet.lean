/-!
# Bases and sets of bases

A base is named by its number in the arena. A set of bases is the strictly increasing list of its
members, so that equal sets are equal lists and a set is enumerated in the order of the numbers.
-/

namespace ArrayFusion

/-- Number of a base in the arena. -/
abbrev BaseId := Nat

/-- Name of a base in messages and notations. -/
def BaseId.text (b : BaseId) : String := "a" ++ toString b

/-- Strictly increasing list of bases. -/
abbrev BaseSet := List BaseId

namespace BaseSet

def insert (b : BaseId) : BaseSet → BaseSet
  | [] => [b]
  | c :: s => if b < c then b :: c :: s else if b = c then c :: s else c :: insert b s

def ofList (bs : List BaseId) : BaseSet := bs.foldr insert []

def union (s t : BaseSet) : BaseSet := t.foldr insert s

/-- Union of a list of sets. -/
def unions (ss : List BaseSet) : BaseSet := ss.foldr union []

def inter (s t : BaseSet) : BaseSet := s.filter (t.contains ·)

def diff (s t : BaseSet) : BaseSet := s.filter (!t.contains ·)

/-- The sets have a common member. -/
def meets (s t : BaseSet) : Bool := s.any (t.contains ·)

@[simp] theorem mem_insert {b c : BaseId} {s : BaseSet} : c ∈ insert b s ↔ c = b ∨ c ∈ s := by
  induction s with
  | nil => simp [insert]
  | cons d s ih =>
    simp only [insert]
    split
    · simp
    · split
      · subst_vars
        simp
      · simp only [List.mem_cons, ih]
        exact or_left_comm

@[simp] theorem mem_ofList {c : BaseId} {bs : List BaseId} : c ∈ ofList bs ↔ c ∈ bs := by
  induction bs with
  | nil => simp [ofList]
  | cons b bs ih => simp only [ofList, List.foldr_cons, mem_insert, List.mem_cons] at ih ⊢; rw [ih]

@[simp] theorem mem_union {c : BaseId} {s t : BaseSet} : c ∈ union s t ↔ c ∈ s ∨ c ∈ t := by
  induction t with
  | nil => simp [union]
  | cons b t ih =>
    simp only [union, List.foldr_cons, mem_insert, List.mem_cons] at ih ⊢
    rw [ih]
    exact or_left_comm

@[simp] theorem mem_inter {c : BaseId} {s t : BaseSet} : c ∈ inter s t ↔ c ∈ s ∧ c ∈ t := by
  simp [inter]

@[simp] theorem mem_diff {c : BaseId} {s t : BaseSet} : c ∈ diff s t ↔ c ∈ s ∧ c ∉ t := by
  simp [diff]

@[simp] theorem mem_unions {c : BaseId} {ss : List BaseSet} :
    c ∈ unions ss ↔ ∃ s ∈ ss, c ∈ s := by
  induction ss with
  | nil => simp [unions]
  | cons s ss ih =>
    have first : c ∈ unions (s :: ss) ↔ c ∈ s ∨ c ∈ unions ss := mem_union
    simp [first, ih]

theorem meets_iff {s t : BaseSet} : meets s t = true ↔ ∃ b ∈ s, b ∈ t := by
  simp [meets]

theorem pairwise_insert {b : BaseId} {s : BaseSet} (h : s.Pairwise (· < ·)) :
    (insert b s).Pairwise (· < ·) := by
  induction s with
  | nil => simp [insert]
  | cons c s ih =>
    have ⟨above, rest⟩ := List.pairwise_cons.1 h
    simp only [insert]
    split
    next less =>
      refine List.pairwise_cons.2 ⟨fun d hd => ?_, h⟩
      rcases List.mem_cons.1 hd with rfl | hd
      · exact less
      · exact Nat.lt_trans less (above d hd)
    next notLess =>
      split
      · exact h
      next different =>
        refine List.pairwise_cons.2 ⟨fun d hd => ?_, ih rest⟩
        rcases mem_insert.1 hd with rfl | hd
        · exact Nat.lt_of_le_of_ne (Nat.le_of_not_lt notLess) (Ne.symm different)
        · exact above d hd

theorem pairwise_ofList (bs : List BaseId) : (ofList bs).Pairwise (· < ·) := by
  induction bs with
  | nil => exact .nil
  | cons b bs ih => exact pairwise_insert ih

theorem pairwise_union {s : BaseSet} (h : s.Pairwise (· < ·)) (t : BaseSet) :
    (union s t).Pairwise (· < ·) := by
  induction t with
  | nil => exact h
  | cons b t ih => exact pairwise_insert ih

theorem pairwise_inter {s : BaseSet} (h : s.Pairwise (· < ·)) (t : BaseSet) :
    (inter s t).Pairwise (· < ·) := h.filter _

theorem pairwise_diff {s : BaseSet} (h : s.Pairwise (· < ·)) (t : BaseSet) :
    (diff s t).Pairwise (· < ·) := h.filter _

end BaseSet

end ArrayFusion
