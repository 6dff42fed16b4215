import ArrayFusion.Kernel.Symbols
import ArrayFusion.Proofs.Nest.Layout

/-!
# The symbols of a kernel

Every operand of a kernel with a base is an access of the symbol table, the base is a parameter, a
temporary array or a scalar, and the range of a base covers the addresses of all its views.
-/

namespace ArrayFusion

open Shape

namespace Node

mutual

/-- The sites of a node are its statements in order. -/
theorem map_snd_sites (around : Nat) : (n : Node) →
    (n.sites around).map (·.2) = n.statements.map (·.instr)
  | leaf _ _ => rfl
  | loop head body => map_snd_bodySites head.id body

theorem map_snd_bodySites (around : Nat) : (body : List Node) →
    (bodySites around body).map (·.2) = (bodyStatements body).map (·.instr)
  | [] => rfl
  | n :: body => by
      rw [bodySites, List.map_append, map_snd_sites around n, map_snd_bodySites around body,
        bodyStatements, List.map_append]

end

/-- The instruction of every statement has a site. -/
theorem exists_site {n : Node} {s : Statement} (h : s ∈ n.statements) (around : Nat) :
    ∃ id, (id, s.instr) ∈ n.sites around := by
  have member : s.instr ∈ (n.sites around).map (·.2) := by
    rw [map_snd_sites]
    exact List.mem_map_of_mem h
  obtain ⟨⟨id, i⟩, site, rfl⟩ := List.mem_map.mp member
  exact ⟨id, site⟩

theorem bodySites_eq_flatMap (around : Nat) (body : List Node) :
    bodySites around body = body.flatMap (sites around) := by
  induction body with
  | nil => rfl
  | cons n body ih => rw [bodySites, ih, List.flatMap_cons]

theorem mem_bodySites_of_leaf {s : Statement} {rank : Int} {body : List Node}
    (h : leaf s rank ∈ body) (around : Nat) : (around, s.instr) ∈ bodySites around body := by
  rw [bodySites_eq_flatMap]
  exact List.mem_flatMap.mpr ⟨_, h, List.mem_singleton_self _⟩

/-- What stands in an inner loop stands in the node. -/
theorem bodySites_subset (n : Node) (around : Nat) :
    ∀ l ∈ n.nests, ∀ site ∈ bodySites l.head.id l.body, site ∈ n.sites around := by
  induction n using Node.induction generalizing around with
  | leaf s rank => exact fun l hl => absurd hl List.not_mem_nil
  | loop head body ih =>
      intro l hl site hsite
      obtain rfl | ⟨m, hm, hl⟩ := mem_nests_loop.mp hl
      · exact hsite
      · rw [sites, bodySites_eq_flatMap]
        exact List.mem_flatMap.mpr ⟨m, hm, ih m hm head.id l hl site hsite⟩

/-- A statement stands directly in the loop whose number it has. -/
theorem leaf_of_mem_sites (n : Node) (isLoop : n.isLoop = true) (around : Nat) :
    ∀ site ∈ n.sites around, ∃ l ∈ n.nests, l.head.id = site.1 ∧
      ∃ s rank, leaf s rank ∈ l.body ∧ s.instr = site.2 := by
  induction n using Node.induction generalizing around with
  | leaf s rank => contradiction
  | loop head body ih =>
      intro site hsite
      rw [sites, bodySites_eq_flatMap, List.mem_flatMap] at hsite
      obtain ⟨m, hm, hsite⟩ := hsite
      cases m with
      | leaf s r =>
          obtain rfl : site = (head.id, s.instr) := List.mem_singleton.mp hsite
          exact ⟨⟨head, body⟩, mem_nests_loop.mpr (.inl rfl), rfl, s, r, hm, rfl⟩
      | loop head' body' =>
          obtain ⟨l, hl, found⟩ := ih _ hm rfl head.id site hsite
          exact ⟨l, mem_nests_loop.mpr (.inr ⟨_, hm, hl⟩), found⟩

end Node

theorem Nest.exists_site {kernel : Nest} {s : Statement} (h : s ∈ kernel.statements) :
    ∃ id, (id, s.instr) ∈ kernel.sites := Node.exists_site (n := kernel.toNode) h 0

namespace Access

variable {as : List Access} {a : Access}

/-- The accesses of an instruction are its operands with a base. -/
theorem mem_ofSite {id : Nat} {i : Instruction} {b : BaseId} : (b, a) ∈ ofSite (id, i) ↔
    ∃ k v, i.operands[k]? = some v ∧ v.base = some b ∧ a = ⟨id, v,
      !(i.isIndirect k || (k == 0 && i.opcode.isSweep) || i.indexBases.contains b)⟩ := by
  simp only [ofSite, List.mem_filterMap, Prod.exists, List.mem_zipIdx_iff_getElem?,
    Option.map_eq_some_iff, Prod.mk.injEq]
  constructor
  · rintro ⟨v, k, hv, c, base, rfl, rfl⟩
    exact ⟨k, v, hv, base, rfl⟩
  · rintro ⟨k, v, hv, base, rfl⟩
    exact ⟨v, k, hv, b, base, rfl, rfl⟩

/-- The range of accesses covers the extent of every view that is not empty. -/
theorem range?_covers (member : a ∈ as) (nonempty : 0 < a.view.elements) :
    ∃ range, range? as = some range ∧ range.1 ≤ a.view.extent.1 ∧ a.view.extent.2 < range.2 := by
  induction as with
  | nil => contradiction
  | cons first rest ih =>
    rw [range?]
    cases extent : first.view.extent with
    | mk low high =>
    rcases List.mem_cons.mp member with rfl | member
    · rw [if_neg (by omega), extent]
      cases range? rest with
      | none => exact ⟨_, rfl, Int.le_refl _, Int.lt_succ _⟩
      | some range => exact ⟨_, rfl, Int.min_le_left _ _, by simp only; omega⟩
    · obtain ⟨range, found, below, above⟩ := ih member
      split
      · exact ⟨range, found, below, above⟩
      · rw [found]
        exact ⟨_, rfl, by simp only; omega, by simp only; omega⟩

end Access

namespace Symbols

/-! ## How bases are classified -/

section

variable (kernel : Nest) (passing : Passing)

@[simp] theorem passing_ofKernel : (ofKernel kernel passing).passing = passing := rfl

theorem scalarTemps_ofKernel : (ofKernel kernel passing).scalarTemps =
    kernel.allTemps.filterMap fun b =>
      if Access.allScalar ((ofKernel kernel passing).accessesOf b) then
        ((ofKernel kernel passing).accessesOf b).head?.map fun a => (b, a.loop)
      else none := rfl

theorem params_ofKernel : (ofKernel kernel passing).params =
    (ofKernel kernel passing).bases.filter fun b => !kernel.allTemps.contains b ||
      (passing.temporaries &&
        (kernel.allTemps.contains b && !(ofKernel kernel passing).isScalarTemp b)) := rfl

theorem arrayTemps_ofKernel : (ofKernel kernel passing).arrayTemps =
    (ofKernel kernel passing).bases.filter fun b => !passing.temporaries &&
      (kernel.allTemps.contains b && !(ofKernel kernel passing).isScalarTemp b) := rfl

end

variable {kernel : Nest} {passing : Passing} {b : BaseId} {s : Statement} {k : Nat} {v : View}

/-! ## Accesses and parameters -/

/-- An operand of a kernel is an access of its base in some loop. -/
theorem exists_access_in_loop (passing : Passing) (hs : s ∈ kernel.statements)
    (hv : s.instr.operands[k]? = some v) (base : v.base = some b) :
    ∃ loop, (b, ⟨loop, v, !(s.instr.isIndirect k || (k == 0 && s.instr.opcode.isSweep) ||
      s.instr.indexBases.contains b)⟩) ∈ (ofKernel kernel passing).accesses := by
  obtain ⟨id, site⟩ := Nest.exists_site hs
  exact ⟨id, List.mem_flatMap.mpr
    ⟨(id, s.instr), site, Access.mem_ofSite.mpr ⟨k, v, hv, base, rfl⟩⟩⟩

theorem exists_access (passing : Passing) (hs : s ∈ kernel.statements)
    (hv : s.instr.operands[k]? = some v) (base : v.base = some b) :
    ∃ a, (b, a) ∈ (ofKernel kernel passing).accesses ∧ a.view = v := by
  obtain ⟨loop, access⟩ := exists_access_in_loop passing hs hv base
  exact ⟨_, access, rfl⟩

theorem mem_accessesOf {st : Symbols} {a : Access} :
    a ∈ st.accessesOf b ↔ (b, a) ∈ st.accesses := by
  simp [accessesOf]

/-- The addresses of an operand lie between the lowest element and the extent of its base. -/
theorem bounds_of_inRange (passing : Passing) (hs : s ∈ kernel.statements)
    (hv : s.instr.operands[k]? = some v)
    (base : v.base = some b) {r : List Int} (range : InRange v.shape r) :
    (ofKernel kernel passing).lowest b ≤ v.start + View.offsetAt v.axes r ∧
      v.start + View.offsetAt v.axes r < (ofKernel kernel passing).extent b := by
  obtain ⟨a, member, rfl⟩ := exists_access passing hs hv base
  obtain ⟨bounds, found, below, above⟩ :=
    Access.range?_covers (mem_accessesOf.mpr member) range.count_pos
  have reach := View.offsetAt_bounds range
  rw [View.extent_eq] at below above
  rw [lowest, extent, found]
  dsimp only [Option.map_some, Option.getD_some] at below above ⊢
  omega

theorem mem_firstOfEach {α : Type} [BEq α] [LawfulBEq α] {x : α} {xs : List α} :
    x ∈ firstOfEach (· == ·) xs ↔ x ∈ xs := by
  induction xs with
  | nil => rfl
  | cons y xs ih =>
    rw [firstOfEach, List.mem_cons, List.mem_filter, ih, List.mem_cons]
    by_cases same : x = y <;> simp [same, Ne.symm]

theorem mem_params : b ∈ (ofKernel kernel passing).params ↔ b ∈ (ofKernel kernel passing).bases ∧
    (b ∈ kernel.allTemps →
      passing.temporaries = true ∧ (ofKernel kernel passing).isScalarTemp b = false) := by
  rw [params_ofKernel, List.mem_filter]
  refine and_congr_right fun _ => ?_
  by_cases temp : b ∈ kernel.allTemps <;> simp [temp]

theorem mem_arrayTemps : b ∈ (ofKernel kernel passing).arrayTemps ↔
    b ∈ (ofKernel kernel passing).bases ∧ b ∈ kernel.allTemps ∧ passing.temporaries = false ∧
      (ofKernel kernel passing).isScalarTemp b = false := by
  rw [arrayTemps_ofKernel, List.mem_filter]
  refine and_congr_right fun _ => ?_
  by_cases temp : b ∈ kernel.allTemps <;> simp [temp]

/-- A base that no scalar takes the place of is bound to the kernel or allocated by it. -/
theorem mem_params_or_mem_arrayTemps (passing : Passing) (hs : s ∈ kernel.statements)
    (hv : s.instr.operands[k]? = some v) (base : v.base = some b)
    (array : (ofKernel kernel passing).isScalarTemp b = false) :
    b ∈ (ofKernel kernel passing).params ∨ b ∈ (ofKernel kernel passing).arrayTemps := by
  obtain ⟨a, access, -⟩ := exists_access passing hs hv base
  have used : b ∈ (ofKernel kernel passing).bases :=
    mem_firstOfEach.mpr (List.mem_map.mpr ⟨_, access, rfl⟩)
  by_cases allocated : b ∈ kernel.allTemps ∧ passing.temporaries = false
  · exact .inr (mem_arrayTemps.mpr ⟨used, allocated.1, allocated.2, array⟩)
  · refine .inl (mem_params.mpr ⟨used, fun temp => ⟨?_, array⟩⟩)
    simpa [temp] using allocated

/-! ## Scalar temporaries -/

/-- A scalar that a loop declares takes the place of a temporary whose accesses are all like the first
one, which stands in this loop. -/
theorem exists_first_of_mem_scalarTempsOf {loop : Nat}
    (h : b ∈ (ofKernel kernel passing).scalarTempsOf loop) : b ∈ kernel.allTemps ∧
      ∃ first ∈ (ofKernel kernel passing).accessesOf b, first.loop = loop ∧
        ∀ a ∈ (ofKernel kernel passing).accessesOf b,
          a.direct = true ∧ a.loop = loop ∧ a.view.sameAccess first.view = true := by
  obtain ⟨⟨c, id⟩, scalar, rfl⟩ := List.mem_map.mp h
  obtain ⟨listed, same⟩ := List.mem_filter.mp scalar
  obtain rfl : id = loop := eq_of_beq same
  rw [scalarTemps_ofKernel] at listed
  obtain ⟨b, temporary, found⟩ := List.mem_filterMap.mp listed
  cases accesses : (ofKernel kernel passing).accessesOf b with
  | nil => simp [accesses] at found
  | cons first rest =>
    rw [accesses] at found
    split at found
    swap
    · contradiction
    next all =>
      cases found
      rw [Access.allScalar, List.all_eq_true] at all
      refine ⟨temporary, first, accesses ▸ List.mem_cons_self, rfl, fun a ha => ?_⟩
      rw [accesses] at ha
      simpa [and_assoc] using all a ha

/-- A scalar that a loop declares takes the place of a temporary that is only accessed directly, in
this loop and by one view. -/
theorem of_mem_scalarTempsOf {loop : Nat}
    (h : b ∈ (ofKernel kernel passing).scalarTempsOf loop) : b ∈ kernel.allTemps ∧
      ∃ v : View, ∀ a ∈ (ofKernel kernel passing).accessesOf b,
        a.direct = true ∧ a.loop = loop ∧ a.view.sameAccess v = true := by
  obtain ⟨temporary, first, -, -, uses⟩ := exists_first_of_mem_scalarTempsOf h
  exact ⟨temporary, first.view, uses⟩

/-- The scalars of loops are bases of the kernel. -/
theorem mem_bases_of_mem_scalarTempsOf {loop : Nat}
    (h : b ∈ (ofKernel kernel passing).scalarTempsOf loop) : b ∈ (ofKernel kernel passing).bases := by
  obtain ⟨-, first, access, -⟩ := exists_first_of_mem_scalarTempsOf h
  exact mem_firstOfEach.mpr (List.mem_map.mpr ⟨_, mem_accessesOf.mp access, rfl⟩)

theorem isScalarTemp_iff :
    (ofKernel kernel passing).isScalarTemp b = true ↔
      ∃ loop, b ∈ (ofKernel kernel passing).scalarTempsOf loop := by
  simp [isScalarTemp, scalarTempsOf]

/-- No scalar takes the place of an array that is addressed by value or is the output of a fold or
scan. -/
theorem isScalarTemp_eq_false (passing : Passing) (hs : s ∈ kernel.statements)
    (hv : s.instr.operands[k]? = some v) (base : v.base = some b)
    (array : (s.instr.isIndirect k || (k == 0 && s.instr.opcode.isSweep)) = true) :
    (ofKernel kernel passing).isScalarTemp b = false := by
  obtain ⟨_, access⟩ := exists_access_in_loop passing hs hv base
  rw [Bool.eq_false_iff]
  intro scalar
  obtain ⟨loop, declared⟩ := isScalarTemp_iff.mp scalar
  obtain ⟨-, w, uses⟩ := of_mem_scalarTempsOf declared
  have direct := (uses _ (mem_accessesOf.mpr access)).1
  simp [array] at direct

end Symbols

end ArrayFusion
