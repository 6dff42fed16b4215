import ArrayFusion.Proofs.Kernel.Sites
import Mathlib.Data.List.Flatten

/-!
# Loops are known by their numbers

Loops are compared by their numbers, and the symbols of a kernel refer to loops by their numbers.
This is sound because all loops that fusion returns, and all kernels that are built from them, have
numbers of their own: a kernel takes over the loops of its nests, and its own number is handed out
after those of all of them. As 32 bit words the numbers are different as long as no more were handed
out than there are words.
-/

namespace ArrayFusion

namespace Fusion

/-- Loops of a list of nests, from the outside inward. -/
def nestsOf (ls : List Nest) : List Nest := ls.flatMap (·.toNode.nests)

theorem map_id_nestsOf (ls : List Nest) : (nestsOf ls).map (·.head.id) = idsOf ls := by
  rw [nestsOf, List.map_flatMap]
  rfl

/-- Nests that are taken from a list, each at most once, use the numbers of the list. -/
theorem idsOf_subperm {ls ls' : List Nest} (h : ls.Subperm ls') :
    (idsOf ls).Subperm (idsOf ls') := by
  obtain ⟨same, perm, sub⟩ := h
  exact ⟨idsOf same, perm.flatMap_right _, sub.flatMap _⟩

/-- Kernels that are built one after the other take over the given nests, and their own numbers are
handed out. -/
theorem mapM_kernel (groups : List (List Nest)) (n : Nat) :
    HandsOut n (groups.mapM kernel n).2 [] ((groups.mapM kernel n).1.map (·.head.id)) ∧
      List.Forall₂ (fun g k => k.body = g.map Nest.toNode) groups (groups.mapM kernel n).1 := by
  induction groups generalizing n with
  | nil => exact ⟨.refl n [], .nil⟩
  | cons g groups ih =>
    obtain ⟨later, bodies⟩ := ih (n + 1)
    have unfolded : (g :: groups).mapM kernel n =
        ((kernel g n).1 :: (groups.mapM kernel (n + 1)).1, (groups.mapM kernel (n + 1)).2) := by
      rw [List.mapM_cons]
      rfl
    rw [unfolded]
    exact ⟨(HandsOut.next n []).trans (later.append_left [n]), .cons rfl bodies⟩

/-- A kernel has no loops but itself and those of its nests. -/
theorem nests_of_body {k : Nest} {g : List Nest} (body : k.body = g.map Nest.toNode) :
    k.toNode.nests = k :: nestsOf g := by
  rw [Nest.nests_toNode, Nest.subNests, body, Node.bodyNests_eq_flatMap, List.flatMap_map]
  rfl

theorem ids_of_body {k : Nest} {g : List Nest} (body : k.body = g.map Nest.toNode) :
    k.ids = k.head.id :: idsOf g := by
  rw [Nest.ids, Node.ids, nests_of_body body, List.map_cons, map_id_nestsOf]

theorem nodup_of_subperm {xs ys : List Nat} (h : xs.Subperm ys) (distinct : ys.Nodup) :
    xs.Nodup := by
  obtain ⟨same, perm, sub⟩ := h
  exact perm.nodup_iff.mp (distinct.sublist sub)

/-- Fewer numbers than there are words are known by their words. -/
theorem eq_of_ofNat_eq {n m x y : Nat} (few : m - n ≤ UInt32.size) (hx : n ≤ x ∧ x < m)
    (hy : n ≤ y ∧ y < m) (same : UInt32.ofNat x = UInt32.ofNat y) : x = y := by
  have words := congrArg UInt32.toNat same
  simp only [UInt32.toNat_ofNat', UInt32.size] at words few
  omega

end Fusion

namespace Symbols

variable {k : Nest} {passing : Passing} {b : BaseId}

/-- An access stands directly in the one loop that it names. -/
theorem exists_loop_of_access (distinct : k.ids.Nodup) {a : Access}
    (access : (b, a) ∈ (ofKernel k passing).accesses) :
    ∃ l ∈ k.toNode.nests, (∀ l' ∈ k.toNode.nests, l'.head.id = a.loop ↔ l' = l) ∧
      ∃ s rank, .leaf s rank ∈ l.body ∧ a.view ∈ s.instr.operands := by
  obtain ⟨⟨id, i⟩, site, own⟩ := List.mem_flatMap.mp access
  obtain ⟨n, v, hv, -, rfl⟩ := Access.mem_ofSite.mp own
  obtain ⟨l, hl, number, s, rank, inside, rfl⟩ := Node.leaf_of_mem_sites k.toNode rfl 0 _ site
  refine ⟨l, hl, fun l' hl' => ⟨fun same => ?_, ?_⟩, s, rank, inside, List.mem_of_getElem? hv⟩
  · exact Node.eq_of_id_eq distinct hl' hl (same.trans number.symm)
  · rintro rfl
    exact number

/-- A scalar is declared in one loop, and no other loop directly holds a statement that accesses
it. -/
theorem exists_loop_of_isScalarTemp (distinct : k.ids.Nodup)
    (scalar : (ofKernel k passing).isScalarTemp b = true) :
    ∃ l ∈ k.toNode.nests,
      (∀ l' ∈ k.toNode.nests, b ∈ (ofKernel k passing).scalarTempsOf l'.head.id ↔ l' = l) ∧
      ∀ l' ∈ k.toNode.nests, l' ≠ l → ∀ s rank, .leaf s rank ∈ l'.body → s.instr.Ignores b := by
  obtain ⟨loop, declared⟩ := isScalarTemp_iff.mp scalar
  obtain ⟨-, first, access, number, -⟩ := exists_first_of_mem_scalarTempsOf declared
  obtain ⟨l, hl, named, -⟩ := exists_loop_of_access distinct (mem_accessesOf.mp access)
  obtain ⟨_, known⟩ := accessesBy_of_mem_scalarTempsOf declared
  rw [number] at named
  refine ⟨l, hl, fun l' hl' => ⟨fun declared' => ?_, ?_⟩, fun l' hl' other s rank inside => ?_⟩
  · obtain ⟨-, _, uses⟩ := of_mem_scalarTempsOf declared'
    exact (named l' hl').mp ((uses first access).2.1.symm.trans number)
  · rintro rfl
    exact ((named l' hl').mpr rfl).symm ▸ declared
  · have site := Node.bodySites_subset k.toNode 0 l' hl' _ (Node.mem_bodySites_of_leaf inside _)
    exact (known _ _ site).2 fun same => other ((named l' hl').mp same)

end Symbols

namespace Fusion

/-- The kernels are numbered after all loops that fusion returns. -/
theorem handsOut_kernels {separate : Bool} {ss : List Statement} {n m : Nat} {ls : List Nest}
    (fused : fuse separate ss n = .ok (ls, m)) (groups : List (List Nest)) :
    HandsOut n (groups.mapM kernel m).2 []
      (((groups.mapM kernel m).1 ++ nestsOf ls).map (·.head.id)) := by
  have numbered := (mapM_kernel groups m).1.append_right (idsOf ls)
  rw [List.map_append, map_id_nestsOf]
  exact (handsOut_fuse fused).trans numbered

section Body

variable {kernels ls g : List Nest} {k : Nest}

theorem nests_subset_of_body (hk : k ∈ kernels) (body : k.body = g.map Nest.toNode)
    (taken : g.Subperm ls) : k.toNode.nests ⊆ kernels ++ nestsOf ls := by
  rw [nests_of_body body]
  refine List.cons_subset.mpr ⟨List.mem_append_left _ hk, fun l hl => ?_⟩
  obtain ⟨b, hb, hl⟩ := List.mem_flatMap.mp hl
  exact List.mem_append_right _ (List.mem_flatMap.mpr ⟨b, taken.subset hb, hl⟩)

/-- A kernel uses its own number and those of its nests, each as often as they are there at most. -/
theorem ids_subperm_of_body (hk : k ∈ kernels) (body : k.body = g.map Nest.toNode)
    (taken : g.Subperm ls) : k.ids.Subperm ((kernels ++ nestsOf ls).map (·.head.id)) := by
  rw [ids_of_body body, List.map_append, map_id_nestsOf]
  have first : [k.head.id].Subperm (kernels.map (·.head.id)) :=
    List.singleton_subperm_iff.mpr (List.mem_map_of_mem hk)
  exact ((List.subperm_append_right (idsOf g)).mpr first).trans
    ((List.subperm_append_left _).mpr (idsOf_subperm taken))

end Body

/-- All loops that fusion returns and all kernels that are built from them have different numbers,
also as 32 bit words. So loops of a kernel can be compared by their numbers, every access names the
one loop that it directly stands in, and a scalar is declared in one loop, in which all its accesses
stand. -/
theorem loops_known_by_id {separate : Bool} {ss : List Statement} {n m : Nat} {ls : List Nest}
    (fused : fuse separate ss n = .ok (ls, m)) (groups : List (List Nest))
    (once : ∀ g ∈ groups, g.Subperm ls) :
    let kernels := (groups.mapM kernel m).1
    let next := (groups.mapM kernel m).2
    let loops := kernels ++ nestsOf ls
    (loops.map (·.head.id)).Nodup ∧ (∀ l ∈ loops, n ≤ l.head.id ∧ l.head.id < next) ∧
    (next - n ≤ UInt32.size → (loops.map fun l => UInt32.ofNat l.head.id).Nodup) ∧
    ∀ k ∈ kernels, k.ids.Nodup ∧
      (∀ l ∈ k.toNode.nests, l ∈ loops ∧
        ∀ l' ∈ loops, (l.head.id == l'.head.id) = true ↔ l = l') ∧
      ∀ passing, let symbols := Symbols.ofKernel k passing
        (∀ b a, (b, a) ∈ symbols.accesses → ∃ l ∈ k.toNode.nests,
          (∀ l' ∈ k.toNode.nests, l'.head.id = a.loop ↔ l' = l) ∧
          ∃ s rank, .leaf s rank ∈ l.body ∧ a.view ∈ s.instr.operands) ∧
        ∀ b, symbols.isScalarTemp b = true → ∃ l ∈ k.toNode.nests,
          (∀ l' ∈ k.toNode.nests, b ∈ symbols.scalarTempsOf l'.head.id ↔ l' = l) ∧
          ∀ l' ∈ k.toNode.nests, l' ≠ l → ∀ s rank, .leaf s rank ∈ l'.body →
            s.instr.Ignores b := by
  intro kernels next loops
  obtain ⟨-, bodies⟩ := mapM_kernel groups m
  obtain ⟨distinct, bounds⟩ := (handsOut_kernels fused groups).fresh
  have bounds : ∀ l ∈ loops, n ≤ l.head.id ∧ l.head.id < next :=
    fun l hl => bounds _ (List.mem_map_of_mem hl)
  refine ⟨distinct, bounds, fun few => ?_, fun k hk => ?_⟩
  · refine List.Nodup.map_on (fun l hl l' hl' same => ?_) distinct.of_map
    exact List.inj_on_of_nodup_map distinct hl hl'
      (eq_of_ofNat_eq few (bounds l hl) (bounds l' hl') same)
  obtain ⟨g, hg, body⟩ := exists_of_forall₂ bodies hk
  have inside : k.toNode.nests ⊆ loops := nests_subset_of_body hk body (once g hg)
  have own : k.ids.Nodup :=
    nodup_of_subperm (ids_subperm_of_body hk body (once g hg)) distinct
  refine ⟨own, fun l hl => ⟨inside hl, fun l' hl' => ?_⟩, fun passing => ⟨fun b a => ?_, fun b => ?_⟩⟩
  · rw [beq_iff_eq]
    exact ⟨List.inj_on_of_nodup_map distinct (inside hl) hl', congrArg fun x : Nest => x.head.id⟩
  · exact Symbols.exists_loop_of_access own
  · exact Symbols.exists_loop_of_isScalarTemp own

/-- A flat copy is split for a sum over rows and columns, so that its scalar is declared by a loop
inside of the first kernel. -/
theorem loops_known_by_id_split :
    let array (b : BaseId) (n : Nat) : View := .whole b .int64 n
    let square (b : BaseId) : View :=
      { base := some b, dtype := .int64, axes := View.rowMajor [2, 2] }
    let ss := Statement.number
      [{ opcode := .unary .identity, operands := [array 1 4, array 0 4], creates := true },
       { opcode := .binary .add, operands := [square 2, square 1, square 1] },
       { opcode := .free, operands := [array 1 4] },
       { opcode := .unary .identity, operands := [array 4 3, array 3 3] }] 0
    ∃ l k m, fuse false ss 0 = .ok ([l, k], m) ∧
      let kernels := ([[l], [k]].mapM kernel m).1
      ((kernels ++ nestsOf [l, k]).map fun l => UInt32.ofNat l.head.id).Nodup ∧
      ∃ first ∈ kernels, (Symbols.ofKernel first {}).isScalarTemp 1 = true ∧
        ∃ inner ∈ first.toNode.nests, inner.head.rank = 1 ∧ ∀ l' ∈ first.toNode.nests,
          1 ∈ (Symbols.ofKernel first {}).scalarTempsOf l'.head.id ↔ l' = inner := by
  intro array square ss
  have pair : (fuse false ss 0).toOption.map (fun r => (r.2, r.1.map fun l =>
      let kernel := (kernel [l] r.2).1
      let symbols := Symbols.ofKernel kernel {}
      (symbols.isScalarTemp 1, (kernel.toNode.nests.filter fun l =>
        decide (1 ∈ symbols.scalarTempsOf l.head.id)).map (·.head.rank)))) =
          some (8, [(true, [1]), (false, [])]) := by
    decide +kernel
  cases found : fuse false ss 0 with
  | error e => simp [found, Except.toOption] at pair
  | ok r =>
    obtain ⟨ls, m⟩ := r
    rw [found] at pair
    obtain ⟨rfl, nests⟩ := Prod.mk.inj (Option.some.inj pair)
    obtain ⟨l, rest, rfl, first, others⟩ := List.map_eq_cons_iff.mp nests
    obtain ⟨k, rfl, -⟩ := List.map_eq_singleton_iff.mp others
    obtain ⟨scalar, ranks⟩ := Prod.mk.inj first
    obtain ⟨-, -, words, known⟩ := loops_known_by_id found [[l], [k]] (by simp)
    have inside : (kernel [l] 8).1 ∈ ([[l], [k]].mapM kernel 8).1 := List.mem_cons_self
    obtain ⟨-, -, symbols⟩ := known _ inside
    obtain ⟨inner, hinner, declared, -⟩ := (symbols {}).2 1 scalar
    have rank : inner.head.rank ∈ [1] := by
      rw [← ranks]
      refine List.mem_map_of_mem (List.mem_filter.mpr ⟨hinner, ?_⟩)
      exact decide_eq_true ((declared inner hinner).mpr rfl)
    have few : ([[l], [k]].mapM kernel 8).2 - 0 ≤ UInt32.size :=
      (by decide : 10 - 0 ≤ UInt32.size)
    exact ⟨l, k, 8, rfl, words few, _, inside, scalar, inner, hinner,
      List.mem_singleton.mp rank, declared⟩

end Fusion

end ArrayFusion
