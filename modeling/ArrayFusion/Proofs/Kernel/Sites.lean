import ArrayFusion.Proofs.Engine.Kernel
import ArrayFusion.Proofs.Eval.ScalarTemps
import ArrayFusion.Proofs.Fusion.Isolation
import ArrayFusion.Proofs.Kernel.Symbols
import Mathlib.Data.List.Nodup

/-!
# The loop that declares a scalar temporary

The symbols of a kernel see its statements with the numbers of the loops around them. As all loops
have different numbers, all accesses of a scalar temporary stand directly in the body of the one
loop that declares it.
-/

namespace ArrayFusion

namespace Node

variable {n : Node}

/-- No loop has the number of a loop around it. -/
theorem id_not_mem_body (distinct : n.ids.Nodup) :
    ∀ l ∈ n.nests, l.head.id ∉ l.body.flatMap ids := by
  intro l hl
  have own : l.ids.Nodup := ((nests_sublist n l hl).map _).nodup distinct
  rw [Nest.ids_eq] at own
  exact (List.nodup_cons.mp own).1

/-- A loop is known by its number. -/
theorem eq_of_id_eq (distinct : n.ids.Nodup) {l l' : Nest} (hl : l ∈ n.nests) (hl' : l' ∈ n.nests)
    (same : l.head.id = l'.head.id) : l = l' :=
  List.inj_on_of_nodup_map distinct hl hl' same

end Node

namespace Symbols

variable {kernel : Nest} {passing : Passing} {b : BaseId} {loop : Nat}

/-- All statements access a scalar temporary by one view, and only those in the loop that declares
it access it at all. -/
theorem accessesBy_of_mem_scalarTempsOf (h : b ∈ (ofKernel kernel passing).scalarTempsOf loop) :
    ∃ v : View, ∀ id i, (id, i) ∈ kernel.sites → i.AccessesBy b v ∧ (id ≠ loop → i.Ignores b) := by
  obtain ⟨-, v, accesses⟩ := of_mem_scalarTempsOf h
  have known : ∀ id i, (id, i) ∈ kernel.sites → ∀ k w, i.operands[k]? = some w → w.base = some b →
      i.isIndirect k = false ∧ (k = 0 → i.opcode.isSweep = false) ∧ id = loop ∧
        w.start = v.start ∧ w.axes = v.axes := by
    intro id i site k w hw base
    have member : (b, _) ∈ Access.ofSite (id, i) := Access.mem_ofSite.mpr ⟨k, w, hw, base, rfl⟩
    obtain ⟨direct, own, same⟩ := accesses _
      (mem_accessesOf.mpr (List.mem_flatMap.mpr ⟨(id, i), site, member⟩))
    obtain ⟨-, start, axes⟩ := View.sameAccess_iff.mp same
    simp only [Bool.not_eq_true', Bool.or_eq_false_iff, Bool.and_eq_false_imp, beq_iff_eq] at direct
    exact ⟨direct.1.1, direct.1.2, own, start, axes⟩
  refine ⟨v, fun id i site => ⟨fun k w hw base => ?_, fun other w hw base => ?_⟩⟩
  · obtain ⟨direct, unswept, -, same⟩ := known id i site k w hw base
    exact ⟨direct, unswept, same⟩
  · obtain ⟨k, hk⟩ := List.getElem?_of_mem hw
    exact other (known id i site k w hk base).2.2.1

/-- The symbols know which elements of the base the view addresses. -/
theorem bounds_of_accessesBy (passing : Passing) {s : Statement} (hs : s ∈ kernel.statements)
    (computes : s.Computes) {v : View} (accesses : s.instr.AccessesBy b v)
    (output : s.instr.outputBase? = some b) :
    ∀ y ∈ v.addresses, (ofKernel kernel passing).lowest b ≤ y ∧
      y < (ofKernel kernel passing).extent b := by
  intro y hy
  obtain ⟨out, hout, base⟩ := Instruction.outputBase?_eq_some_iff.mp output
  obtain ⟨-, -, start, axes⟩ := accesses 0 out hout base
  have sizes := (computes.views out (List.mem_of_getElem? hout)).sizes
  rw [axes] at sizes
  obtain ⟨r, range, rfl⟩ := (View.mem_addresses sizes).mp hy
  rw [← axes, ← start]
  refine bounds_of_inRange passing hs hout base ?_
  rwa [View.shape, axes]

end Symbols

/-- The statements of a nest that create a base write it first of all: they do not read it, and if
the base is only accessed by one view that is not empty, no statement before them accesses it. -/
structure Nest.CreatesFirst (l : Nest) (b : BaseId) : Prop where
  writes : ∀ s ∈ l.statements, Nest.Creates b s → s.instr.WritesFirst b
  first : ∀ v : View, 0 < v.elements → (∀ s ∈ l.statements, s.instr.AccessesBy b v) →
    l.statements.Pairwise fun s t => Nest.Creates b t → s.instr.Ignores b

namespace Fusion

variable {l : Nest} {next : Nat} {passing : Passing} {x : LocalScalar}

theorem sites_kernel (l : Nest) (next : Nat) :
    (kernel [l] next).1.sites = l.toNode.sites next := List.append_nil _

theorem exists_creates_of_mem_allTemps (layout : l.toNode.Layout []) {b : BaseId}
    (temporary : b ∈ (kernel [l] next).1.allTemps) : ∃ s ∈ l.statements, Nest.Creates b s := by
  rw [Nest.allTemps, BaseSet.mem_inter] at temporary
  have news : b ∈ (Nest.kernel [l.toNode] next).1.allNews := temporary.2
  rw [Nest.mem_allNews_kernel (by simpa using Nest.recordsNews_of_layout layout)] at news
  simpa [Node.bodyStatements] using news

/-- Loops inside of the loop that declares a scalar have other numbers, and so have the accesses in
them. -/
theorem ignores_of_mem_body (distinct : l.ids.Nodup)
    (others : ∀ id i, (id, i) ∈ l.toNode.sites next → id ≠ x.loop → i.Ignores x.base)
    {inner : Nest} (hinner : inner ∈ l.toNode.nests) (own : inner.head.id = x.loop) {m : Node}
    (hm : m ∈ inner.body) (isLoop : m.isLoop = true) : m.Ignores x := by
  have apart : x.loop ∉ m.ids := by
    rw [← own]
    exact fun member => Node.id_not_mem_body distinct inner hinner
      (List.mem_flatMap.mpr ⟨m, hm, member⟩)
  refine ⟨fun s hs => ?_, apart⟩
  obtain ⟨id, site⟩ := Node.exists_site hs inner.head.id
  have inside : (id, s.instr) ∈ l.toNode.sites next := by
    refine Node.bodySites_subset _ next inner hinner _ ?_
    rw [Node.bodySites_eq_flatMap]
    exact List.mem_flatMap.mpr ⟨m, hm, site⟩
  refine others id s.instr inside fun same => apart ?_
  obtain ⟨l', hl', known, -⟩ := Node.leaf_of_mem_sites m isLoop inner.head.id _ site
  have number : l'.head.id = x.loop := known.trans same
  exact number ▸ List.mem_map_of_mem hl'

/-- A temporary is created in the body of the loop that all its accesses stand in. -/
theorem exists_creator (layout : l.toNode.Layout []) (distinct : l.ids.Nodup)
    (others : ∀ id i, (id, i) ∈ l.toNode.sites next → id ≠ x.loop → i.Ignores x.base)
    (temporary : x.base ∈ (kernel [l] next).1.allTemps) {inner : Nest}
    (hinner : inner ∈ l.toNode.nests) (own : inner.head.id = x.loop) :
    ∃ s rank, .leaf s rank ∈ inner.body ∧ Nest.Creates x.base s := by
  obtain ⟨c, hc, created⟩ := exists_creates_of_mem_allTemps layout temporary
  obtain ⟨id, site⟩ := Node.exists_site (n := l.toNode) (by simpa using hc) next
  have same : id = x.loop := by
    by_contra apart
    obtain ⟨out, hout, base⟩ := Instruction.outputBase?_eq_some_iff.mp created.2
    exact others id c.instr site apart out (List.mem_of_getElem? hout) base
  obtain ⟨l', hl', known, s, rank, hs, instr⟩ := Node.leaf_of_mem_sites _ rfl next _ site
  have number : l'.head.id = inner.head.id := (known.trans same).trans own.symm
  obtain rfl := Node.eq_of_id_eq distinct hl' hinner number
  have creates : s.instr = c.instr := instr
  exact ⟨s, rank, hs, by rwa [Nest.Creates, creates]⟩

/-- A scalar temporary is local to the loop that declares it. -/
theorem localizes_of_mem_scalarTempsOf (layout : l.toNode.Layout []) (distinct : l.ids.Nodup)
    (creates : l.CreatesFirst x.base)
    (declared : x.base ∈ (Symbols.ofKernel (kernel [l] next).1 passing).scalarTempsOf x.loop) :
    ∃ v, (∀ s ∈ l.statements, s.instr.AccessesBy x.base v) ∧ l.toNode.Localizes x v := by
  obtain ⟨v, accesses⟩ := Symbols.accessesBy_of_mem_scalarTempsOf declared
  rw [sites_kernel] at accesses
  have others := fun id i site => (accesses id i site).2
  have inside : ∀ inner ∈ l.toNode.nests, ∀ s rank, .leaf s rank ∈ inner.body →
      (inner.head.id, s.instr) ∈ l.toNode.sites next := fun inner hinner s rank hs =>
    Node.bodySites_subset _ next inner hinner _ (Node.mem_bodySites_of_leaf hs _)
  have all : ∀ s ∈ l.statements, s.instr.AccessesBy x.base v := by
    intro s hs
    obtain ⟨id, site⟩ := Node.exists_site (n := l.toNode) (by simpa using hs) next
    exact (accesses id s.instr site).1
  refine ⟨v, all, fun inner hinner => ⟨fun own => ?_, fun other s rank hs => ?_⟩⟩
  swap
  · exact others _ s.instr (inside inner hinner s rank hs) other
  have sub := Node.statements_sublist_of_mem_nests _ inner hinner
  rw [Nest.statements_toNode] at sub
  obtain ⟨s, rank, hs, created⟩ := exists_creator layout distinct others
    (Symbols.of_mem_scalarTempsOf declared).1 hinner own
  obtain ⟨pre, post, split⟩ := List.append_of_mem hs
  have statements : inner.statements =
      Node.bodyStatements pre ++ s :: Node.bodyStatements post := by
    rw [Nest.statements, split, Node.bodyStatements_append]
    rfl
  refine ⟨fun m hm isLoop => ignores_of_mem_body distinct others hinner own hm isLoop,
    fun s rank hs => (accesses _ s.instr (inside inner hinner s rank hs)).1,
    pre, s, rank, post, split, ?_, fun nonempty t r ht => ?_⟩
  · exact creates.writes s (sub.subset (by simp [statements])) created
  · have ordered := (creates.first v nonempty all).sublist sub
    rw [statements, List.pairwise_append] at ordered
    have member : t ∈ Node.bodyStatements pre := (Node.statements_sublist ht).subset (by
      simp [Node.statements])
    exact ordered.2.2 t member s List.mem_cons_self created

end Fusion

end ArrayFusion
