import ArrayFusion.Proofs.Kernel.Symbols
import ArrayFusion.Proofs.View.Odometer
import Mathlib.Order.Bounds.Basic

/-!
# The ranges of the bases of a kernel

A kernel binds of every base the range from the lowest element that some operand accesses to the
highest one. The range is exact: both ends are addresses of operands, and a base that only empty
operands name has no range at all. The end of an axis with a negative stride is its lowest element,
so a reversed operand reaches below its start.
-/

namespace ArrayFusion

open Shape

namespace View

variable {v : View}

/-- The extent of a view that is not empty consists of its lowest and its highest address. -/
theorem extent_exact (sizes : ∀ a ∈ v.axes, 0 ≤ a.size) (nonempty : v.elements ≠ 0) :
    IsLeast {x | x ∈ v.addresses} v.extent.1 ∧ IsGreatest {x | x ∈ v.addresses} v.extent.2 := by
  obtain ⟨low, high⟩ := extent_mem_addresses sizes nonempty
  exact ⟨⟨low, fun x hx => (extent_bounds sizes hx).1⟩, high, fun x hx => (extent_bounds sizes hx).2⟩

end View

namespace Access

variable {as : List Access}

/-- Accesses have no range exactly if all their views are empty. -/
theorem range?_eq_none_iff : range? as = none ↔ ∀ a ∈ as, a.view.elements ≤ 0 := by
  induction as with
  | nil => simp [range?]
  | cons first rest ih =>
    rw [range?, List.forall_mem_cons]
    by_cases empty : first.view.elements ≤ 0
    · simp [empty, ih]
    · simp only [empty, if_false, false_and, iff_false]
      cases range? rest <;> simp

/-- Both ends of a range are those of views that are not empty. -/
theorem range?_attained {range : Int × Int} (h : range? as = some range) :
    (∃ a ∈ as, 0 < a.view.elements ∧ a.view.extent.1 = range.1) ∧
      ∃ a ∈ as, 0 < a.view.elements ∧ a.view.extent.2 + 1 = range.2 := by
  induction as generalizing range with
  | nil => simp [range?] at h
  | cons first rest ih =>
    have later : ∀ {p : Access → Prop}, (∃ a ∈ rest, p a) → ∃ a ∈ first :: rest, p a := by
      rintro p ⟨a, ha, holds⟩
      exact ⟨a, List.mem_cons_of_mem first ha, holds⟩
    rw [range?] at h
    by_cases empty : first.view.elements ≤ 0
    · rw [if_pos empty] at h
      exact (ih h).imp later later
    · have here : 0 < first.view.elements := by omega
      simp only [empty, if_false] at h
      cases found : range? rest with
      | none =>
        simp only [found, Option.some.injEq] at h
        subst h
        exact ⟨⟨first, List.mem_cons_self, here, rfl⟩, first, List.mem_cons_self, here, rfl⟩
      | some inner =>
        obtain ⟨low, high⟩ := ih found
        simp only [found, Option.some.injEq] at h
        subst h
        constructor
        · rcases Int.le_total first.view.extent.1 inner.1 with less | less
          · exact ⟨first, List.mem_cons_self, here, (Int.min_eq_left less).symm⟩
          · rw [Int.min_eq_right less]
            exact later low
        · rcases Int.le_total (first.view.extent.2 + 1) inner.2 with less | less
          · rw [Int.max_eq_right less]
            exact later high
          · exact ⟨first, List.mem_cons_self, here, (Int.max_eq_left less).symm⟩

end Access

/-- The operands of a kernel on a base. -/
def Nest.operandsOn (kernel : Nest) (b : BaseId) : Set View :=
  {v | v.base = some b ∧ ∃ s ∈ kernel.statements, v ∈ s.instr.operands}

/-- The elements of a base that the operands of a kernel name. -/
def Nest.addressesOn (kernel : Nest) (b : BaseId) : Set Int :=
  {x | ∃ v ∈ kernel.operandsOn b, x ∈ v.addresses}

namespace Symbols

variable {kernel : Nest} {b : BaseId}

/-- The accesses of a base are the operands on it. -/
theorem exists_access_iff (passing : Passing) {v : View} :
    (∃ a ∈ (ofKernel kernel passing).accessesOf b, a.view = v) ↔ v ∈ kernel.operandsOn b := by
  constructor
  · rintro ⟨a, access, rfl⟩
    obtain ⟨⟨id, i⟩, site, listed⟩ := List.mem_flatMap.mp (mem_accessesOf.mp access)
    obtain ⟨k, v, operand, base, rfl⟩ := Access.mem_ofSite.mp listed
    have instr : i ∈ kernel.statements.map (·.instr) :=
      Node.map_snd_bodySites kernel.head.id kernel.body ▸ List.mem_map_of_mem site
    obtain ⟨s, hs, rfl⟩ := List.mem_map.mp instr
    exact ⟨base, s, hs, List.mem_of_getElem? operand⟩
  · rintro ⟨base, s, hs, operand⟩
    obtain ⟨k, at_⟩ := List.mem_iff_getElem?.mp operand
    obtain ⟨a, access, same⟩ := exists_access passing hs at_ base
    exact ⟨a, mem_accessesOf.mpr access, same⟩

/-- A base on which all operands are empty has no range. -/
theorem range_of_empty (passing : Passing) (empty : ∀ v ∈ kernel.operandsOn b, v.elements = 0) :
    (ofKernel kernel passing).lowest b = 0 ∧ (ofKernel kernel passing).extent b = 0 := by
  have none : Access.range? ((ofKernel kernel passing).accessesOf b) = none :=
    Access.range?_eq_none_iff.mpr fun a access =>
      (empty a.view ((exists_access_iff passing).mp ⟨a, access, rfl⟩)).le
  rw [lowest, extent, none]
  exact ⟨rfl, rfl⟩

/-- The range of any other base reaches from the lowest to the highest element. -/
theorem range_exact (passing : Passing)
    (sizes : ∀ v ∈ kernel.operandsOn b, ∀ a ∈ v.axes, 0 ≤ a.size)
    (nonempty : ∃ v ∈ kernel.operandsOn b, v.elements ≠ 0) :
    IsLeast (kernel.addressesOn b) ((ofKernel kernel passing).lowest b) ∧
      IsGreatest (kernel.addressesOn b) ((ofKernel kernel passing).extent b - 1) := by
  have operand : ∀ a ∈ (ofKernel kernel passing).accessesOf b, a.view ∈ kernel.operandsOn b :=
    fun a ha => (exists_access_iff passing).mp ⟨a, ha, rfl⟩
  have ends : ∀ a ∈ (ofKernel kernel passing).accessesOf b, 0 < a.view.elements →
      a.view.extent.1 ∈ kernel.addressesOn b ∧ a.view.extent.2 ∈ kernel.addressesOn b := by
    intro a access positive
    have on := operand a access
    obtain ⟨low, high⟩ := View.extent_mem_addresses (sizes _ on) positive.ne'
    exact ⟨⟨a.view, on, low⟩, a.view, on, high⟩
  have covered : ∀ x ∈ kernel.addressesOn b,
      (ofKernel kernel passing).lowest b ≤ x ∧ x < (ofKernel kernel passing).extent b := by
    rintro x ⟨v, on, address⟩
    obtain ⟨base, s, hs, member⟩ := on
    obtain ⟨idx, inside, rfl⟩ := (View.mem_addresses (sizes _ ⟨base, s, hs, member⟩)).mp address
    obtain ⟨k, at_⟩ := List.mem_iff_getElem?.mp member
    exact bounds_of_inRange passing hs at_ base inside
  obtain ⟨v, on, some⟩ := nonempty
  obtain ⟨a, access, rfl⟩ := (exists_access_iff passing).mpr on
  have positive : 0 < a.view.elements := by
    have count : 0 ≤ elementCount a.view.shape :=
      elementCount_nonneg (by simpa [View.shape] using sizes _ on)
    exact lt_of_le_of_ne count some.symm
  cases found : Access.range? ((ofKernel kernel passing).accessesOf b) with
  | none =>
    have := Access.range?_eq_none_iff.mp found a access
    omega
  | some range =>
    obtain ⟨⟨lo, lowAccess, lowPositive, low⟩, hi, highAccess, highPositive, high⟩ :=
      Access.range?_attained found
    have lowest : (ofKernel kernel passing).lowest b = lo.view.extent.1 := by
      rw [Symbols.lowest, found, low]
      rfl
    have highest : (ofKernel kernel passing).extent b - 1 = hi.view.extent.2 := by
      rw [extent, found, ← Int.add_sub_cancel hi.view.extent.2 1, high]
      rfl
    refine ⟨⟨?_, fun x hx => (covered x hx).1⟩, ?_, fun x hx => ?_⟩
    · rw [lowest]
      exact (ends lo lowAccess lowPositive).1
    · rw [highest]
      exact (ends hi highAccess highPositive).2
    · exact Int.le_sub_one_of_lt (covered x hx).2

end Symbols

end ArrayFusion
