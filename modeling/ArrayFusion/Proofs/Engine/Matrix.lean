import ArrayFusion.Engine.Matrix
import ArrayFusion.Proofs.Eval.Action
import ArrayFusion.Proofs.Lists
import ArrayFusion.Proofs.Storage.Cells
import ArrayFusion.Proofs.View.Addresses

/-!
# The matrix product, element by element

The product of two matrices is computed from the arena as it was, and then written one element after
the other. So it does not matter whether the output shares its base with an input. Writing can fail
although computing did not, because a place of the output is not an element of its base. The elements
before this place are written then, and they stay written: nothing takes them back.

`Stored` describes what a number of stores has done. It is kept by one more store in front
(`Stored.cons`), which carries the induction over the places.
-/

namespace ArrayFusion

open Shape

theorem Elem.writeFloat_writeFloat (t : DType) (y z : Float) (x : t.Elem) :
    writeFloat t y (writeFloat t z x) = writeFloat t y x := by
  cases t with
  | random =>
    obtain ⟨start, key⟩ := x
    rfl
  | _ => rfl

namespace MatrixView

variable {i : Instruction} {m out left right : MatrixView} {a a' : Arena}

/-! ## Places -/

/-- Row and column of every element, row by row. -/
def places (m : MatrixView) : List (Int × Int) :=
  (below m.rows.size).flatMap fun r => (below m.columns.size).map fun c => (r, c)

/-- Address of an element. -/
def address (m : MatrixView) (place : Int × Int) : Int :=
  m.view.start + place.1 * m.rows.stride + place.2 * m.columns.stride

theorem mem_below {n k : Int} : k ∈ below n ↔ 0 ≤ k ∧ k < n := by
  simp only [below, List.mem_map, List.mem_range]
  constructor
  · rintro ⟨j, inside, rfl⟩
    exact ⟨Int.natCast_nonneg j, Int.lt_of_toNat_lt inside⟩
  · rintro ⟨lower, upper⟩
    exact ⟨k.toNat, by omega, Int.toNat_of_nonneg lower⟩

theorem mem_places {place : Int × Int} : place ∈ m.places ↔
    (0 ≤ place.1 ∧ place.1 < m.rows.size) ∧ 0 ≤ place.2 ∧ place.2 < m.columns.size := by
  obtain ⟨r, c⟩ := place
  simp [places, mem_below]

theorem axes_of_ofOperand {k : Nat} (h : ofOperand i k = .ok m) :
    i.operands[k]? = some m.view ∧ m.view.base = some m.base ∧
      m.view.axes = [m.rows, m.columns] := by
  rw [ofOperand] at h
  split at h
  next v operand =>
    split at h
    next b rows columns base axes =>
      cases h
      exact ⟨operand, base, axes⟩
    next => contradiction
  next => contradiction

theorem positions_eq (m : MatrixView) :
    positions m.shape = m.places.map fun place => [place.1, place.2] := by
  simp [shape, positions, places, below, List.map_flatMap, List.flatMap_map, Function.comp_def,
    ← List.map_eq_flatMap]

/-- A matrix without negative sizes names its elements in the order of their places. -/
theorem addresses_eq (axes : m.view.axes = [m.rows, m.columns]) (rows : 0 ≤ m.rows.size)
    (columns : 0 ≤ m.columns.size) : m.view.addresses = m.places.map m.address := by
  have sizes : ∀ a ∈ m.view.axes, 0 ≤ a.size := by
    rw [axes]
    simp [rows, columns]
  have shape : m.view.shape = m.shape := by rw [View.shape, axes]; rfl
  rw [View.addresses_eq sizes, shape, positions_eq, List.map_map, axes]
  refine List.map_congr_left fun place _ => ?_
  simp only [Function.comp_apply, View.offsetAt, address]
  ring

/-- No place names an element that another place names, if no address is listed twice. -/
theorem nodup_addresses (axes : m.view.axes = [m.rows, m.columns])
    (once : m.view.addresses.Nodup) : (m.places.map m.address).Nodup := by
  by_cases sizes : 0 ≤ m.rows.size ∧ 0 ≤ m.columns.size
  · rwa [← addresses_eq axes sizes.1 sizes.2]
  · -- With a negative size there are no places at all.
    have none : m.places = [] := by
      refine List.eq_nil_iff_forall_not_mem.mpr fun place member => sizes ?_
      have := mem_places.mp member
      omega
    rw [none]
    exact List.nodup_nil

/-! ## Sums -/

/-- Value of the element at a place, if there is one. -/
def element? (m : MatrixView) (a : Arena) (place : Int × Int) : Option Float :=
  if m.address place < 0 then none
  else (a.cell? m.base (m.address place).toNat).map fun x => Elem.toFloat x.1 x.2

/-- The sum of the products of a row and a column, first product first. -/
def IsDot (left right : MatrixView) (a : Arena) (place : Int × Int) (sum : Float) : Prop :=
  ∃ x y : Int → Float,
    (∀ k, 0 ≤ k → k < left.columns.size →
      left.element? a (place.1, k) = some (x k) ∧ right.element? a (k, place.2) = some (y k)) ∧
    sum = (below left.columns.size).foldl (fun s k => s + x k * y k) 0.0

theorem position_eq_ok {r c : Int} {p : Nat} : m.position r c = .ok p ↔ m.address (r, c) = p := by
  change (if m.address (r, c) < 0 then .error (Fault.negativeMatrixElement m.view)
    else .ok (m.address (r, c)).toNat) = Except.ok p ↔ _
  by_cases negative : m.address (r, c) < 0
  · simp only [negative, if_true, reduceCtorEq, false_iff]
    omega
  · simp only [negative, if_false, Except.ok.injEq]
    omega

theorem element?_of_read {x : Buffer} {r c : Int} {y : Float} (data : a.buffer? m.base = some x)
    (h : m.read i x r c = .ok y) : m.element? a (r, c) = some y := by
  obtain ⟨p, position, found⟩ := exists_of_bind_eq_ok h
  have address := position_eq_ok.mp position
  have value : x.float? p = some y := by
    cases here : x.float? p with
    | none => simp only [here] at found; cases found
    | some z => simp only [here] at found; cases found; rfl
  rw [Buffer.float?] at value
  rw [element?, address, if_neg (by omega), Int.toNat_natCast, Arena.cell?, data, Option.bind_some,
    Buffer.cell?, Option.map_map]
  exact value

theorem isDot_of_dot {x y : Buffer} {r c : Int} {sum : Float}
    (dataLeft : a.buffer? left.base = some x) (dataRight : a.buffer? right.base = some y)
    (h : dot i left right x y r c = .ok sum) : IsDot left right a (r, c) sum := by
  let u (k : Int) : Float := (left.element? a (r, k)).getD 0.0
  let v (k : Int) : Float := (right.element? a (k, c)).getD 0.0
  suffices general : ∀ (ks : List Int) (s : Float),
      ks.foldlM (fun s k => do
        let x ← left.read i x r k
        let y ← right.read i y k c
        pure (s + x * y)) s = .ok sum →
      (∀ k ∈ ks, left.element? a (r, k) = some (u k) ∧ right.element? a (k, c) = some (v k)) ∧
        sum = ks.foldl (fun s k => s + u k * v k) s by
    obtain ⟨entries, total⟩ := general _ _ h
    exact ⟨u, v, fun k lower upper => entries k (mem_below.mpr ⟨lower, upper⟩), total⟩
  intro ks
  induction ks with
  | nil =>
    intro s h
    cases h
    exact ⟨by simp, rfl⟩
  | cons k ks ih =>
    intro s h
    obtain ⟨s', first, rest⟩ := exists_of_bind_eq_ok h
    obtain ⟨x, readLeft, next⟩ := exists_of_bind_eq_ok first
    obtain ⟨y, readRight, last⟩ := exists_of_bind_eq_ok next
    cases last
    have entryLeft := element?_of_read dataLeft readLeft
    have entryRight := element?_of_read dataRight readRight
    obtain ⟨entries, total⟩ := ih _ rest
    refine ⟨List.forall_mem_cons.mpr ⟨⟨?_, ?_⟩, entries⟩, ?_⟩
    · simp only [u, entryLeft, Option.getD_some]
    · simp only [v, entryRight, Option.getD_some]
    · simpa only [List.foldl_cons, u, v, entryLeft, entryRight, Option.getD_some] using total

/-- The elements of a product that is computed are the sums at all places of the output. -/
theorem exists_sums {elements : List ((Int × Int) × Float)}
    (shape : out.shape = [left.rows.size, right.columns.size])
    (h : product i left right a = .ok elements) : ∃ value : Int × Int → Float,
      elements = (out.places.map fun place => (place, value place)) ∧
      ∀ place ∈ out.places, IsDot left right a place (value place) := by
  obtain ⟨x, dataLeft, h⟩ := exists_of_bind_eq_ok h
  obtain ⟨y, dataRight, h⟩ := exists_of_bind_eq_ok h
  have dataLeft := Arena.buffer_eq_ok.mp dataLeft
  have dataRight := Arena.buffer_eq_ok.mp dataRight
  let sum (place : Int × Int) := dot i left right x y place.1 place.2
  have listed : List.Forall₂ (fun place element => ∃ s, sum place = .ok s ∧ element = (place, s))
      out.places elements := by
    obtain ⟨rows, columns⟩ : out.rows.size = left.rows.size ∧
        out.columns.size = right.columns.size := by simpa [MatrixView.shape] using shape
    rw [places, rows, columns]
    refine (forall₂_of_mapM h).imp fun place element computed => ?_
    obtain ⟨s, found, same⟩ := exists_of_bind_eq_ok computed
    exact ⟨s, found, (Except.ok.inj same).symm⟩
  refine ⟨fun place => (sum place).toOption.getD 0.0, ?_, fun place member => ?_⟩
  · refine (List.map_id elements).symm.trans (map_eq_of_forall₂ listed ?_)
    rintro place element ⟨s, found, rfl⟩
    simp [found, Except.toOption]
  · obtain ⟨element, -, s, found, -⟩ := exists_of_forall₂ listed.flip member
    have dot := isDot_of_dot dataLeft dataRight found
    simpa [found, Except.toOption] using dot

/-! ## Stores -/

/-- The element of a place has taken a number. -/
def Takes (out : MatrixView) (a a' : Arena) (place : Int × Int) (x : Float) : Prop :=
  ∃ (p : Nat) (c : Cell), out.address place = p ∧ a.cell? out.base p = some c ∧
    a'.cell? out.base p = some ⟨c.1, Elem.writeFloat c.1 x c.2⟩

/-- The output's base has no element for a place. -/
def Lacks (out : MatrixView) (a : Arena) (place : Int × Int) : Prop :=
  ∀ p : Nat, out.address place = p → a.cell? out.base p = none

/-- What storing numbers at some places, one after the other, has done: of several stores to one
element the last one counts, and nothing else has changed. -/
structure Stored (out : MatrixView) (value : Int × Int → Float) (done : List (Int × Int))
    (a a' : Arena) : Prop where
  layout : a'.layout = a.layout
  last : ∀ before place after, done = before ++ place :: after →
    (∀ later ∈ after, out.address later ≠ out.address place) → out.Takes a a' place (value place)
  kept : ∀ b p, (b = out.base → ∀ place ∈ done, out.address place ≠ (p : Nat)) →
    a'.cell? b p = a.cell? b p

variable {value : Int × Int → Float} {done : List (Int × Int)} {place : Int × Int} {x : Float}

theorem Stored.nil : Stored out value [] a a where
  layout := rfl
  last before place after h := by simp at h
  kept _ _ _ := rfl

/-- If no element is stored twice, every place has its number. -/
theorem Stored.takes (h : Stored out value done a a') (once : (done.map out.address).Nodup)
    (member : place ∈ done) : out.Takes a a' place (value place) := by
  obtain ⟨before, after, rfl⟩ := List.append_of_mem member
  refine h.last before place after rfl fun later hlater same => ?_
  rw [List.map_append, List.map_cons] at once
  have apart := (List.nodup_cons.mp (List.nodup_append.mp once).2.1).1
  exact apart (same ▸ List.mem_map_of_mem hlater)

theorem of_store_eq_ok (h : store out place x a = .ok a') :
    a'.layout = a.layout ∧ out.Takes a a' place x ∧
      ∀ b p, (b = out.base → out.address place ≠ (p : Nat)) → a'.cell? b p = a.cell? b p := by
  obtain ⟨p, position, stored⟩ := exists_of_bind_eq_ok h
  have address := position_eq_ok.mp position
  obtain ⟨layout, ⟨c, old, new⟩, kept⟩ := Arena.of_update_eq_ok stored
  refine ⟨layout, ⟨p, c, address, old, new⟩, fun b q other => kept b q fun same hq => ?_⟩
  exact other same (hq ▸ address)

theorem lacks_of_store_eq_error {e : Fault} (h : store out place x a = .error e) :
    out.Lacks a place := by
  intro p address
  have position : out.position place.1 place.2 = .ok p := position_eq_ok.mpr address
  rw [store, position] at h
  exact Arena.cell?_of_update_eq_error h

/-- One more store in front of others. -/
theorem Stored.cons {b : Arena} (first : store out place (value place) a = .ok b)
    (rest : Stored out value done b a') : Stored out value (place :: done) a a' := by
  obtain ⟨layout, ⟨p, c, address, old, new⟩, kept⟩ := of_store_eq_ok first
  refine ⟨rest.layout.trans layout, fun before next after split apart => ?_, fun b' q outside => ?_⟩
  · cases before with
    | nil =>
      -- Nothing behind the first store touches its element again.
      obtain ⟨rfl, rfl⟩ := List.cons.inj split
      refine ⟨p, c, address, old, ?_⟩
      rw [rest.kept out.base p fun _ later hlater => address ▸ apart later hlater, new]
    | cons first before =>
      obtain ⟨rfl, rfl⟩ := List.cons.inj split
      obtain ⟨q, d, addressNext, oldNext, newNext⟩ := rest.last before next after rfl apart
      by_cases same : p = q
      · -- The second store to an element wins.
        subst same
        obtain rfl := Option.some.inj (new.symm.trans oldNext)
        refine ⟨p, c, addressNext, old, ?_⟩
        rw [newNext, Elem.writeFloat_writeFloat]
      · have before := kept out.base q fun _ here => same (by omega)
        exact ⟨q, d, addressNext, before ▸ oldNext, newNext⟩
  · rw [rest.kept b' q fun base later hlater => outside base later (List.mem_cons_of_mem _ hlater)]
    exact kept b' q fun base => outside base place List.mem_cons_self

/-- Storing numbers at places goes well up to some place, which is not an element of the base. -/
theorem run_stores (out : MatrixView) (value : Int × Int → Float) (places : List (Int × Int))
    (a : Arena) :
    let r := (places.map fun place => (place, value place)).forM
      (fun y => Exec.change (store out y.1 y.2)) a
    (r.1 = .ok () → Stored out value places a r.2) ∧
    ∀ e, r.1 = .error e → ∃ done place later, places = done ++ place :: later ∧
      Stored out value done a r.2 ∧ out.Lacks a place := by
  induction places generalizing a with
  | nil => exact ⟨fun _ => .nil, fun e h => by cases h⟩
  | cons place places ih =>
    intro r
    have run : r = (Exec.change (store out place (value place)) >>= fun _ =>
        (places.map fun place => (place, value place)).forM
          fun y => Exec.change (store out y.1 y.2)) a := rfl
    rw [Exec.run_bind, Exec.run_change] at run
    cases stored : store out place (value place) a with
    | error e =>
      rw [stored] at run
      rw [run]
      refine ⟨fun h => ?_, fun e _ => ⟨[], place, places, rfl, .nil, ?_⟩⟩
      · cases h
      · exact lacks_of_store_eq_error stored
    | ok b =>
      rw [stored] at run
      rw [run]
      obtain ⟨well, ill⟩ := ih b
      refine ⟨fun h => .cons stored (well h), fun e h => ?_⟩
      obtain ⟨done, next, later, rfl, rest, lacks⟩ := ill e h
      have layout := (of_store_eq_ok stored).1
      exact ⟨place :: done, next, later, rfl, .cons stored rest, fun p address =>
        Arena.cell?_eq_none_of_layout layout (lacks p address)⟩

end MatrixView

/-- A computation without arena leaves the arena as it is. -/
theorem Exec.run_liftM {α : Type} (x : Except Fault α) (a : Arena) :
    (liftM x : Exec α) a = (x, a) := by
  cases x <;> rfl

open MatrixView

namespace Extension

variable {i : Instruction} {out left right : MatrixView}

/-- Before the first store a fault leaves everything as it was. -/
theorem run_matrixProduct (hout : ofOperand i 0 = .ok out) (hleft : ofOperand i 1 = .ok left)
    (hright : ofOperand i 2 = .ok right) (a : Arena) :
    (∃ e, matrixProduct i a = (.error e, a)) ∨
      ∃ elements, out.shape = [left.rows.size, right.columns.size] ∧
        product i left right a = .ok elements ∧
        matrixProduct i a = elements.forM (fun y => Exec.change (store out y.1 y.2)) a := by
  simp only [matrixProduct, hout, hleft, hright, Exec.run_bind, Exec.run_liftM]
  by_cases shapes : right.rows.size ≠ left.columns.size ∨
      out.shape ≠ [left.rows.size, right.columns.size]
  · rw [if_pos shapes]
    exact .inl ⟨_, rfl⟩
  rw [if_neg shapes]
  by_cases negative : left.rows.size * right.columns.size < 0
  · rw [if_pos negative]
    exact .inl ⟨_, rfl⟩
  rw [if_neg negative]
  simp only [Exec.run_bind, Exec.run_get, Exec.run_liftM]
  cases computed : product i left right a with
  | error e => exact .inl ⟨e, rfl⟩
  | ok elements =>
    cases allocated : a.buffer out.base with
    | error e => exact .inl ⟨e, by simp [allocated]⟩
    | ok x => exact .inr ⟨elements, (not_or.mp shapes).2 |> not_not.mp, rfl, by simp [allocated]⟩

/-- What the product of two matrices does.

If it goes well, every element of the output has taken the sum of its row and its column in the arena
as it was, of several elements at one address the last one, and nothing else has changed. If it
fails, nothing has changed, or all sums were computed and exactly the elements before some place,
row by row, were written, which the base of the output has no element for. -/
theorem matrixProduct_exact (hout : ofOperand i 0 = .ok out) (hleft : ofOperand i 1 = .ok left)
    (hright : ofOperand i 2 = .ok right) (a : Arena) :
    let r := matrixProduct i a
    (r.1 = .ok () → ∃ value : Int × Int → Float,
      (∀ place ∈ out.places, IsDot left right a place (value place)) ∧
      Stored out value out.places a r.2 ∧
      (out.view.addresses.Nodup →
        ∀ place ∈ out.places, out.Takes a r.2 place (value place))) ∧
    ∀ e, r.1 = .error e → r.2 = a ∨ ∃ (value : Int × Int → Float) (done : List (Int × Int))
      (place : Int × Int) (later : List (Int × Int)),
      (∀ place ∈ out.places, IsDot left right a place (value place)) ∧
      out.places = done ++ place :: later ∧ Stored out value done a r.2 ∧ out.Lacks a place := by
  intro r
  obtain ⟨e, early⟩ | ⟨elements, shape, computed, run⟩ := run_matrixProduct hout hleft hright a
  · have same : r = (.error e, a) := early
    rw [same]
    exact ⟨fun h => (by cases h), fun _ _ => .inl rfl⟩
  · obtain ⟨value, rfl, sums⟩ := exists_sums shape computed
    have same : r = _ := run
    obtain ⟨well, ill⟩ := run_stores out value out.places a
    rw [← same] at well ill
    have axes := (axes_of_ofOperand hout).2.2
    refine ⟨fun h => ⟨value, sums, well h, fun once place member => ?_⟩, fun e h => .inr ?_⟩
    · exact (well h).takes (nodup_addresses axes once) member
    · obtain ⟨done, place, later, split, stored, lacks⟩ := ill e h
      exact ⟨value, done, place, later, sums, split, stored, lacks⟩

/-- A matrix is squared in its own base. -/
theorem matrixProduct_exact_square :
    let square : View := { base := some 0, dtype := .float64, axes := [⟨2, 2⟩, ⟨2, 1⟩] }
    let i : Instruction := { opcode := .extension 3, operands := [square, square, square] }
    let m : MatrixView := ⟨square, 0, ⟨2, 2⟩, ⟨2, 1⟩⟩
    let a := Arena.ofList [.ofBuffer ⟨.float64, #[1.0, 2.0, 3.0, 4.0]⟩]
    ∃ sum, IsDot m m a (0, 1) sum ∧ m.Takes a (matrixProduct i a).2 (0, 1) sum ∧
      ((matrixProduct i a).2.buffer? 0).bind (·.float? 1) = some 10.0 := by
  intro square i m a
  obtain ⟨value, sums, -, takes⟩ :=
    (matrixProduct_exact (rfl : ofOperand i 0 = .ok m) (rfl : ofOperand i 1 = .ok m)
      (rfl : ofOperand i 2 = .ok m) a).1 rfl
  have member : ((0, 1) : Int × Int) ∈ m.places := by decide
  exact ⟨value (0, 1), sums _ member, takes (by decide) _ member, by decide +kernel⟩

/-- A product that does not fit into the base of its output is written as far as it fits. -/
theorem matrixProduct_not_atomic :
    let row (b : BaseId) (columns : Int) : View :=
      { base := some b, dtype := .float64, axes := [⟨1, 1⟩, ⟨columns, 1⟩] }
    let i : Instruction := { opcode := .extension 3, operands := [row 0 2, row 1 1, row 2 2] }
    let a := Arena.ofList [.ofBuffer ⟨.float64, #[7.0]⟩, .ofBuffer ⟨.float64, #[2.0]⟩,
      .ofBuffer ⟨.float64, #[3.0, 4.0]⟩]
    (∀ v ∈ i.operands, v.ndim = 2) ∧ (matrixProduct i a).1 = .error (.outOfBounds 1 1) ∧
      (a.buffer? 0).bind (·.float? 0) = some 7.0 ∧
      ((matrixProduct i a).2.buffer? 0).bind (·.float? 0) = some 6.0 ∧
      (matrixProduct i a).2 ≠ a := by
  intro row i a
  have before : (a.buffer? 0).bind (·.float? 0) = some 7.0 := by decide +kernel
  have after : ((matrixProduct i a).2.buffer? 0).bind (·.float? 0) = some 6.0 := by decide +kernel
  refine ⟨by decide, rfl, before, after, fun same => ?_⟩
  rw [same, before] at after
  exact absurd after (by decide +kernel)

end Extension

end ArrayFusion
