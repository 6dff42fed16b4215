import ArrayFusion.Fault
import ArrayFusion.Storage.Element

/-!
# Buffers and bases

A buffer is the data of one base. An arena numbers its bases in the order in which they were
inserted. A number is never issued twice, also after the base was removed. A base without data is
unallocated; allocating it fills it with zeros, freeing it drops the data and keeps the base.
-/

namespace ArrayFusion

/-- Elements of one type. -/
structure Buffer where
  dtype : DType
  cells : Array dtype.Elem

namespace Buffer

def zeros (t : DType) (n : Nat) : Buffer := ⟨t, Array.replicate n (Elem.zero t)⟩

def size (b : Buffer) : Nat := b.cells.size

def int? (b : Buffer) (i : Nat) : Option Int := b.cells[i]?.map (Elem.toInt b.dtype)

def float? (b : Buffer) (i : Nat) : Option Float := b.cells[i]?.map (Elem.toFloat b.dtype)

def bool? (b : Buffer) (i : Nat) : Option Bool := b.cells[i]?.map (Elem.toBool b.dtype)

/-- Changes one element. A missing element is left out silently. -/
def change (b : Buffer) (i : Nat) (f : (t : DType) → t.Elem → t.Elem) : Buffer :=
  match b with
  | ⟨t, cells⟩ => ⟨t, cells.modify i (f t)⟩

/-- Changes one element that exists. -/
def update (b : Buffer) (i : Nat) (f : (t : DType) → t.Elem → t.Elem) : Except Fault Buffer :=
  if i < b.size then .ok (b.change i f) else .error (.outOfBounds i b.size)

def setInt (b : Buffer) (i : Nat) (x : Int) : Except Fault Buffer :=
  b.update i fun t => Elem.writeInt t x

def setFloat (b : Buffer) (i : Nat) (x : Float) : Except Fault Buffer :=
  b.update i fun t => Elem.writeFloat t x

end Buffer

/-- Descriptor of an array, with its data if it is allocated. -/
structure Base where
  dtype : DType
  size : Nat
  data : Option Buffer := none

namespace Base

def ofBuffer (b : Buffer) : Base := ⟨b.dtype, b.size, some b⟩

def isAllocated (b : Base) : Bool := b.data.isSome

def byteCount (b : Base) : Nat := b.size * b.dtype.byteSize

end Base

/-- Bases by their numbers. A removed base leaves an empty slot. -/
structure Arena where
  slots : Array (Option Base) := #[]

namespace Arena

instance : Inhabited Arena := ⟨{}⟩

def insert (a : Arena) (b : Base) : Arena := ⟨a.slots.push (some b)⟩

/-- Arena of the bases of a list, numbered from zero. -/
def ofList (bs : List Base) : Arena := bs.foldl insert {}

def get? (a : Arena) (b : BaseId) : Option Base := a.slots[b]?.join

def count (a : Arena) : Nat := a.slots.countP (·.isSome)

def remove (a : Arena) (b : BaseId) : Arena := ⟨a.slots.setIfInBounds b none⟩

def modify (a : Arena) (b : BaseId) (f : Base → Base) : Arena := ⟨a.slots.modify b (·.map f)⟩

/-- Data of a base. -/
def buffer? (a : Arena) (b : BaseId) : Option Buffer := (a.get? b).bind (·.data)

def buffer (a : Arena) (b : BaseId) : Except Fault Buffer :=
  match a.buffer? b with
  | some x => .ok x
  | none => .error (.notAllocated b)

/-- Changes one element of a base. -/
def update (a : Arena) (b : BaseId) (i : Nat) (f : (t : DType) → t.Elem → t.Elem) :
    Except Fault Arena :=
  match (a.buffer? b).map (·.size) with
  | none => .error (.notAllocated b)
  | some size =>
    if i < size then
      .ok (a.modify b fun base => { base with data := base.data.map (·.change i f) })
    else .error (.outOfBounds i size)

def setInt (a : Arena) (b : BaseId) (i : Nat) (x : Int) : Except Fault Arena :=
  a.update b i fun t => Elem.writeInt t x

def setFloat (a : Arena) (b : BaseId) (i : Nat) (x : Float) : Except Fault Arena :=
  a.update b i fun t => Elem.writeFloat t x

/-- Gives an unallocated base zeros. -/
def allocate (a : Arena) (b : BaseId) : Except Fault Arena :=
  match a.get? b with
  | none => .error (.unknownBase b)
  | some base =>
    if base.isAllocated then .ok a
    else .ok (a.modify b fun base => { base with data := some (.zeros base.dtype base.size) })

/-- Drops the data of a base, if there is such a base. -/
def free (a : Arena) (b : BaseId) : Arena := a.modify b fun base => { base with data := none }

/-! What each operation does to the base of a number. -/

@[simp] theorem get?_insert_size (a : Arena) (b : Base) :
    (a.insert b).get? a.slots.size = some b := by
  simp [insert, get?]

theorem get?_insert_of_lt {a : Arena} {c : BaseId} (h : c < a.slots.size) (b : Base) :
    (a.insert b).get? c = a.get? c := by
  simp [insert, get?, Array.getElem?_push_lt, h]

theorem get?_remove (a : Arena) (b c : BaseId) :
    (a.remove b).get? c = if b = c then none else a.get? c := by
  simp only [remove, get?, Array.getElem?_setIfInBounds]
  split
  · split <;> rfl
  · rfl

theorem get?_modify (a : Arena) (b c : BaseId) (f : Base → Base) :
    (a.modify b f).get? c = if b = c then (a.get? c).map f else a.get? c := by
  simp only [modify, get?, Array.getElem?_modify]
  split
  · cases a.slots[c]? <;> simp
  · rfl

/-- A free takes the data of one base and of no other. -/
theorem buffer?_free (a : Arena) (b c : BaseId) :
    (a.free b).buffer? c = if b = c then none else a.buffer? c := by
  simp only [free, buffer?, get?_modify]
  split
  · cases a.get? c <;> rfl
  · rfl

end Arena

end ArrayFusion
