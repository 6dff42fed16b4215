import ArrayFusion.Fault

/-!
# Directories

A directory holds files by name, each with its content and the time at which it was written.
Pruning a directory removes the oldest files.
-/

namespace ArrayFusion

structure StoredFile where
  name : String
  /-- When the file was written. -/
  time : Nat := 0
  content : String := ""
  deriving DecidableEq, Repr, Inhabited

/-- Files of a directory, no two of one name. -/
abbrev Directory := List StoredFile

namespace Directory

def find? (d : Directory) (name : String) : Option StoredFile := List.find? (·.name == name) d

def contains (d : Directory) (name : String) : Bool := d.any (·.name == name)

def erase (d : Directory) (name : String) : Directory := d.filter (·.name != name)

/-- Writes a file, in place of the one of its name if there is one. -/
def write (d : Directory) (f : StoredFile) : Directory := d.erase f.name ++ [f]

/-- Names in their order. -/
def names (d : Directory) : List String := (d.map (·.name)).mergeSort fun a b => decide (a ≤ b)

/-- The first file is older, or as old and first by name. -/
def isBefore (f g : StoredFile) : Bool :=
  decide (f.time < g.time) || (f.time == g.time && decide (f.name ≤ g.name))

/-- Number of files that have to go so that at most the given number remain. -/
def surplus (d : Directory) (limit : Nat) : Nat := d.length - limit

/-- The directory without its oldest files, so that at most the given number remain. -/
def prune (d : Directory) (limit : Nat) : Directory := (d.mergeSort isBefore).drop (d.surplus limit)

theorem find?_write_self (d : Directory) (f : StoredFile) : (d.write f).find? f.name = some f := by
  have gone : List.find? (·.name == f.name) (d.erase f.name) = none := by
    simp [erase]
  simp [find?, write, gone]

theorem find?_write_of_ne {d : Directory} {f : StoredFile} {name : String} (h : f.name ≠ name) :
    (d.write f).find? name = d.find? name := by
  have kept : List.find? (·.name == name) (d.erase f.name) = List.find? (·.name == name) d := by
    rw [erase, List.find?_filter]
    congr
    funext g
    by_cases e : g.name = name
    · simp [e, Ne.symm h]
    · simp [e]
  have other : (f.name == name) = false := by simp [h]
  simp [find?, write, kept, other]

theorem length_prune (d : Directory) (limit : Nat) :
    (d.prune limit).length = min d.length limit := by
  simp only [prune, surplus, List.length_drop, List.length_mergeSort]
  omega

end Directory

end ArrayFusion
