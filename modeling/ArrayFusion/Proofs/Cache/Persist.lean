import ArrayFusion.Proofs.Cache.History

/-!
# Binaries that outlive a cache

When a cache is closed, its fresh binaries are copied to the persistent directory. Each of them was
made by a call of the cache, and it was loaded if the cache has ever returned its source. A call
that fails leaves the loaded modules as they are.

A binary is fresh as soon as it is made, before it is loaded. So a binary that can not be loaded is
copied too, unless its source is compiled again and loaded. The next cache finds it and fails.
-/

namespace ArrayFusion

namespace Directory

/-- The latest file of a name is found. -/
theorem find?_writeAll (files : List (String × String)) (d : Directory) (name : String) :
    ((Workshop.writeAll files d).find? name).map (·.content) =
      (files.reverse.lookup name).or ((d.find? name).map (·.content)) := by
  induction files generalizing d with
  | nil => rfl
  | cons file files ih =>
    obtain ⟨name', content⟩ := file
    have first : Workshop.writeAll ((name', content) :: files) d =
        Workshop.writeAll files (d.write { name := name', content }) := rfl
    rw [first, ih, List.reverse_cons, List.lookup_append, Option.or_assoc]
    congr 1
    by_cases same : name' = name
    · subst same
      rw [find?_write_self d { name := name', content }]
      simp
    · rw [find?_write_of_ne (f := { name := name', content }) same]
      simp [List.lookup_cons, beq_false_of_ne (Ne.symm same)]

theorem mem_of_mem_write {d : Directory} {f g : StoredFile} (h : g ∈ d.write f) : g ∈ d ∨ g = f := by
  rcases List.mem_append.mp h with old | new
  · exact .inl (List.mem_of_mem_filter old)
  · exact .inr (List.mem_singleton.mp new)

/-- No name is lost when a file is written. -/
theorem exists_mem_write {d : Directory} {f : StoredFile} {name : String}
    (h : f.name = name ∨ ∃ g ∈ d, g.name = name) : ∃ g ∈ d.write f, g.name = name := by
  by_cases same : f.name = name
  · exact ⟨f, List.mem_append_right _ (List.mem_singleton_self f), same⟩
  · obtain ⟨g, hg, named⟩ := h.resolve_left same
    have other : (g.name != f.name) = true := by
      rw [bne_iff_ne, named]
      exact Ne.symm same
    exact ⟨g, List.mem_append_left _ (List.mem_filter.mpr ⟨hg, other⟩), named⟩

theorem mem_of_mem_prune {d : Directory} {limit : Nat} {f : StoredFile} (h : f ∈ d.prune limit) :
    f ∈ d := List.mem_mergeSort.mp (List.mem_of_mem_drop h)

end Directory

namespace Workshop

variable {σ μ : Type}

/-- One copy: nothing is done, or a file is written that has the content of the binary. -/
theorem copyFresh_cases (binary d : Directory) (clock : Nat) (name : String) :
    (copyFresh binary (d, clock) name = (d, clock) ∧
      ((∃ f ∈ d, f.name = name) ∨ binary.find? name = none)) ∨
    ∃ f : StoredFile, copyFresh binary (d, clock) name = (d.write f, clock + 1) ∧ f.name = name ∧
      (binary.find? name).map (·.content) = some f.content := by
  rw [copyFresh]
  cases found : binary.find? name with
  | none => exact .inl ⟨rfl, .inr rfl⟩
  | some g =>
    dsimp only
    split
    next present =>
      obtain ⟨f, hf, same⟩ := List.any_eq_true.mp present
      exact .inl ⟨rfl, .inl ⟨f, hf, beq_iff_eq.mp same⟩⟩
    next =>
      have named := List.find?_some found
      exact .inr ⟨{ g with time := clock }, rfl, beq_iff_eq.mp named, rfl⟩

/-- What is copied has the content of the fresh binary of its name. -/
theorem mem_copyFresh {binary d d' : Directory} {clock clock' : Nat} {names : List String}
    (copied : names.foldl (copyFresh binary) (d, clock) = (d', clock')) {f : StoredFile}
    (hf : f ∈ d') :
    f ∈ d ∨ (f.name ∈ names ∧ (binary.find? f.name).map (·.content) = some f.content) := by
  induction names generalizing d clock with
  | nil =>
    cases copied
    exact .inl hf
  | cons name names ih =>
    rw [List.foldl_cons] at copied
    have widen : (f.name ∈ names ∧ (binary.find? f.name).map (·.content) = some f.content) →
        f.name ∈ name :: names ∧ (binary.find? f.name).map (·.content) = some f.content :=
      fun ⟨inside, found⟩ => ⟨List.mem_cons_of_mem name inside, found⟩
    rcases copyFresh_cases binary d clock name with ⟨same, -⟩ | ⟨g, written, rfl, content⟩
    · rw [same] at copied
      exact (ih copied).imp_right widen
    · rw [written] at copied
      rcases ih copied with here | later
      · rcases Directory.mem_of_mem_write here with old | rfl
        · exact .inl old
        · exact .inr ⟨List.mem_cons_self, content⟩
      · exact .inr (widen later)

/-- A fresh binary that is not gone is copied, unless there is one of its name. -/
theorem exists_mem_copyFresh {binary d d' : Directory} {clock clock' : Nat} {names : List String}
    (copied : names.foldl (copyFresh binary) (d, clock) = (d', clock')) {name : String}
    (h : (∃ f ∈ d, f.name = name) ∨ (name ∈ names ∧ (binary.find? name).isSome)) :
    ∃ f ∈ d', f.name = name := by
  induction names generalizing d clock with
  | nil =>
    cases copied
    exact h.elim id fun ⟨inside, _⟩ => absurd inside List.not_mem_nil
  | cons name' names ih =>
    rw [List.foldl_cons] at copied
    rcases copyFresh_cases binary d clock name' with ⟨same, present⟩ | ⟨g, written, rfl, -⟩
    · rw [same] at copied
      refine ih copied ?_
      rcases h with before | ⟨inside, here⟩
      · exact .inl before
      · rcases List.mem_cons.mp inside with rfl | later
        · exact .inl (present.resolve_right (Option.isSome_iff_ne_none.mp here))
        · exact .inr ⟨later, here⟩
    · rw [written] at copied
      refine ih copied ?_
      rcases h with before | ⟨inside, here⟩
      · exact .inl (Directory.exists_mem_write (.inr before))
      · rcases List.mem_cons.mp inside with rfl | later
        · exact .inl (Directory.exists_mem_write (.inl rfl))
        · exact .inr ⟨later, here⟩

/-- A cache hands over nothing but fresh binaries. -/
theorem mem_persist {w : Workshop σ μ} {f : StoredFile}
    (hf : f ∈ w.persist.disk.persistent.getD []) :
    f ∈ w.disk.persistent.getD [] ∨ (f.name ∈ w.cache.fresh ∧
      ((w.disk.binary.getD []).find? f.name).map (·.content) = some f.content) := by
  rw [persist] at hf
  cases persistent : w.disk.persistent with
  | none =>
    rw [persistent] at hf
    exact absurd (persistent ▸ hf) List.not_mem_nil
  | some d =>
    rw [persistent] at hf
    cases copied : w.cache.fresh.foldl (copyFresh (w.disk.binary.getD [])) (d, w.disk.clock) with
    | mk d' clock' =>
      simp only [copied] at hf
      refine mem_copyFresh copied ?_
      split at hf
      · exact hf
      · exact Directory.mem_of_mem_prune hf

/-- Every fresh binary that is not gone is handed over, if the number of files is not limited. -/
theorem exists_mem_persist {w : Workshop σ μ} (unlimited : w.cache.limit < 0)
    (kept : w.disk.persistent.isSome) {name : String} (fresh : name ∈ w.cache.fresh)
    (here : ((w.disk.binary.getD []).find? name).isSome) :
    ∃ f ∈ w.persist.disk.persistent.getD [], f.name = name := by
  obtain ⟨d, persistent⟩ := Option.isSome_iff_exists.mp kept
  cases copied : w.cache.fresh.foldl (copyFresh (w.disk.binary.getD [])) (d, w.disk.clock) with
  | mk d' clock' =>
    rw [persist, persistent]
    simp only [copied, if_pos unlimited]
    exact exists_mem_copyFresh copied (.inr ⟨fresh, here⟩)

theorem persistent_close (w : Workshop σ μ) : w.close.persistent = w.persist.disk.persistent := by
  rw [close]
  split <;> rfl

namespace History

variable {start w : Workshop σ μ} {cs : List (Call μ)} (h : History start cs w)

include h

/-- The directory of binaries holds the latest binary of every name that is fresh. -/
theorem find?_fresh {name : String} (fresh : name ∈ w.cache.fresh) :
    ∃ content, (cs.flatMap Call.binaries).reverse.lookup name = some content ∧
      ((w.disk.binary.getD []).find? name).map (·.content) = some content := by
  rw [h.fresh] at fresh
  obtain ⟨⟨name, made⟩, member, rfl⟩ := List.mem_map.mp fresh
  have directory := h.ready.binary
  rw [h.binary, Option.isSome_map] at directory
  obtain ⟨d, directory⟩ := Option.isSome_iff_exists.mp directory
  cases found : (cs.flatMap Call.binaries).reverse.lookup name with
  | some content =>
    refine ⟨content, rfl, ?_⟩
    rw [h.binary, directory, Option.map_some, Option.getD_some, Directory.find?_writeAll, found,
      Option.some_or]
  | none =>
    rw [List.lookup_eq_none_iff] at found
    have other := found _ (List.mem_reverse.mpr member)
    simp at other

/-- What a cache hands over is the latest binary of some source that its calls compiled. -/
theorem mem_close {f : StoredFile} (hf : f ∈ w.close.persistent.getD []) :
    f ∈ start.disk.persistent.getD [] ∨ ∃ c ∈ cs, (f.name, f.content) ∈ c.binaries ∧
      (cs.flatMap Call.binaries).reverse.lookup f.name = some f.content := by
  rw [persistent_close] at hf
  rcases mem_persist hf with old | ⟨fresh, here⟩
  · rw [h.persistent_eq] at old
    exact .inl old
  · obtain ⟨content, latest, found⟩ := h.find?_fresh fresh
    cases here.symm.trans found
    obtain ⟨c, hc, inside⟩ := List.mem_flatMap.mp (List.mem_reverse.mp (mem_of_lookup latest))
    exact .inr ⟨c, hc, inside, latest⟩

/-- Every binary that was made is handed over. -/
theorem exists_mem_close (unlimited : start.cache.limit < 0) (kept : start.disk.persistent.isSome)
    {c : Call μ} (hc : c ∈ cs) {name content : String} (made : (name, content) ∈ c.binaries) :
    ∃ f ∈ w.close.persistent.getD [], f.name = name := by
  have fresh : name ∈ w.cache.fresh := by
    rw [h.fresh]
    exact List.mem_map.mpr ⟨_, List.mem_flatMap.mpr ⟨c, hc, made⟩, rfl⟩
  obtain ⟨content', -, found⟩ := h.find?_fresh fresh
  rw [persistent_close]
  refine exists_mem_persist (h.limit_eq ▸ unlimited) (h.persistent_eq ▸ kept) fresh ?_
  rw [← Option.isSome_map, found]
  rfl

end History

end Workshop

end ArrayFusion
