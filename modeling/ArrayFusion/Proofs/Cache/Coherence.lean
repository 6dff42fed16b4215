import ArrayFusion.Proofs.Cache.Lifetime
import Mathlib.Data.Set.Function

/-!
# Coherence of caches

Caches share a persistent directory, and each of them finds there what earlier ones have left. If
hashes tell the sources and the contexts apart, then no source is ever given the module of another
one: what a cache returns was loaded from a binary that was made of this very source under its
context, by the cache itself or by an earlier one. A source that was returned once is neither
compiled nor loaded again, and the counts of a cache are at every point those of its calls.
-/

namespace ArrayFusion

variable {σ μ : Type}

/-- A key may be replaced by one that tells the same sources apart. -/
theorem Call.countNew_eq {κ κ' : Type} [DecidableEq κ] [DecidableEq κ'] {key : String → κ}
    {key' : String → κ'} {before cs : List (Call μ)}
    (alike : ∀ c ∈ before ++ cs, ∀ d ∈ before ++ cs,
      key d.text = key c.text ↔ key' d.text = key' c.text) :
    countNew key before cs = countNew key' before cs := by
  induction cs generalizing before with
  | nil => rfl
  | cons c cs ih =>
    have test : (before.any fun d => key d.text == key c.text && d.answer.isOk) =
        before.any fun d => key' d.text == key' c.text && d.answer.isOk := by
      rw [Bool.eq_iff_iff, List.any_eq_true, List.any_eq_true]
      apply exists_congr
      intro d
      apply and_congr_right
      intro hd
      have same := alike c (by simp) d (List.mem_append_left _ hd)
      rw [Bool.and_eq_true, Bool.and_eq_true, beq_iff_eq, beq_iff_eq, same]
    rw [countNew, countNew, test, ih (by simpa using alike)]

theorem Workshop.mem_of_kept? {w : Workshop σ μ} {name : String} {f : StoredFile}
    (found : w.kept? name = some f) : f ∈ w.disk.persistent.getD [] ∧ f.name = name := by
  rw [kept?] at found
  split at found
  · contradiction
  · obtain ⟨d, persistent, found⟩ := Option.bind_eq_some_iff.mp found
    have named := List.find?_some found
    rw [persistent]
    exact ⟨List.mem_of_find?_eq_some found, beq_iff_eq.mp named⟩

namespace Lifetime

/-- A cache follows others: hashes tell their sources and their contexts apart, and every file that
it finds was put there by one of them. -/
structure Follows (l : Lifetime σ μ) (earlier : List (Lifetime σ μ)) : Prop where
  texts : Set.InjOn Fnv.ofText {text | ∃ k ∈ l :: earlier, text ∈ k.texts}
  contexts : Set.InjOn Fnv.ofText {context | ∃ k ∈ l :: earlier, k.context = context}
  found : ∀ f ∈ l.disk.persistent.getD [], ∃ k ∈ earlier, k.Persisted f

/-- The source is compiled, or its binary is loaded. -/
def Concerns (l : Lifetime σ μ) (text : String) : ToolUse μ → Prop
  | .compile _ _ text' _ => text' = text
  | .load binary _ _ => binary.name = l.binaryName text

/-- The call makes the binary of its source. An earlier cache may have made it. -/
def Supplies (l : Lifetime σ μ) (earlier : List (Lifetime σ μ)) (c : Call μ) (content : String) :
    Prop :=
  c.Made content ∨ ∃ k ∈ earlier, k.context = l.context ∧
    ∃ d ∈ k.calls, d.text = c.text ∧ d.Made content

/-- What is known of the calls of a cache that follows others. -/
structure Coherent (l : Lifetime σ μ) (earlier : List (Lifetime σ μ)) : Prop where
  /-- The calls end as those that are not recorded. -/
  run_eq : Workshop.lookups l.tools l.texts l.start = (l.calls.map (·.answer), l.final)
  texts_eq : l.calls.map (·.text) = l.texts
  /-- No two contexts or sources with different hashes have binaries of one name. -/
  names : Function.Injective fun hashes : UInt64 × UInt64 =>
    Fnv.fileName hashes.1 hashes.2 binaryExtension
  /-- A module that is returned was loaded, by this call or one before, from a binary that was made
  of the source under the context. -/
  origin : ∀ before c after, l.calls = before ++ c :: after → ∀ m, c.answer = .ok m →
    ∃ d ∈ before ++ [c], d.text = c.text ∧ ∃ folder content,
      .load ⟨folder, l.binaryName c.text⟩ content (.ok m) ∈ d.uses ∧ l.Supplies earlier d content
  /-- Once a source was returned, it is returned always, and no tool is used for it. -/
  once : ∀ before c after, l.calls = before ++ c :: after → ∀ d ∈ before, ∀ m, d.answer = .ok m →
    (d.text = c.text → c.answer = .ok m) ∧ ∀ use ∈ c.uses, ¬ l.Concerns d.text use
  /-- At every point, the counts are those of the calls until then: all, those of sources that were
  not returned before, and those in which the compiler has made a binary. -/
  stats : ∀ before after, l.calls = before ++ after → ∃ w,
    Workshop.calls l.tools (before.map (·.text)) l.start = (before, w) ∧ w.cache.stats =
      { lookups := before.length
        misses := Call.countNew id [] before
        compilations := (before.flatMap Call.binaries).length }
  /-- What is left for the caches that follow is from this cache or an earlier one. -/
  left : ∀ f ∈ l.left, ∃ k ∈ l :: earlier, k.Persisted f

section Coherence

variable {l : Lifetime σ μ} {earlier : List (Lifetime σ μ)} {before after : List (Call μ)}
variable {c : Call μ}

theorem mem_texts {c : Call μ} (hc : c ∈ l.calls) : c.text ∈ l.texts := by
  rw [← l.recorded.texts_eq]
  exact List.mem_map_of_mem hc

/-- Calls with the same hash have the same source. -/
theorem Follows.text_eq (h : l.Follows earlier) {k k' : Lifetime σ μ} (hk : k ∈ l :: earlier)
    (hk' : k' ∈ l :: earlier) {c d : Call μ} (hc : c ∈ k.calls) (hd : d ∈ k'.calls)
    (same : Fnv.ofText c.text = Fnv.ofText d.text) : c.text = d.text := by
  apply h.texts
  · exact ⟨k, hk, mem_texts hc⟩
  · exact ⟨k', hk', mem_texts hd⟩
  · exact same

/-- What is found under the name of a source was made of it, under this context. -/
theorem Follows.exists_made (h : l.Follows earlier) (hc : c ∈ l.calls) {f : StoredFile}
    (found : l.start.kept? (l.start.binaryName c.text) = some f) :
    ∃ k ∈ earlier, k.context = l.context ∧ ∃ d ∈ k.calls, d.text = c.text ∧ d.Made f.content := by
  obtain ⟨here, named⟩ := Workshop.mem_of_kept? found
  obtain ⟨k, hk, persisted⟩ := h.found f here
  obtain ⟨d, hd, named', made, -⟩ := k.made_of_persisted persisted
  obtain ⟨contexts, sources⟩ := Fnv.fileName_inj (named'.symm.trans named)
  have member : k ∈ l :: earlier := List.mem_cons_of_mem l hk
  refine ⟨k, hk, ?_, d, hd, ?_, made⟩
  · exact h.contexts ⟨k, member, rfl⟩ ⟨l, List.mem_cons_self, rfl⟩ contexts
  · exact h.text_eq member List.mem_cons_self hd hc sources

/-- The cache before a call, and the call. -/
theorem exists_called (split : l.calls = before ++ c :: after) : ∃ w₁ w₂,
    Workshop.calls l.tools (before.map (·.text)) l.start = (before, w₁) ∧
      Workshop.History l.start before w₁ ∧ Workshop.Called l.tools w₁ c.text c w₂ ∧
      Workshop.History l.start (before ++ [c]) w₂ :=
  l.recorded.each before c after split

theorem Follows.origin (h : l.Follows earlier) (split : l.calls = before ++ c :: after) {m : μ}
    (answer : c.answer = .ok m) : ∃ d ∈ before ++ [c], d.text = c.text ∧ ∃ folder content,
      .load ⟨folder, l.binaryName c.text⟩ content (.ok m) ∈ d.uses ∧
        l.Supplies earlier d content := by
  obtain ⟨_, _, -, -, -, history⟩ := l.exists_called split
  have own : ∀ d ∈ before ++ [c], d ∈ l.calls := by
    intro d hd
    rw [split, List.append_cons]
    exact List.mem_append_left after hd
  have now : c ∈ before ++ [c] := List.mem_append_right before (List.mem_singleton_self c)
  obtain ⟨d, hd, same, place, content, load, source⟩ := history.origin c now m answer
  have same : d.text = c.text :=
    h.text_eq List.mem_cons_self List.mem_cons_self (own d hd) (own c now) same
  have name : place.name = l.binaryName c.text := by
    obtain ⟨before', after', split'⟩ := List.append_of_mem (own d hd)
    obtain ⟨_, _, -, history', called, -⟩ := l.exists_called split'
    have named : place.name = _ := called.of_use _ load
    rw [history'.binaryName_eq, same] at named
    exact named
  refine ⟨d, hd, same, place.folder, content, name ▸ load, ?_⟩
  rcases source with ⟨f, found, rfl⟩ | made
  · exact .inr (h.exists_made (own d hd) found)
  · have here : (l.start.binaryName d.text, content) ∈ d.binaries := by
      rw [made]
      exact List.mem_singleton_self _
    obtain ⟨-, -, made, -⟩ := history.made d hd _ _ here
    exact .inl made

theorem Follows.once (h : l.Follows earlier) (split : l.calls = before ++ c :: after) {d : Call μ}
    (hd : d ∈ before) {m : μ} (answer : d.answer = .ok m) :
    (d.text = c.text → c.answer = .ok m) ∧ ∀ use ∈ c.uses, ¬ l.Concerns d.text use := by
  obtain ⟨w, _, -, history, called, -⟩ := l.exists_called split
  have loaded : w.cache.loaded.lookup (Fnv.ofText d.text) = some m :=
    (history.loaded _ m).mpr ⟨d, hd, rfl, answer⟩
  by_cases same : d.text = c.text
  · -- The module is loaded, so the call has no use for tools.
    rw [same] at loaded
    obtain ⟨answer, unused⟩ := called.of_loaded loaded
    rw [unused]
    exact ⟨fun _ => answer, fun use member => absurd member List.not_mem_nil⟩
  · refine ⟨fun same' => absurd same' same, ?_⟩
    intro use member concerns
    have hd' : d ∈ l.calls := split ▸ List.mem_append_left _ hd
    have hc : c ∈ l.calls := split ▸ List.mem_append_right _ List.mem_cons_self
    have about := called.of_use use member
    cases use with
    | compile => exact same (concerns.symm.trans about.2.2)
    | load =>
      have named : l.binaryName d.text = w.binaryName c.text := concerns.symm.trans about
      rw [history.binaryName_eq] at named
      obtain ⟨-, collides⟩ := Fnv.fileName_inj named
      exact same (h.text_eq List.mem_cons_self List.mem_cons_self hd' hc collides)

theorem Follows.stats (h : l.Follows earlier) (split : l.calls = before ++ after) : ∃ w,
    Workshop.calls l.tools (before.map (·.text)) l.start = (before, w) ∧ w.cache.stats =
      { lookups := before.length
        misses := Call.countNew id [] before
        compilations := (before.flatMap Call.binaries).length } := by
  have own : ∀ d ∈ before, d ∈ l.calls := fun d hd => split ▸ List.mem_append_left after hd
  have keys : Call.countNew Fnv.ofText [] before = Call.countNew id [] before := by
    apply Call.countNew_eq
    intro c hc d hd
    constructor
    · exact h.text_eq List.mem_cons_self List.mem_cons_self (own d hd) (own c hc)
    · exact congrArg Fnv.ofText
  obtain ⟨w, ran, history⟩ : ∃ w, Workshop.calls l.tools (before.map (·.text)) l.start =
      (before, w) ∧ Workshop.History l.start before w := by
    cases after with
    | nil =>
      have recorded := l.recorded
      rw [split, List.append_nil] at recorded
      refine ⟨l.final, ?_, recorded.history⟩
      rw [recorded.texts_eq]
      exact recorded.calls_eq
    | cons c after =>
      obtain ⟨w, _, ran, history, -⟩ := l.exists_called split
      exact ⟨w, ran, history⟩
  exact ⟨w, ran, history.stats.trans (by rw [keys])⟩

/-- A cache that follows others is coherent. -/
theorem coherent_of_follows (h : l.Follows earlier) : l.Coherent earlier where
  run_eq := l.recorded.lookups_eq
  texts_eq := l.recorded.texts_eq
  names := by
    intro hashes hashes' same
    obtain ⟨contexts, sources⟩ := Fnv.fileName_inj same
    exact Prod.ext contexts sources
  origin _ _ _ split _ answer := h.origin split answer
  once _ _ _ split _ hd _ answer := h.once split hd answer
  stats _ _ split := h.stats split
  left f hf := by
    by_cases before : f ∈ l.disk.persistent.getD []
    · obtain ⟨k, hk, persisted⟩ := h.found f before
      exact ⟨k, List.mem_cons_of_mem l hk, persisted⟩
    · exact ⟨l, List.mem_cons_self, hf, before⟩

end Coherence

/-- A compiler that copies, and a loader that reads. -/
def reading : Toolchain Unit String where
  compile _ _ text := fun state => (.ok text, state)
  load _ content := fun state => (.ok content, state)
  launch _ _ a := fun state => (a, state)

/-- A cache is opened on what the one before has left. -/
theorem coherent_of_reopened : ∃ l k : Lifetime Unit String, k.texts = ["kernel"] ∧
    l.texts = ["kernel", "kernel"] ∧ l.disk.persistent = some k.left ∧ (∃ f, k.Persisted f) ∧
    l.Follows [k] ∧ l.Coherent [k] := by
  let k : Lifetime Unit String :=
    { tools := reading, settings := { cacheLimit := -1 }, context := "cc"
      disk := { persistent := some [] }, state := (), texts := ["kernel"] }
  let l : Lifetime Unit String :=
    { k with disk := { persistent := some k.left }, texts := ["kernel", "kernel"] }
  have fresh : ∀ f ∈ k.left, k.Persisted f := fun f hf => ⟨hf, List.not_mem_nil⟩
  let c : Call String :=
    { text := "kernel", answer := .ok "kernel"
      uses := [.compile ⟨.binary, k.binaryName "kernel"⟩ ⟨.source, k.start.sourceName "kernel"⟩
        "kernel" (.ok "kernel"), .load ⟨.binary, k.binaryName "kernel"⟩ "kernel" (.ok "kernel")] }
  have calls : k.calls = [c] := rfl
  have here : c ∈ k.calls := by
    rw [calls]
    exact List.mem_singleton_self c
  have made : c.Made "kernel" := ⟨_, _, List.mem_cons_self⟩
  obtain ⟨f, persisted, -⟩ := persisted_of_made rfl (by decide) rfl here made
  have follows : l.Follows [k] := by
    constructor
    · have only : ∀ text, (∃ k' ∈ [l, k], text ∈ k'.texts) → text = "kernel" := by
        simp [l, k]
      intro text here text' here' _
      exact (only text here).trans (only text' here').symm
    · have only : ∀ context, (∃ k' ∈ [l, k], k'.context = context) → context = "cc" := by
        simp [l, k]
      intro context here context' here' _
      exact (only context here).trans (only context' here').symm
    · intro f hf
      exact ⟨k, List.mem_singleton_self k, fresh f hf⟩
  exact ⟨l, k, rfl, rfl, rfl, ⟨f, persisted⟩, follows, coherent_of_follows follows⟩

end Lifetime

end ArrayFusion
