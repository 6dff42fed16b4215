import ArrayFusion.Proofs.Cache.Persist

/-!
# Lifetimes of caches

A cache is made, asked for modules, and closed. What it leaves in the persistent directory, beyond
what it found there, are binaries that the compiler made of its sources. If the cache has returned
the module of such a source, then the binary was loaded.

The other binaries are left too. A binary is handed over once it is made, although loading it may
have failed, and a later cache takes its presence for a kernel that works: it asks the loader alone,
and fails for the source as often as it is asked.
-/

namespace ArrayFusion

variable {σ μ : Type}

/-- A cache from its making to its closing, with the sources whose modules it is asked for. -/
structure Lifetime (σ μ : Type) where
  tools : Toolchain σ μ
  settings : Settings
  context : String
  disk : Disk
  state : σ
  texts : List String

namespace Lifetime

def start (l : Lifetime σ μ) : Workshop σ μ := .new l.settings l.context l.disk l.state

def run (l : Lifetime σ μ) : List (Call μ) × Workshop σ μ :=
  Workshop.calls l.tools l.texts l.start

def calls (l : Lifetime σ μ) : List (Call μ) := l.run.1

/-- The cache after its calls. -/
def final (l : Lifetime σ μ) : Workshop σ μ := l.run.2

/-- The persistent directory when the cache is closed. -/
def left (l : Lifetime σ μ) : Directory := l.final.close.persistent.getD []

/-- The cache has put the file into the persistent directory. -/
def Persisted (l : Lifetime σ μ) (f : StoredFile) : Prop :=
  f ∈ l.left ∧ f ∉ l.disk.persistent.getD []

/-- Name of the binary of a source. -/
def binaryName (l : Lifetime σ μ) (text : String) : String :=
  Fnv.fileName (Fnv.ofText l.context) (Fnv.ofText text) binaryExtension

theorem binaryName_of_collides (l : Lifetime σ μ) {text text' : String}
    (collides : Fnv.ofText text = Fnv.ofText text') :
    l.start.binaryName text = l.binaryName text' := by
  show Fnv.fileName _ (Fnv.ofText text) _ = _
  rw [collides]
  rfl

theorem recorded (l : Lifetime σ μ) :
    Workshop.Recorded l.tools l.texts l.start l.calls l.final := by
  have first : Workshop.History l.start [] l.start :=
    Workshop.History.nil ⟨rfl, rfl⟩ rfl rfl rfl
  obtain ⟨cs, w, recorded⟩ := Workshop.recorded_calls l.tools l.texts first
  have ran : l.run = (cs, w) := recorded.calls_eq
  rw [calls, final, ran]
  exact recorded

theorem history (l : Lifetime σ μ) : Workshop.History l.start l.calls l.final :=
  l.recorded.history

/-- A file that is handed over is a binary that a call made of its source. -/
theorem Persisted.exists_call {l : Lifetime σ μ} {f : StoredFile} (h : l.Persisted f) :
    ∃ c ∈ l.calls, (f.name, f.content) ∈ c.binaries ∧
      (l.calls.flatMap Call.binaries).reverse.lookup f.name = some f.content := by
  obtain ⟨here, fresh⟩ := h
  exact (l.history.mem_close here).resolve_left fresh

/-- What a cache does with the binaries that it makes, and with calls that fail. -/
structure Persists (l : Lifetime σ μ) : Prop where
  /-- The calls end as those that are not recorded. -/
  run_eq : Workshop.lookups l.tools l.texts l.start = (l.calls.map (·.answer), l.final)
  /-- A cache that is closed hands its binaries over. -/
  close_eq : l.final.close.persistent = l.final.persist.disk.persistent
  /-- What is handed over was made of a source of the cache. It was given to the loader then, and
  the call ended as loading it did. -/
  made : ∀ f, l.Persisted f → ∃ c ∈ l.calls, f.name = l.binaryName c.text ∧ c.Made f.content ∧
    .load ⟨.binary, f.name⟩ f.content c.answer ∈ c.uses
  /-- If the module of the source was returned, it was loaded from what is handed over. -/
  loaded : ∀ f, l.Persisted f → ∀ c ∈ l.calls, f.name = l.binaryName c.text → ∀ m,
    c.answer = .ok m → ∃ d ∈ l.calls, .load ⟨.binary, f.name⟩ f.content (.ok m) ∈ d.uses
  /-- All that was made is handed over, if binaries are kept and their number is not limited. -/
  all : l.settings.verbose = false → l.settings.cacheLimit < 0 → l.disk.persistent.isSome →
    ∀ c ∈ l.calls, ∀ content, c.Made content → ∃ f, l.Persisted f ∧ f.name = l.binaryName c.text
  /-- A call that fails leaves the loaded modules as they are, and the binaries to hand over as
  well, unless it has made a binary that can not be loaded. -/
  failed : ∀ text c w, Workshop.call l.tools text l.final = (c, w) → ∀ e, c.answer = .error e →
    w.cache.loaded = l.final.cache.loaded ∧
      (w.cache.fresh = l.final.cache.fresh ∨ ∃ content, c.Made content ∧
        .load ⟨.binary, l.binaryName text⟩ content (.error e) ∈ c.uses ∧
        w.cache.fresh = l.final.cache.fresh ++ [l.binaryName text])

theorem made_of_persisted {l : Lifetime σ μ} {f : StoredFile} (h : l.Persisted f) :
    ∃ c ∈ l.calls, f.name = l.binaryName c.text ∧ c.Made f.content ∧
      .load ⟨.binary, f.name⟩ f.content c.answer ∈ c.uses := by
  obtain ⟨c, hc, here, -⟩ := h.exists_call
  obtain ⟨named, -, made, load⟩ := l.history.made c hc _ _ here
  exact ⟨c, hc, named, made, load⟩

theorem loaded_of_persisted {l : Lifetime σ μ} {f : StoredFile} (h : l.Persisted f) {c : Call μ}
    (hc : c ∈ l.calls) (named : f.name = l.binaryName c.text) {m : μ} (answer : c.answer = .ok m) :
    ∃ d ∈ l.calls, .load ⟨.binary, f.name⟩ f.content (.ok m) ∈ d.uses := by
  obtain ⟨-, -, -, latest⟩ := h.exists_call
  have name : l.start.binaryName c.text = f.name := named.symm
  rw [← name] at latest
  obtain ⟨d, hd, here, answer⟩ := l.history.latest c hc m answer f.content latest
  obtain ⟨-, -, -, load⟩ := l.history.made d hd _ _ here
  rw [answer, name] at load
  exact ⟨d, hd, load⟩

theorem persisted_of_made {l : Lifetime σ μ} (silent : l.settings.verbose = false)
    (unlimited : l.settings.cacheLimit < 0) (kept : l.disk.persistent.isSome) {c : Call μ}
    (hc : c ∈ l.calls) {content : String} (made : c.Made content) :
    ∃ f, l.Persisted f ∧ f.name = l.binaryName c.text := by
  obtain ⟨name, here⟩ := made.exists_mem_binaries
  obtain ⟨named, absent, -⟩ := l.history.made c hc _ _ here
  obtain ⟨f, hf, same⟩ := l.history.exists_mem_close unlimited kept hc here
  refine ⟨f, ⟨hf, ?_⟩, same.trans named⟩
  -- A source whose binary is in the directory is not compiled.
  intro before
  obtain ⟨d, persistent⟩ := Option.isSome_iff_exists.mp kept
  have nothing : d.find? name = none := by
    have absent' : (if l.settings.verbose then none
      else l.disk.persistent.bind (·.find? name)) = none := absent
    rw [silent, persistent] at absent'
    exact absent'
  rw [persistent] at before
  have other := List.find?_eq_none.mp nothing f before
  exact other (beq_iff_eq.mpr same)

theorem failed_call {l : Lifetime σ μ} {text : String} {c : Call μ} {w : Workshop σ μ}
    (ran : Workshop.call l.tools text l.final = (c, w)) {e : Fault} (answer : c.answer = .error e) :
    w.cache.loaded = l.final.cache.loaded ∧
      (w.cache.fresh = l.final.cache.fresh ∨ ∃ content, c.Made content ∧
        .load ⟨.binary, l.binaryName text⟩ content (.error e) ∈ c.uses ∧
        w.cache.fresh = l.final.cache.fresh ++ [l.binaryName text]) := by
  obtain ⟨c', w', ran', -, called⟩ := Workshop.called_call l.tools l.history.ready text
  cases ran.symm.trans ran'
  refine ⟨called.loaded_of_error answer, ?_⟩
  have named : l.final.binaryName text = l.binaryName text := l.history.binaryName_eq text
  have fresh := called.fresh_eq
  cases called with
  | hit => contradiction
  | kept | refused => exact .inl (fresh.trans (List.append_nil _))
  | @compiled content result =>
    cases answer
    rw [named] at fresh ⊢
    exact .inr ⟨content, ⟨_, _, List.mem_cons_self⟩, by simp, fresh⟩

/-- Binaries are handed over as soon as they are made, and were loaded if their source was
returned. -/
theorem persists (l : Lifetime σ μ) : l.Persists where
  run_eq := l.recorded.lookups_eq
  close_eq := l.final.persistent_close
  made _ h := made_of_persisted h
  loaded _ h _ hc named _ answer := loaded_of_persisted h hc named answer
  all silent unlimited kept _ hc _ made := persisted_of_made silent unlimited kept hc made
  failed _ _ _ ran _ answer := failed_call ran answer

/-- A compiler that copies, and a loader that loads nothing. -/
def failing : Toolchain Unit Unit where
  compile _ _ text := fun state => (.ok text, state)
  load _ _ := fun state => (.error (.tool .moduleLoad ""), state)
  launch _ _ a := fun state => (a, state)

/-- A binary that was never loaded is handed over. -/
theorem persisted_of_failing : ∃ l : Lifetime Unit Unit, l.tools = failing ∧ l.texts = ["kernel"] ∧
    (∀ c ∈ l.calls, ∃ e, c.answer = .error e) ∧ ∃ f, l.Persisted f := by
  let l : Lifetime Unit Unit :=
    { tools := failing, settings := { cacheLimit := -1 }, context := "cc"
      disk := { persistent := some [] }, state := (), texts := ["kernel"] }
  let c : Call Unit :=
    { text := "kernel", answer := .error (.tool .moduleLoad "")
      uses := [.compile ⟨.binary, l.binaryName "kernel"⟩ ⟨.source, l.start.sourceName "kernel"⟩
        "kernel" (.ok "kernel"),
        .load ⟨.binary, l.binaryName "kernel"⟩ "kernel" (.error (.tool .moduleLoad ""))] }
  have calls : l.calls = [c] := rfl
  refine ⟨l, rfl, rfl, ?_, ?_⟩
  · intro d hd
    rw [calls] at hd
    obtain rfl := List.mem_singleton.mp hd
    exact ⟨_, rfl⟩
  · have here : c ∈ l.calls := by
      rw [calls]
      exact List.mem_singleton_self c
    obtain ⟨f, persisted, -⟩ :=
      l.persists.all rfl (by decide) rfl c here "kernel" ⟨_, _, List.mem_cons_self⟩
    exact ⟨f, persisted⟩

/-- A cache that finds a binary that can not be loaded fails for its source as often as it is asked,
and never compiles the source. -/
theorem fails_of_found {l : Lifetime σ μ} {text : String} {f : StoredFile}
    (found : l.start.kept? (l.binaryName text) = some f)
    (unloadable : ∀ place state, ∃ e, (l.tools.load place f.content state).1 = .error e)
    {c : Call μ} (hc : c ∈ l.calls) (same : c.text = text) :
    (∃ e, c.answer = .error e) ∧ ∀ content, ¬ c.Made content := by
  have absent : ∀ d ∈ l.calls, Fnv.ofText d.text = Fnv.ofText text → ∀ name content,
      (name, content) ∉ d.binaries := by
    intro d hd collides name content here
    obtain ⟨rfl, nothing, -⟩ := l.history.made d hd name content here
    rw [l.binaryName_of_collides collides, found] at nothing
    contradiction
  subst same
  constructor
  · cases answer : c.answer with
    | error e => exact ⟨e, rfl⟩
    | ok m =>
      obtain ⟨d, hd, collides, place, content, load, source⟩ := l.history.origin c hc m answer
      rcases source with ⟨g, found', rfl⟩ | made
      · rw [l.binaryName_of_collides collides, found] at found'
        cases found'
        obtain ⟨before, after, split⟩ := List.append_of_mem hd
        obtain ⟨_, _, -, -, called, -⟩ := l.recorded.each before d after split
        obtain ⟨state, after, loads⟩ := called.of_load load
        obtain ⟨e, fails⟩ := unloadable place state
        rw [loads] at fails
        contradiction
      · exact absurd (made ▸ List.mem_singleton_self _) (absent d hd collides _ content)
  · intro content made
    obtain ⟨name, here⟩ := made.exists_mem_binaries
    exact absent c hc rfl name content here

end Lifetime

end ArrayFusion
