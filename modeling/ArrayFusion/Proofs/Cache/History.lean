import ArrayFusion.Proofs.Cache.Calls
import ArrayFusion.Proofs.Text.Numbers
import Mathlib.Data.List.Induction

/-!
# What a cache remembers of its calls

After any sequence of calls, the state of a cache can be read off the calls: the modules that were
returned are loaded, the binaries that were made are the fresh ones, and the directory of binaries
holds the latest of each name. Each of these is an equation for one call, which adds up over the
sequence.
-/

namespace ArrayFusion

variable {σ μ : Type}

/-- Files of different contexts or sources have different names. -/
theorem Fnv.fileName_inj {context context' source source' : UInt64} {extension : String}
    (same : fileName context source extension = fileName context' source' extension) :
    context = context' ∧ source = source' := by
  have digits : ∀ x : UInt64, ∀ c ∈ Nat.toDigits 16 x.toNat, (c != '_') = true := by
    intro x c hc
    obtain ⟨k, small, rfl⟩ := Text.exists_of_mem_hexDigits hc
    have none : ∀ k < 16, (Nat.digitChar k != '_') = true := by decide
    exact none k small
  have lists := congrArg String.toList same
  simp only [fileName, hex, String.toList_append, String.toList_ofList, List.append_assoc] at lists
  obtain ⟨first, second⟩ := Text.append_inj_of_stops (digits context) (digits context')
    (by simp) (by simp) lists
  have second := List.append_cancel_right (List.append_cancel_left second)
  exact ⟨UInt64.toNat_inj.mp (Text.hexDigits_injective first),
    UInt64.toNat_inj.mp (Text.hexDigits_injective second)⟩

namespace Call

/-- Names and contents of the binaries that the compiler made during the call. -/
def binaries (c : Call μ) : List (String × String) :=
  c.uses.filterMap fun
    | .compile binary _ _ (.ok content) => some (binary.name, content)
    | _ => none

/-- The binary was made of the source of the call. -/
def Made (c : Call μ) (content : String) : Prop :=
  ∃ binary source, .compile binary source c.text (.ok content) ∈ c.uses

theorem Made.exists_mem_binaries {c : Call μ} {content : String} (h : c.Made content) :
    ∃ name, (name, content) ∈ c.binaries := by
  obtain ⟨binary, source, use⟩ := h
  exact ⟨binary.name, List.mem_filterMap.mpr ⟨_, use, rfl⟩⟩

/-- Number of calls whose source no call before them had returned. Sources are told apart by a
key. -/
def countNew {κ : Type} [DecidableEq κ] (key : String → κ) :
    (before : List (Call μ)) → List (Call μ) → Nat
  | _, [] => 0
  | before, c :: cs =>
    (if before.any fun d => key d.text == key c.text && d.answer.isOk then 0 else 1) +
      countNew key (before ++ [c]) cs

theorem countNew_concat {κ : Type} [DecidableEq κ] (key : String → κ) (before cs : List (Call μ))
    (c : Call μ) : countNew key before (cs ++ [c]) = countNew key before cs +
      if (before ++ cs).any fun d => key d.text == key c.text && d.answer.isOk then 0 else 1 := by
  induction cs generalizing before with
  | nil => simp [countNew]
  | cons d cs ih =>
    rw [List.cons_append, countNew, ih, countNew, List.append_assoc, Nat.add_assoc]
    rfl

end Call

namespace Workshop

variable {tools : Toolchain σ μ} {w w' : Workshop σ μ} {text : String} {c : Call μ}

/-- Writes files of the given names and contents, one after the other. -/
def writeAll (files : List (String × String)) (d : Directory) : Directory :=
  files.foldl (fun d (name, content) => d.write { name, content }) d

/-! ## One call -/

/-- What calls never change: the compilation setup, and what is kept of earlier binaries. -/
def setup (w : Workshop σ μ) : UInt64 × String × Bool × Int × Option Directory × Nat :=
  (w.cache.context, w.cache.extension, w.cache.verbose, w.cache.limit, w.disk.persistent,
    w.disk.clock)

namespace Called

theorem text_eq (h : Called tools w text c w') : c.text = text := by
  cases h <;> rfl

theorem setup_eq (h : Called tools w text c w') : w'.setup = w.setup := by
  cases h with
  | hit | refused => rfl
  | @kept f result => cases result <;> rfl
  | @compiled content result => cases result <;> rfl

theorem ready (h : Called tools w text c w') (ready : w.Ready) : w'.Ready := by
  obtain ⟨source, binary⟩ := ready
  have source' : ∀ f : Directory → Directory, (w.disk.source.map f).isSome = true :=
    fun _ => Option.isSome_map.trans source
  have binary' : ∀ f : Directory → Directory, (w.disk.binary.map f).isSome = true :=
    fun _ => Option.isSome_map.trans binary
  cases h with
  | hit => exact ⟨source, binary⟩
  | @kept f result => cases result <;> exact ⟨source, binary⟩
  | refused => exact ⟨source' _, binary⟩
  | @compiled content result => cases result <;> exact ⟨source' _, binary' _⟩

/-- A returned module is loaded from then on. -/
theorem lookup_loaded (h : Called tools w text c w') (hash : UInt64) :
    w'.cache.loaded.lookup hash = (w.cache.loaded.lookup hash).or
      (if hash = Fnv.ofText text then c.answer.toOption else none) := by
  have remembered (m : μ) (loaded : List (UInt64 × μ))
      (missing : loaded.lookup (Fnv.ofText text) = none) :
      List.lookup hash ((Fnv.ofText text, m) :: loaded) =
        (loaded.lookup hash).or (if hash = Fnv.ofText text then some m else none) := by
    by_cases same : hash = Fnv.ofText text
    · subst same
      simp [missing]
    · simp [List.lookup_cons, beq_false_of_ne same, same]
  have forgotten (loaded : List (UInt64 × μ)) : loaded.lookup hash =
      (loaded.lookup hash).or (if hash = Fnv.ofText text then none else none) := by
    rw [ite_self, Option.or_none]
  cases h with
  | @hit m loaded =>
    by_cases same : hash = Fnv.ofText text
    · subst same
      simp [Workshop.hit, loaded]
    · simp [Workshop.hit, same]
  | @kept f result after missing =>
    cases result with
    | ok m => exact remembered m _ missing
    | error e => exact forgotten _
  | refused missing => simp [withTools, keepSource, miss, Except.toOption]
  | @compiled content result between after missing =>
    cases result with
    | ok m => exact remembered m _ missing
    | error e => exact forgotten _

/-- The binary that is made is fresh. -/
theorem fresh_eq (h : Called tools w text c w') :
    w'.cache.fresh = w.cache.fresh ++ c.binaries.map Prod.fst := by
  cases h with
  | hit | refused => exact (List.append_nil _).symm
  | @kept f result => cases result <;> exact (List.append_nil _).symm
  | @compiled content result => cases result <;> rfl

/-- The directory of binaries gets the binary that is made. -/
theorem binary_eq (h : Called tools w text c w') :
    w'.disk.binary = w.disk.binary.map (writeAll c.binaries) := by
  have same : w.disk.binary = w.disk.binary.map (writeAll []) := by
    cases w.disk.binary <;> rfl
  cases h with
  | hit | refused => exact same
  | @kept f result => cases result <;> exact same
  | @compiled content result => cases result <;> rfl

theorem stats_eq (h : Called tools w text c w') : w'.cache.stats =
    { lookups := w.cache.stats.lookups + 1
      misses := w.cache.stats.misses +
        if (w.cache.loaded.lookup (Fnv.ofText text)).isSome then 0 else 1
      compilations := w.cache.stats.compilations + c.binaries.length } := by
  cases h with
  | hit loaded =>
    rw [loaded]
    rfl
  | @kept f result after missing =>
    rw [missing]
    cases result <;> rfl
  | refused missing =>
    rw [missing]
    rfl
  | @compiled content result between after missing =>
    rw [missing]
    cases result <;> rfl

/-- A returned module was loaded before, or is loaded from a binary that is persistent or made by
the call. -/
theorem of_answer (h : Called tools w text c w') {m : μ} (answer : c.answer = .ok m) :
    (w.cache.loaded.lookup (Fnv.ofText text) = some m ∧ c.uses = []) ∨
    (w.cache.loaded.lookup (Fnv.ofText text) = none ∧ ∃ place content,
      .load place content (.ok m) ∈ c.uses ∧
        ((∃ f, w.kept? (w.binaryName text) = some f ∧ f.content = content) ∨
          c.binaries = [(w.binaryName text, content)])) := by
  cases h with
  | hit loaded =>
    cases answer
    exact .inl ⟨loaded, rfl⟩
  | kept missing found =>
    cases answer
    exact .inr ⟨missing, _, _, List.mem_singleton_self _, .inl ⟨_, found, rfl⟩⟩
  | refused => contradiction
  | @compiled content result between after missing =>
    cases answer
    exact .inr ⟨missing, ⟨.binary, w.binaryName text⟩, content, by simp, .inr rfl⟩

/-- A loaded module is returned, and no tool is used. -/
theorem of_loaded (h : Called tools w text c w') {m : μ}
    (loaded : w.cache.loaded.lookup (Fnv.ofText text) = some m) :
    c.answer = .ok m ∧ c.uses = [] := by
  cases h with
  | hit loaded' =>
    cases loaded.symm.trans loaded'
    exact ⟨rfl, rfl⟩
  | kept missing | refused missing | compiled missing => cases loaded.symm.trans missing

/-- A binary is only made of the source of the call, if its module is not loaded and there is no
persistent one. -/
theorem of_binary (h : Called tools w text c w') {name content : String}
    (made : (name, content) ∈ c.binaries) : name = w.binaryName text ∧
      w.cache.loaded.lookup (Fnv.ofText text) = none ∧ w.kept? name = none ∧
      c.Made content ∧ .load ⟨.binary, name⟩ content c.answer ∈ c.uses := by
  cases h with
  | hit | kept | refused => exact absurd made List.not_mem_nil
  | compiled missing absent =>
    cases List.mem_singleton.mp made
    exact ⟨rfl, missing, absent, ⟨_, _, List.mem_cons_self⟩, by simp⟩

/-- All uses of the tools are about the source of the call. -/
theorem of_use (h : Called tools w text c w') : ∀ use ∈ c.uses,
    match use with
    | .compile binary source text' _ => binary = ⟨.binary, w.binaryName text⟩ ∧
        source = ⟨.source, w.sourceName text⟩ ∧ text' = text
    | .load binary _ _ => binary.name = w.binaryName text := by
  cases h <;> simp

/-- What is recorded of the loader is what it did. -/
theorem of_load (h : Called tools w text c w') {place : Place} {content : String}
    {result : Except Fault μ} (use : .load place content result ∈ c.uses) :
    ∃ state after, tools.load place content state = (result, after) := by
  cases h with
  | hit | refused => simp at use
  | kept missing found loads =>
    cases List.mem_singleton.mp use
    exact ⟨_, _, loads⟩
  | compiled missing absent compiles loads =>
    rcases List.mem_cons.mp use with compiling | loading
    · contradiction
    · cases List.mem_singleton.mp loading
      exact ⟨_, _, loads⟩

/-- A call that fails leaves the loaded modules as they are. -/
theorem loaded_of_error (h : Called tools w text c w') {e : Fault} (answer : c.answer = .error e) :
    w'.cache.loaded = w.cache.loaded := by
  cases h with
  | hit => contradiction
  | refused => rfl
  | kept =>
    cases answer
    rfl
  | compiled =>
    cases answer
    rfl

end Called

theorem lookup_eq_none {α : Type} {xs : List (String × α)} {name : String}
    (absent : ∀ x, (name, x) ∉ xs) : xs.lookup name = none := by
  rw [List.lookup_eq_none_iff]
  rintro ⟨name', x⟩ here
  rw [bne_iff_ne]
  rintro rfl
  exact absent x here

theorem mem_of_lookup {α : Type} {xs : List (String × α)} {name : String} {x : α}
    (found : xs.lookup name = some x) : (name, x) ∈ xs := by
  obtain ⟨before, after, rfl, -⟩ := List.lookup_eq_some_iff.mp found
  exact List.mem_append_right _ List.mem_cons_self

/-! ## A sequence of calls -/

/-- All that is known of a cache after calls. -/
structure History (start : Workshop σ μ) (cs : List (Call μ)) (w : Workshop σ μ) : Prop where
  ready : w.Ready
  setup : w.setup = start.setup
  /-- The modules that were returned are loaded. -/
  loaded : ∀ hash m, w.cache.loaded.lookup hash = some m ↔
    ∃ c ∈ cs, Fnv.ofText c.text = hash ∧ c.answer = .ok m
  /-- The binaries that were made are fresh. -/
  fresh : w.cache.fresh = (cs.flatMap Call.binaries).map Prod.fst
  /-- The directory of binaries holds the latest of each name. -/
  binary : w.disk.binary = start.disk.binary.map (writeAll (cs.flatMap Call.binaries))
  stats : w.cache.stats =
    { lookups := cs.length
      misses := Call.countNew Fnv.ofText [] cs
      compilations := (cs.flatMap Call.binaries).length }
  /-- Every returned module was loaded by some call for its source, from a binary that was
  persistent or made by this call. -/
  origin : ∀ c ∈ cs, ∀ m, c.answer = .ok m → ∃ d ∈ cs, Fnv.ofText d.text = Fnv.ofText c.text ∧
    ∃ place content, .load place content (.ok m) ∈ d.uses ∧
      ((∃ f, start.kept? (start.binaryName d.text) = some f ∧ f.content = content) ∨
        d.binaries = [(start.binaryName d.text, content)])
  /-- A binary is made of the source of its call, where there is no persistent one. -/
  made : ∀ c ∈ cs, ∀ name content, (name, content) ∈ c.binaries →
    name = start.binaryName c.text ∧ start.kept? name = none ∧ c.Made content ∧
      .load ⟨.binary, name⟩ content c.answer ∈ c.uses
  /-- No binary is made of a source that was returned before: the latest one was loaded. -/
  latest : ∀ c ∈ cs, ∀ m, c.answer = .ok m → ∀ content,
    (cs.flatMap Call.binaries).reverse.lookup (start.binaryName c.text) = some content →
      ∃ d ∈ cs, (start.binaryName c.text, content) ∈ d.binaries ∧ d.answer = .ok m

namespace History

variable {start : Workshop σ μ} {cs : List (Call μ)}

theorem context_eq (h : History start cs w) : w.cache.context = start.cache.context :=
  congrArg (·.1) h.setup

theorem limit_eq (h : History start cs w) : w.cache.limit = start.cache.limit :=
  congrArg (·.2.2.2.1) h.setup

theorem persistent_eq (h : History start cs w) : w.disk.persistent = start.disk.persistent :=
  congrArg (·.2.2.2.2.1) h.setup

theorem binaryName_eq (h : History start cs w) (text : String) :
    w.binaryName text = start.binaryName text := by
  rw [binaryName, h.context_eq, binaryName]

theorem kept?_eq (h : History start cs w) (name : String) : w.kept? name = start.kept? name := by
  have verbose : w.cache.verbose = start.cache.verbose := congrArg (·.2.2.1) h.setup
  rw [kept?, verbose, h.persistent_eq, kept?]

/-- The module of a source is loaded exactly if some call has returned it. -/
theorem isSome_lookup (h : History start cs w) (hash : UInt64) :
    (w.cache.loaded.lookup hash).isSome =
      cs.any fun d => Fnv.ofText d.text == hash && d.answer.isOk := by
  rw [Bool.eq_iff_iff, Option.isSome_iff_exists, List.any_eq_true]
  constructor
  · rintro ⟨m, loaded⟩
    obtain ⟨d, hd, same, answer⟩ := (h.loaded hash m).mp loaded
    exact ⟨d, hd, by simp [same, answer, Except.isOk, Except.toBool]⟩
  · rintro ⟨d, hd, found⟩
    rw [Bool.and_eq_true, beq_iff_eq] at found
    obtain ⟨same, returned⟩ := found
    cases answer : d.answer with
    | error e => simp [answer, Except.isOk, Except.toBool] at returned
    | ok m => exact ⟨m, (h.loaded hash m).mpr ⟨d, hd, same, answer⟩⟩

theorem nil (ready : start.Ready) (loaded : start.cache.loaded = []) (fresh : start.cache.fresh = [])
    (stats : start.cache.stats = {}) : History start [] start where
  ready := ready
  setup := rfl
  loaded hash m := by simp [loaded]
  fresh := fresh
  binary := by
    cases start.disk.binary <;> rfl
  stats := stats
  origin c hc := absurd hc List.not_mem_nil
  made c hc := absurd hc List.not_mem_nil
  latest c hc := absurd hc List.not_mem_nil

section Concat

variable (h : History start cs w) (called : Called tools w text c w')

include h called

theorem loaded_concat (hash : UInt64) (m : μ) : w'.cache.loaded.lookup hash = some m ↔
    ∃ d ∈ cs ++ [c], Fnv.ofText d.text = hash ∧ d.answer = .ok m := by
  have now : (∃ d ∈ cs ++ [c], Fnv.ofText d.text = hash ∧ d.answer = .ok m) ↔
      w.cache.loaded.lookup hash = some m ∨ (Fnv.ofText text = hash ∧ c.answer = .ok m) := by
    rw [h.loaded hash m, ← called.text_eq]
    simp only [List.mem_append, List.mem_singleton, or_and_right, exists_or, exists_eq_left]
  rw [now, called.lookup_loaded]
  cases old : w.cache.loaded.lookup hash with
  | some m' =>
    rw [Option.some_or]
    refine ⟨.inl, fun either => either.elim id ?_⟩
    rintro ⟨rfl, answer⟩
    rcases called.of_answer answer with ⟨loaded, -⟩ | ⟨missing, -⟩
    · exact old.symm.trans loaded
    · cases old.symm.trans missing
  | none =>
    rw [Option.none_or]
    constructor
    · intro found
      split at found
      next same =>
        refine .inr ⟨same.symm, ?_⟩
        cases answer : c.answer with
        | error e =>
          rw [answer] at found
          contradiction
        | ok m' =>
          rw [answer] at found
          exact congrArg Except.ok (Option.some.inj found)
      next => contradiction
    · rintro (found | ⟨rfl, answer⟩)
      · contradiction
      · rw [if_pos rfl, answer]
        rfl

theorem origin_concat : ∀ c' ∈ cs ++ [c], ∀ m, c'.answer = .ok m → ∃ d ∈ cs ++ [c],
    Fnv.ofText d.text = Fnv.ofText c'.text ∧
    ∃ place content, .load place content (.ok m) ∈ d.uses ∧
      ((∃ f, start.kept? (start.binaryName d.text) = some f ∧ f.content = content) ∨
        d.binaries = [(start.binaryName d.text, content)]) := by
  have extend : cs ⊆ cs ++ [c] := List.subset_append_left ..
  intro c' hc' m answer
  rcases List.mem_append.mp hc' with hc' | hc'
  · obtain ⟨d, hd, rest⟩ := h.origin c' hc' m answer
    exact ⟨d, extend hd, rest⟩
  obtain rfl := List.mem_singleton.mp hc'
  rcases called.of_answer answer with ⟨loaded, -⟩ | ⟨-, place, content, use, source⟩
  · obtain ⟨d, hd, same, before⟩ := (h.loaded _ m).mp loaded
    obtain ⟨d', hd', same', rest⟩ := h.origin d hd m before
    exact ⟨d', extend hd', by rw [same', same, called.text_eq], rest⟩
  · refine ⟨c', by simp, rfl, place, content, use, ?_⟩
    rw [h.kept?_eq, h.binaryName_eq] at source
    rw [called.text_eq]
    exact source

theorem made_concat : ∀ c' ∈ cs ++ [c], ∀ name content, (name, content) ∈ c'.binaries →
    name = start.binaryName c'.text ∧ start.kept? name = none ∧ c'.Made content ∧
      .load ⟨.binary, name⟩ content c'.answer ∈ c'.uses := by
  intro c' hc' name content here
  rcases List.mem_append.mp hc' with hc' | hc'
  · exact h.made c' hc' name content here
  obtain rfl := List.mem_singleton.mp hc'
  obtain ⟨rfl, -, absent, made, load⟩ := called.of_binary here
  rw [called.text_eq, ← h.kept?_eq, ← h.binaryName_eq]
  exact ⟨rfl, absent, made, load⟩

/-- A source that was returned is not compiled again. -/
theorem not_mem_binaries_of_returned {c' : Call μ} (hc' : c' ∈ cs) {m : μ}
    (answer : c'.answer = .ok m) (content : String) :
    (start.binaryName c'.text, content) ∉ c.binaries := by
  intro here
  obtain ⟨named, missing, -⟩ := called.of_binary here
  have source := (Fnv.fileName_inj (named.trans (h.binaryName_eq text))).2
  have loaded := (h.loaded _ m).mpr ⟨c', hc', source, answer⟩
  cases loaded.symm.trans missing

theorem latest_concat : ∀ c' ∈ cs ++ [c], ∀ m, c'.answer = .ok m → ∀ content,
    ((cs ++ [c]).flatMap Call.binaries).reverse.lookup (start.binaryName c'.text) = some content →
      ∃ d ∈ cs ++ [c], (start.binaryName c'.text, content) ∈ d.binaries ∧ d.answer = .ok m := by
  intro c' hc' m answer content here
  rw [List.flatMap_append, List.flatMap_singleton, List.reverse_append, List.lookup_append] at here
  -- Without a binary of this call, the latest one is that of an earlier call.
  have earlier {c' : Call μ} (hc' : c' ∈ cs) (answer : c'.answer = .ok m)
      (here : (c.binaries.reverse.lookup (start.binaryName c'.text)).or
        ((cs.flatMap Call.binaries).reverse.lookup (start.binaryName c'.text)) = some content) :
      ∃ d ∈ cs ++ [c], (start.binaryName c'.text, content) ∈ d.binaries ∧ d.answer = .ok m := by
    have none : c.binaries.reverse.lookup (start.binaryName c'.text) = none := by
      refine lookup_eq_none fun content member => ?_
      exact not_mem_binaries_of_returned h called hc' answer content (List.mem_reverse.mp member)
    rw [none, Option.none_or] at here
    obtain ⟨d, hd, rest⟩ := h.latest c' hc' m answer content here
    exact ⟨d, List.mem_append_left _ hd, rest⟩
  rcases List.mem_append.mp hc' with hc' | hc'
  · exact earlier hc' answer here
  obtain rfl := List.mem_singleton.mp hc'
  rcases called.of_answer answer with ⟨loaded, -⟩ | ⟨-, -, content', -, kept | made⟩
  · obtain ⟨d, hd, same, before⟩ := (h.loaded _ m).mp loaded
    have name : start.binaryName d.text = start.binaryName c'.text := by
      rw [binaryName, same, ← called.text_eq, binaryName]
    rw [← name] at here ⊢
    exact earlier hd before here
  · obtain ⟨f, found, -⟩ := kept
    rw [h.kept?_eq, h.binaryName_eq, ← called.text_eq] at found
    rw [← List.lookup_append, ← List.reverse_append] at here
    have member := List.mem_reverse.mp (mem_of_lookup here)
    rcases List.mem_append.mp member with member | member
    · obtain ⟨d, hd, inside⟩ := List.mem_flatMap.mp member
      obtain ⟨-, absent, -⟩ := h.made d hd _ content inside
      cases found.symm.trans absent
    · obtain ⟨-, -, absent, -⟩ := called.of_binary member
      rw [h.kept?_eq] at absent
      cases found.symm.trans absent
  · rw [h.binaryName_eq, ← called.text_eq] at made
    have latest : content' = content := by
      simpa [made] using here
    exact ⟨c', by simp, by simp [made, latest], answer⟩

end Concat

theorem concat (h : History start cs w) (called : Called tools w text c w') :
    History start (cs ++ [c]) w' where
  ready := called.ready h.ready
  setup := called.setup_eq.trans h.setup
  loaded := loaded_concat h called
  fresh := by
    rw [called.fresh_eq, h.fresh, List.flatMap_append, List.map_append, List.flatMap_singleton]
  binary := by
    have append (d : Directory) : writeAll c.binaries (writeAll (cs.flatMap Call.binaries) d) =
        writeAll (cs.flatMap Call.binaries ++ c.binaries) d := List.foldl_append.symm
    rw [called.binary_eq, h.binary, Option.map_map, List.flatMap_append, List.flatMap_singleton]
    exact congrArg (start.disk.binary.map ·) (funext append)
  stats := by
    rw [called.stats_eq, h.stats, h.isSome_lookup, Call.countNew_concat, List.length_append,
      List.flatMap_append, List.length_append, List.flatMap_singleton, called.text_eq]
    rfl
  origin := origin_concat h called
  made := made_concat h called
  latest := latest_concat h called

end History

/-! ## Calls one after the other -/

theorem calls_concat (tools : Toolchain σ μ) (texts : List String) (text : String)
    (w : Workshop σ μ) : calls tools (texts ++ [text]) w =
      (let (cs, w') := calls tools texts w
       let (c, w'') := call tools text w'
       (cs ++ [c], w'')) := by
  rw [calls, List.mapM_append]
  simp only [List.mapM_cons, List.mapM_nil]
  rfl

/-- Asks for the modules of sources, without a record of the tools. -/
def lookups (tools : Toolchain σ μ) (texts : List String) :
    StateM (Workshop σ μ) (List (Except Fault μ)) :=
  texts.mapM fun text => (lookup tools text).run

theorem lookups_concat (tools : Toolchain σ μ) (texts : List String) (text : String)
    (w : Workshop σ μ) : lookups tools (texts ++ [text]) w =
      (let (answers, w') := lookups tools texts w
       let (answer, w'') := lookup tools text w'
       (answers ++ [answer], w'')) := by
  rw [lookups, List.mapM_append]
  simp only [List.mapM_cons, List.mapM_nil]
  rfl

/-- All that is known of a run of calls. -/
structure Recorded (tools : Toolchain σ μ) (texts : List String) (start : Workshop σ μ)
    (cs : List (Call μ)) (w : Workshop σ μ) : Prop where
  calls_eq : calls tools texts start = (cs, w)
  /-- Recording changes nothing. -/
  lookups_eq : lookups tools texts start = (cs.map (·.answer), w)
  texts_eq : cs.map (·.text) = texts
  history : History start cs w
  /-- Before each call the cache remembered the calls until then, and then this one as well. -/
  each : ∀ before c after, cs = before ++ c :: after → ∃ w₁ w₂,
    calls tools (before.map (·.text)) start = (before, w₁) ∧ History start before w₁ ∧
      Called tools w₁ c.text c w₂ ∧ History start (before ++ [c]) w₂

/-- After any sequence of calls, the cache remembers all of them. -/
theorem recorded_calls (tools : Toolchain σ μ) (texts : List String)
    (first : History start [] start) : ∃ cs w, Recorded tools texts start cs w := by
  induction texts using List.reverseRecOn with
  | nil =>
    refine ⟨[], start, rfl, rfl, rfl, first, ?_⟩
    intro before c after split
    exact absurd split.symm (List.append_ne_nil_of_right_ne_nil before (List.cons_ne_nil c after))
  | append_singleton texts text ih =>
    obtain ⟨cs, w, ran, plain, same, history, each⟩ := ih
    obtain ⟨c, w', ran', plain', called⟩ := called_call tools history.ready text
    refine ⟨cs ++ [c], w', ?_, ?_, ?_, history.concat called, ?_⟩
    · rw [calls_concat, ran]
      dsimp only
      rw [ran']
    · rw [lookups_concat, plain]
      dsimp only
      rw [plain', List.map_append, List.map_singleton]
    · rw [List.map_append, same, List.map_singleton, called.text_eq]
    · intro before d after split
      rcases List.eq_nil_or_concat after with rfl | ⟨after', last, rfl⟩
      · obtain ⟨rfl, rfl⟩ := List.append_singleton_inj.mp split
        rw [same, called.text_eq]
        exact ⟨w, w', ran, history, called, history.concat called⟩
      · rw [List.concat_eq_append, ← List.cons_append, ← List.append_assoc] at split
        exact each before d after' (List.append_singleton_inj.mp split).1

end Workshop

end ArrayFusion
