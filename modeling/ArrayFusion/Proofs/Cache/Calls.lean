import ArrayFusion.Cache.Kernels

/-!
# Calls of a kernel cache

A call asks a cache for the module of a source. It is recorded with its answer and with the uses of
the compiler and the loader; recording changes nothing. A call ends in one of four ways, which
`Called` lists with all that they change: the module is loaded already, a persistent binary is
loaded, the source is not compiled, or it is compiled and the binary is loaded. Loading can fail.
-/

namespace ArrayFusion

variable {σ μ : Type}

/-- A use of the compiler or of the loader, with what came of it. -/
inductive ToolUse (μ : Type) where
  | compile (binary source : Place) (text : String) (result : Except Fault String)
  | load (binary : Place) (content : String) (result : Except Fault μ)

/-- The toolchain, with a record of its uses. -/
def Toolchain.recorded (tools : Toolchain σ μ) : Toolchain (σ × List (ToolUse μ)) μ where
  compile binary source text := fun (state, uses) =>
    let (result, state) := tools.compile binary source text state
    (result, state, uses ++ [.compile binary source text result])
  load binary content := fun (state, uses) =>
    let (result, state) := tools.load binary content state
    (result, state, uses ++ [.load binary content result])
  launch m arguments a := fun (state, uses) =>
    let (a, state) := tools.launch m arguments a state
    (a, state, uses)

theorem Toolchain.recorded_compile {tools : Toolchain σ μ} {binary source : Place} {text : String}
    {state after : σ} {result : Except Fault String}
    (h : tools.compile binary source text state = (result, after)) (uses : List (ToolUse μ)) :
    tools.recorded.compile binary source text (state, uses) =
      (result, after, uses ++ [.compile binary source text result]) := by
  simp only [recorded, h]

theorem Toolchain.recorded_load {tools : Toolchain σ μ} {binary : Place} {content : String}
    {state after : σ} {result : Except Fault μ}
    (h : tools.load binary content state = (result, after)) (uses : List (ToolUse μ)) :
    tools.recorded.load binary content (state, uses) =
      (result, after, uses ++ [.load binary content result]) := by
  simp only [recorded, h]

/-- A call of a cache. -/
structure Call (μ : Type) where
  text : String
  answer : Except Fault μ
  /-- How the tools were used, in order. -/
  uses : List (ToolUse μ)

namespace Workshop

def withTools {τ : Type} (w : Workshop σ μ) (tools : τ) : Workshop τ μ :=
  { cache := w.cache, disk := w.disk, tools }

/-- Asks for the module of a source. -/
def call (tools : Toolchain σ μ) (text : String) : StateM (Workshop σ μ) (Call μ) := fun w =>
  let (answer, w) := lookup tools.recorded text (w.withTools (w.tools, []))
  ({ text, answer, uses := w.tools.2 }, w.withTools w.tools.1)

/-- Asks for the modules of sources, one after the other. -/
def calls (tools : Toolchain σ μ) (texts : List String) : StateM (Workshop σ μ) (List (Call μ)) :=
  texts.mapM (call tools)

/-! ## What a call changes -/

def binaryName (w : Workshop σ μ) (text : String) : String :=
  Fnv.fileName w.cache.context (Fnv.ofText text) binaryExtension

def sourceName (w : Workshop σ μ) (text : String) : String :=
  Fnv.fileName w.cache.context (Fnv.ofText text) w.cache.extension

/-- A call for a module that is loaded. -/
def hit (w : Workshop σ μ) : Workshop σ μ :=
  { w with cache.stats := { w.cache.stats with lookups := w.cache.stats.lookups + 1 } }

/-- A call for a module that is not loaded. -/
def miss (w : Workshop σ μ) : Workshop σ μ :=
  { w with cache.stats := { w.cache.stats with
      lookups := w.cache.stats.lookups + 1, misses := w.cache.stats.misses + 1 } }

/-- A source is written. -/
def keepSource (w : Workshop σ μ) (name text : String) : Workshop σ μ :=
  { w with disk.source := w.disk.source.map (·.write { name, content := text }) }

/-- A binary is made. -/
def keepBinary (w : Workshop σ μ) (name content : String) : Workshop σ μ :=
  { w with
    disk.binary := w.disk.binary.map (·.write { name, content })
    cache.fresh := w.cache.fresh ++ [name]
    cache.stats := { w.cache.stats with compilations := w.cache.stats.compilations + 1 } }

/-- A module is remembered, if it was loaded. -/
def remember (w : Workshop σ μ) (hash : UInt64) : Except Fault μ → Workshop σ μ
  | .ok m => { w with cache.loaded := (hash, m) :: w.cache.loaded }
  | .error _ => w

/-- There are directories for sources and binaries. -/
structure Ready (w : Workshop σ μ) : Prop where
  source : w.disk.source.isSome = true
  binary : w.disk.binary.isSome = true

/-- All ways in which a call can end. -/
inductive Called (tools : Toolchain σ μ) (w : Workshop σ μ) (text : String) :
    Call μ → Workshop σ μ → Prop
  /-- The module is loaded. -/
  | hit {m : μ} (loaded : w.cache.loaded.lookup (Fnv.ofText text) = some m) :
      Called tools w text { text, answer := .ok m, uses := [] } w.hit
  /-- There is a persistent binary, and it is loaded or can not be. -/
  | kept {f : StoredFile} {result : Except Fault μ} {after : σ}
      (missing : w.cache.loaded.lookup (Fnv.ofText text) = none)
      (found : w.kept? (w.binaryName text) = some f)
      (loads : tools.load ⟨.persistent, w.binaryName text⟩ f.content w.tools = (result, after)) :
      Called tools w text
        { text, answer := result
          uses := [.load ⟨.persistent, w.binaryName text⟩ f.content result] }
        ((w.miss.remember (Fnv.ofText text) result).withTools after)
  /-- The source is not compiled. -/
  | refused {e : Fault} {after : σ}
      (missing : w.cache.loaded.lookup (Fnv.ofText text) = none)
      (absent : w.kept? (w.binaryName text) = none)
      (compiles : tools.compile ⟨.binary, w.binaryName text⟩ ⟨.source, w.sourceName text⟩ text
        w.tools = (.error e, after)) :
      Called tools w text
        { text, answer := .error e
          uses := [.compile ⟨.binary, w.binaryName text⟩ ⟨.source, w.sourceName text⟩ text
            (.error e)] }
        ((w.miss.keepSource (w.sourceName text) text).withTools after)
  /-- The source is compiled, and the binary is loaded or can not be. -/
  | compiled {content : String} {result : Except Fault μ} {between after : σ}
      (missing : w.cache.loaded.lookup (Fnv.ofText text) = none)
      (absent : w.kept? (w.binaryName text) = none)
      (compiles : tools.compile ⟨.binary, w.binaryName text⟩ ⟨.source, w.sourceName text⟩ text
        w.tools = (.ok content, between))
      (loads : tools.load ⟨.binary, w.binaryName text⟩ content between = (result, after)) :
      Called tools w text
        { text, answer := result
          uses := [.compile ⟨.binary, w.binaryName text⟩ ⟨.source, w.sourceName text⟩ text
            (.ok content), .load ⟨.binary, w.binaryName text⟩ content result] }
        ((((w.miss.keepSource (w.sourceName text) text).keepBinary (w.binaryName text)
          content).remember (Fnv.ofText text) result).withTools after)

/-! ## Looking up a module -/

section Lookup

variable {α β : Type} {tools : Toolchain σ μ} {w w' : Workshop σ μ} {text : String}

theorem bind_ok {x : Work σ μ α} {f : α → Work σ μ β} {a : α} (h : x w = (.ok a, w')) :
    (x >>= f) w = f a w' := by
  simp only [bind, ExceptT.bind, ExceptT.mk, ExceptT.bindCont, StateT.bind, h]

theorem bind_error {x : Work σ μ α} {f : α → Work σ μ β} {e : Fault}
    (h : x w = (.error e, w')) : (x >>= f) w = (.error e, w') := by
  simp only [bind, ExceptT.bind, ExceptT.mk, ExceptT.bindCont, StateT.bind, h]
  rfl

theorem run_get (w : Workshop σ μ) : (get : Work σ μ (Workshop σ μ)) w = (.ok w, w) := rfl

theorem runTool_eq {step : StateM σ (Except Fault α)} {result : Except Fault α} {after : σ}
    (h : step w.tools = (result, after)) : runTool (μ := μ) step w = (result, w.withTools after) := by
  refine (bind_ok rfl).trans ?_
  simp only [h]
  cases result <;> rfl

/-- The calls counted so far go on to the loaded module, or to making one. -/
theorem lookup_of_loaded {m : μ} (loaded : w.cache.loaded.lookup (Fnv.ofText text) = some m) :
    lookup tools text w = (.ok m, w.hit) := by
  refine (bind_ok rfl).trans ((bind_ok rfl).trans ?_)
  dsimp only
  rw [loaded]
  rfl

theorem lookup_of_missing (missing : w.cache.loaded.lookup (Fnv.ofText text) = none) :
    lookup tools text w = make tools (Fnv.ofText text) text w.miss := by
  refine (bind_ok rfl).trans ((bind_ok rfl).trans ?_)
  dsimp only
  rw [missing]
  exact bind_ok rfl

theorem load_eq {place : Place} {content : String} {hash : UInt64} {result : Except Fault μ}
    {after : σ} (loads : tools.load place content w.tools = (result, after)) :
    (do
      let m ← runTool (tools.load place content)
      modify fun w => { w with cache := { w.cache with loaded := (hash, m) :: w.cache.loaded } }
      pure m : Work σ μ μ) w = (result, (w.remember hash result).withTools after) := by
  have used := runTool_eq (μ := μ) loads
  cases result with
  | error e => exact bind_error used
  | ok m => exact bind_ok used

theorem make_of_kept {hash : UInt64} {f : StoredFile} {result : Except Fault μ} {after : σ}
    (found : w.kept? (Fnv.fileName w.cache.context hash binaryExtension) = some f)
    (loads : tools.load ⟨.persistent, Fnv.fileName w.cache.context hash binaryExtension⟩ f.content
      w.tools = (result, after)) :
    make tools hash text w = (result, (w.remember hash result).withTools after) := by
  unfold make
  rw [bind_ok (run_get w)]
  simp only [found, pure_bind]
  exact load_eq loads

theorem writeInto_eq {d : Option Directory} (present : d.isSome = true) (name content : String) :
    writeInto d name content = .ok (d.map (·.write { name, content })) := by
  obtain ⟨d, rfl⟩ := Option.isSome_iff_exists.mp present
  rfl

theorem compile_of_error (ready : w.Ready) {sourceName binaryName : String} {e : Fault} {after : σ}
    (compiles : tools.compile ⟨.binary, binaryName⟩ ⟨.source, sourceName⟩ text w.tools =
      (.error e, after)) :
    compile tools sourceName binaryName text w =
      (.error e, (w.keepSource sourceName text).withTools after) := by
  unfold compile
  rw [bind_ok (run_get w), writeInto_eq ready.source]
  refine (bind_ok rfl).trans ((bind_ok rfl).trans ?_)
  exact bind_error (runTool_eq (w := w.keepSource sourceName text) compiles)

theorem compile_of_ok (ready : w.Ready) {sourceName binaryName content : String} {after : σ}
    (compiles : tools.compile ⟨.binary, binaryName⟩ ⟨.source, sourceName⟩ text w.tools =
      (.ok content, after)) :
    compile tools sourceName binaryName text w = (.ok (⟨.binary, binaryName⟩, content),
      ((w.keepSource sourceName text).keepBinary binaryName content).withTools after) := by
  have present : ((w.keepSource sourceName text).withTools after).disk.binary.isSome = true :=
    ready.binary
  unfold compile
  rw [bind_ok (run_get w), writeInto_eq ready.source]
  refine (bind_ok rfl).trans ((bind_ok rfl).trans ?_)
  refine (bind_ok (runTool_eq (w := w.keepSource sourceName text) compiles)).trans ?_
  rw [bind_ok (run_get _), writeInto_eq present]
  rfl

theorem make_of_error (ready : w.Ready) {e : Fault} {after : σ}
    (absent : w.kept? (w.binaryName text) = none)
    (compiles : tools.compile ⟨.binary, w.binaryName text⟩ ⟨.source, w.sourceName text⟩ text
      w.tools = (.error e, after)) :
    make tools (Fnv.ofText text) text w =
      (.error e, (w.keepSource (w.sourceName text) text).withTools after) := by
  unfold make
  rw [bind_ok (run_get w)]
  simp only [← binaryName.eq_def, ← sourceName.eq_def, absent]
  exact bind_error (compile_of_error ready compiles)

theorem make_of_ok (ready : w.Ready) {content : String} {result : Except Fault μ}
    {between after : σ} (absent : w.kept? (w.binaryName text) = none)
    (compiles : tools.compile ⟨.binary, w.binaryName text⟩ ⟨.source, w.sourceName text⟩ text
      w.tools = (.ok content, between))
    (loads : tools.load ⟨.binary, w.binaryName text⟩ content between = (result, after)) :
    make tools (Fnv.ofText text) text w =
      (result, (((w.keepSource (w.sourceName text) text).keepBinary (w.binaryName text)
        content).remember (Fnv.ofText text) result).withTools after) := by
  unfold make
  rw [bind_ok (run_get w)]
  simp only [← binaryName.eq_def, ← sourceName.eq_def, absent]
  refine (bind_ok (compile_of_ok ready compiles)).trans ?_
  refine (load_eq loads).trans ?_
  cases result <;> rfl

/-- A call ends in one of the four ways, as it does without a record of the tools. -/
theorem called_call (tools : Toolchain σ μ) (ready : w.Ready) (text : String) :
    ∃ c w', call tools text w = (c, w') ∧ lookup tools text w = (c.answer, w') ∧
      Called tools w text c w' := by
  have call_eq {answer : Except Fault μ} {w' : Workshop (σ × List (ToolUse μ)) μ}
      (h : lookup tools.recorded text (w.withTools (w.tools, [])) = (answer, w')) :
      call tools text w = (⟨text, answer, w'.tools.2⟩, w'.withTools w'.tools.1) := by
    rw [call, h]
  -- The record starts empty, so that it holds the uses of this call.
  let v : Workshop (σ × List (ToolUse μ)) μ := w.withTools (w.tools, [])
  have ready' : v.miss.Ready := ⟨ready.source, ready.binary⟩
  have counted : w.miss.Ready := ⟨ready.source, ready.binary⟩
  cases loaded : w.cache.loaded.lookup (Fnv.ofText text) with
  | some m =>
    have recorded : lookup tools.recorded text v = (.ok m, v.hit) := lookup_of_loaded loaded
    exact ⟨_, _, call_eq recorded, lookup_of_loaded loaded, .hit loaded⟩
  | none =>
    have plain : lookup tools text w = make tools (Fnv.ofText text) text w.miss :=
      lookup_of_missing loaded
    have recorded : lookup tools.recorded text v =
        make tools.recorded (Fnv.ofText text) text v.miss := lookup_of_missing loaded
    cases found : w.kept? (w.binaryName text) with
    | some f =>
      cases loads : tools.load ⟨.persistent, w.binaryName text⟩ f.content w.tools with
      | mk result after =>
        have made := recorded.trans (make_of_kept found (Toolchain.recorded_load loads []))
        have made' := plain.trans (make_of_kept found loads)
        cases result <;> exact ⟨_, _, call_eq made, made', .kept loaded found loads⟩
    | none =>
      cases compiles : tools.compile ⟨.binary, w.binaryName text⟩ ⟨.source, w.sourceName text⟩ text
          w.tools with
      | mk result between =>
        cases result with
        | error e =>
          have made := recorded.trans
            (make_of_error ready' found (Toolchain.recorded_compile compiles []))
          exact ⟨_, _, call_eq made, plain.trans (make_of_error counted found compiles),
            .refused loaded found compiles⟩
        | ok content =>
          cases loads : tools.load ⟨.binary, w.binaryName text⟩ content between with
          | mk result after =>
            have made := recorded.trans (make_of_ok ready' found
              (Toolchain.recorded_compile compiles []) (Toolchain.recorded_load loads _))
            have made' := plain.trans (make_of_ok counted found compiles loads)
            cases result <;>
              exact ⟨_, _, call_eq made, made', .compiled loaded found compiles loads⟩

end Lookup

end Workshop

end ArrayFusion
