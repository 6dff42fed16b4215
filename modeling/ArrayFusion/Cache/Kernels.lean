import ArrayFusion.Cache.Directory
import ArrayFusion.Cache.Toolchain
import ArrayFusion.Numeral.Fnv
import ArrayFusion.Settings.Basic

/-!
# Cache of kernels

Kernels are found by the hash of their source: first among the loaded modules, then among the
binaries that outlive the engine, and else they are compiled. Fresh binaries are handed to the
persistent directory when the cache is closed. The context is part of every file name, so binaries
of one compilation setup are never used by another one.
-/

namespace ArrayFusion

/-- The directories of a cache. A directory that does not exist takes no files. -/
structure Disk where
  source : Option Directory := none
  binary : Option Directory := none
  /-- There is none if binaries are not kept, or if its place is taken. -/
  persistent : Option Directory := none
  /-- Time of the next copy. -/
  clock : Nat := 0
  deriving Repr, Inhabited

/-- How often kernels were asked for, were not loaded yet, and were compiled. -/
structure CacheStats where
  lookups : Nat := 0
  misses : Nat := 0
  compilations : Nat := 0
  deriving DecidableEq, Repr, Inhabited

/-- Kernels of one compilation setup. -/
structure KernelCache (μ : Type) where
  /-- Hash of the compilation setup. -/
  context : UInt64
  /-- Extension of sources. -/
  extension : String
  /-- Sources are kept and every kernel is compiled. -/
  verbose : Bool := false
  /-- Number of binaries that are kept, all if negative. -/
  limit : Int := 50000
  /-- Loaded modules by the hashes of their sources, the latest first. -/
  loaded : List (UInt64 × μ) := []
  /-- Names of the binaries that were compiled since the last hand-over. -/
  fresh : List String := []
  stats : CacheStats := {}

/-- A cache with its directories and its tools. -/
structure Workshop (σ μ : Type) where
  cache : KernelCache μ
  disk : Disk
  tools : σ

/-- Work that can fail. What was done until then stays. -/
abbrev Work (σ μ : Type) := ExceptT Fault (StateM (Workshop σ μ))

/-- Extension of binaries. -/
def binaryExtension : String := ".so"

namespace Workshop

/-- A cache that holds nothing yet. The directories for sources and binaries are made if they are
missing. -/
def new (s : Settings) (context : String) (disk : Disk) (tools : σ) : Workshop σ μ :=
  { cache :=
      { context := Fnv.ofText context, extension := s.target.extension, verbose := s.verbose
        limit := s.cacheLimit }
    disk :=
      { disk with source := some (disk.source.getD []), binary := some (disk.binary.getD []) }
    tools }

/-- Uses a tool. -/
def runTool (step : StateM σ (Except Fault α)) : Work σ μ α := do
  let w ← get
  let (result, tools) := step w.tools
  set { w with tools }
  match result with
  | .ok x => pure x
  | .error e => throw e

def count (f : CacheStats → CacheStats) : Work σ μ Unit :=
  modify fun w => { w with cache := { w.cache with stats := f w.cache.stats } }

/-- Writes a file, if the directory exists. -/
def writeInto (d : Option Directory) (name content : String) : Except Fault (Option Directory) :=
  match d with
  | some d => .ok (some (d.write { name, content }))
  | none => .error .fileSystem

/-- Compiles a source: its text is written, the tool makes the binary, the binary is written. -/
def compile (tools : Toolchain σ μ) (sourceName binaryName text : String) :
    Work σ μ (Place × String) := do
  let source ← writeInto (← get).disk.source sourceName text
  modify fun w => { w with disk := { w.disk with source } }
  let place : Place := ⟨.binary, binaryName⟩
  let content ← runTool (tools.compile place ⟨.source, sourceName⟩ text)
  let binary ← writeInto (← get).disk.binary binaryName content
  modify fun w => { w with disk := { w.disk with binary } }
  count fun s => { s with compilations := s.compilations + 1 }
  modify fun w => { w with cache := { w.cache with fresh := w.cache.fresh ++ [binaryName] } }
  pure (place, content)

/-- The persistent binary of a name, if it may be used. -/
def kept? (w : Workshop σ μ) (name : String) : Option StoredFile :=
  if w.cache.verbose then none else w.disk.persistent.bind (·.find? name)

/-- Module of a source that is not loaded yet. -/
def make (tools : Toolchain σ μ) (hash : UInt64) (text : String) : Work σ μ μ := do
  let w ← get
  let binaryName := Fnv.fileName w.cache.context hash binaryExtension
  let (place, content) ← match w.kept? binaryName with
    | some f => pure (⟨.persistent, binaryName⟩, f.content)
    | none => compile tools (Fnv.fileName w.cache.context hash w.cache.extension) binaryName text
  let m ← runTool (tools.load place content)
  modify fun w => { w with cache := { w.cache with loaded := (hash, m) :: w.cache.loaded } }
  pure m

/-- Module of a source. -/
def lookup (tools : Toolchain σ μ) (text : String) : Work σ μ μ := do
  let hash := Fnv.ofText text
  count fun s => { s with lookups := s.lookups + 1 }
  match (← get).cache.loaded.lookup hash with
  | some m => pure m
  | none =>
    count fun s => { s with misses := s.misses + 1 }
    make tools hash text

/-- Copies a fresh binary, unless it is gone or there is one of its name already. -/
def copyFresh (binary : Directory) (state : Directory × Nat) (name : String) : Directory × Nat :=
  let (d, clock) := state
  match binary.find? name with
  | some f => if d.contains name then state else (d.write { f with time := clock }, clock + 1)
  | none => state

/-- Hands fresh binaries to the persistent directory, which keeps the newest ones. -/
def persist (w : Workshop σ μ) : Workshop σ μ :=
  let cache := { w.cache with fresh := [] }
  match w.disk.persistent with
  | none => { w with cache }
  | some d =>
    let (d, clock) := w.cache.fresh.foldl (copyFresh (w.disk.binary.getD [])) (d, w.disk.clock)
    let d := if w.cache.limit < 0 then d else d.prune w.cache.limit.toNat
    { w with cache, disk := { w.disk with persistent := some d, clock } }

/-- Closes the cache: what remains are its directories, without sources unless they are kept. -/
def close (w : Workshop σ μ) : Disk :=
  let disk := w.persist.disk
  if w.cache.verbose then disk else { disk with source := none }

end Workshop

end ArrayFusion
