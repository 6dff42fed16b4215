import ArrayFusion.Settings.Basic
import ArrayFusion.Settings.Value

/-!
# Reading settings

Settings are the fields of a JSON object. Unknown fields are skipped, a null is a missing field,
and of several fields with one name the last one counts. The fields are read in their order, and
the first fault ends the reading. `Settings.load` takes the first file that exists, falls back to
the defaults if it is malformed, and lets the environment override where binaries are kept.
-/

namespace ArrayFusion

/-- What a file says about settings. What it leaves open is `none`. -/
structure SettingsEntries where
  target : Option String := none
  command : Option String := none
  threads : Option Bool := none
  simd : Option Bool := none
  strides : Option Bool := none
  indices : Option Bool := none
  constants : Option Bool := none
  volatile : Option Bool := none
  separate : Option Bool := none
  cacheDir : Option String := none
  workDir : Option String := none
  cacheLimit : Option Int := none
  verbose : Option Bool := none
  lineX : Option Nat := none
  planeX : Option Nat := none
  planeY : Option Nat := none
  boxX : Option Nat := none
  boxY : Option Nat := none
  boxZ : Option Nat := none
  threadedRanks : Option Nat := none
  deriving DecidableEq, Repr, Inhabited

namespace SettingsEntries

/-- Sets what the field of a name stands for to a value, if the name is that of a setting. -/
def write? (e : SettingsEntries) (name : String) :
    Option (Token → Except Fault SettingsEntries) :=
  match name with
  | "target" => some fun t => t.readText.map ({ e with target := · })
  | "compiler_cmd" => some fun t => t.readText.map ({ e with command := · })
  | "compiler_openmp" => some fun t => t.readFlag.map ({ e with threads := · })
  | "compiler_openmp_simd" => some fun t => t.readFlag.map ({ e with simd := · })
  | "strides_as_var" => some fun t => t.readFlag.map ({ e with strides := · })
  | "index_as_var" => some fun t => t.readFlag.map ({ e with indices := · })
  | "const_as_var" => some fun t => t.readFlag.map ({ e with constants := · })
  | "use_volatile" => some fun t => t.readFlag.map ({ e with volatile := · })
  | "avoid_rank0_sweep" => some fun t => t.readFlag.map ({ e with separate := · })
  | "cache_dir" => some fun t => t.readText.map ({ e with cacheDir := · })
  | "tmp_dir" => some fun t => t.readText.map ({ e with workDir := · })
  | "cache_file_max" => some fun t => t.readInteger.map ({ e with cacheLimit := · })
  | "verbose" => some fun t => t.readFlag.map ({ e with verbose := · })
  | "work_group_size_1dx" => some fun t => t.readCount.map ({ e with lineX := · })
  | "work_group_size_2dx" => some fun t => t.readCount.map ({ e with planeX := · })
  | "work_group_size_2dy" => some fun t => t.readCount.map ({ e with planeY := · })
  | "work_group_size_3dx" => some fun t => t.readCount.map ({ e with boxX := · })
  | "work_group_size_3dy" => some fun t => t.readCount.map ({ e with boxY := · })
  | "work_group_size_3dz" => some fun t => t.readCount.map ({ e with boxZ := · })
  | "max_threaded_ranks" => some fun t => t.readCount.map ({ e with threadedRanks := · })
  | _ => none

/-- Reads the value of a field, and gives what follows it. -/
def readValue (e : SettingsEntries) (name : String) (ts : List Token) :
    Except Fault (SettingsEntries × List Token) :=
  match e.write? name with
  | none => (Token.skipValue ts).map (e, ·)
  | some write =>
    match ts with
    | [] => .error .malformedConfig
    | t :: rest => (write t).map (·, rest)

theorem eq_ok_of_map_eq_ok {x : Except Fault α} {f : α → β} {b : β} (h : x.map f = .ok b) :
    ∃ a, x = .ok a ∧ f a = b := by
  cases x with
  | error => cases h
  | ok a => exact ⟨a, rfl, Except.ok.inj h⟩

theorem length_lt_of_readValue {e e' : SettingsEntries} {name : String} {ts rest : List Token}
    (h : e.readValue name ts = .ok (e', rest)) : rest.length < ts.length := by
  unfold readValue at h
  split at h
  · obtain ⟨after, skipped, same⟩ := eq_ok_of_map_eq_ok h
    cases same
    exact Token.length_lt_of_skipValue skipped
  · cases ts with
    | nil => cases h
    | cons t ts =>
      obtain ⟨_, _, same⟩ := eq_ok_of_map_eq_ok h
      cases same
      exact Nat.lt_succ_self _

/-- Reads fields up to the end of an object. A comma may stand behind the last one. What stands
right behind the object is a token or the end of the text. -/
def readFields (e : SettingsEntries) (ts : List Token) : Except Fault SettingsEntries :=
  match ts with
  | .closeObject :: .malformed :: _ => .error .malformedConfig
  | .closeObject :: _ => .ok e
  | .text name :: .colon :: rest =>
    match _h : e.readValue name rest with
    | .ok (e, .comma :: after) => readFields e after
    | .ok (e, .closeObject :: after) => readFields e (.closeObject :: after)
    | .ok _ => .error .malformedConfig
    | .error f => .error f
  | _ => .error .malformedConfig
  termination_by ts.length
  decreasing_by
    all_goals
      have := length_lt_of_readValue _h
      simp only [List.length_cons] at this ⊢
      omega

/-- Entries of the text of a file. -/
def ofText (text : String) : Except Fault SettingsEntries :=
  match Token.list text.toList with
  | .openObject :: rest => readFields {} rest
  | _ => .error .malformedConfig

end SettingsEntries

namespace Settings

/-- Directory of binaries below the directory of all caches. -/
def defaultCacheDir (cacheHome : String) : String := cacheHome ++ "/jitk/kernels"

/-- Settings with the given entries. What is left open has its default. -/
def ofEntries (cacheHome : String) (e : SettingsEntries) : Except Fault Settings := do
  let target ← match e.target with
    | some name => Target.named name
    | none => pure .openmp
  let d : Settings := { target }
  pure {
    target
    command := e.command
    threads := e.threads.getD d.threads
    simd := e.simd.getD d.simd
    passing :=
      { strides := e.strides.getD d.passing.strides
        indices := e.indices.getD d.passing.indices
        constants := e.constants.getD d.passing.constants }
    volatile := e.volatile.getD d.volatile
    separate := e.separate.getD d.separate
    cacheDir :=
      match e.cacheDir with
      | some dir => if dir.isEmpty then none else some dir
      | none => some (defaultCacheDir cacheHome)
    workDir := e.workDir.filter (!·.isEmpty)
    cacheLimit := e.cacheLimit.getD d.cacheLimit
    verbose := e.verbose.getD d.verbose
    groups :=
      { lineX := e.lineX.getD d.groups.lineX
        planeX := e.planeX.getD d.groups.planeX
        planeY := e.planeY.getD d.groups.planeY
        boxX := e.boxX.getD d.groups.boxX
        boxY := e.boxY.getD d.groups.boxY
        boxZ := e.boxZ.getD d.groups.boxZ }
    threadedRanks := e.threadedRanks.getD d.threadedRanks }

/-- Settings of the text of a file. -/
def ofText (cacheHome text : String) : Except Fault Settings := do
  ofEntries cacheHome (← SettingsEntries.ofText text)

end Settings

/-- What the environment says about settings. -/
structure Environment where
  /-- Directory of all caches. -/
  cacheHome : String
  /-- Debug mask as text. -/
  debug : Option String := none
  /-- Directory of binaries. -/
  cacheDir : Option String := none
  /-- Binaries are not kept. -/
  noDiskCache : Bool := false

namespace Settings

/-- Settings of the first file that exists, if it can be read. Only a fault that does not let the
operation go on is reported. -/
def ofFiles (cacheHome : String) (files : List (Option String)) :
    Except Fault (Option Settings) :=
  match (files.filterMap id).head?.map (ofText cacheHome) with
  | some (.ok settings) => .ok (some settings)
  | some (.error f) => if f.kind = .aborted then .error f else .ok none
  | none => .ok none

/-- Settings of the first file that exists, with the line that says whether they were read. -/
def load (env : Environment) (files : List (Option String)) :
    Except Fault (Settings × List String) := do
  let debug := (env.debug.map DebugMask.ofText).getD {}
  let read ← ofFiles env.cacheHome files
  let settings := read.getD { cacheDir := some (defaultCacheDir env.cacheHome) }
  let cacheDir := if env.noDiskCache then none else env.cacheDir.or settings.cacheDir
  let line :=
    if read.isSome then "Engine config successfully read and parsed."
    else "Failed to get engine config, using defaults."
  pure ({ settings with debug, cacheDir }, if debug.messages then [line] else [])

end Settings

end ArrayFusion
