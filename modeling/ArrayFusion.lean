import ArrayFusion.Instruction.Dependency
import ArrayFusion.Instruction.Edit
import ArrayFusion.Numeral.Fnv
import ArrayFusion.Program.Motion
import ArrayFusion.Program.Partition
import ArrayFusion.View.Notation
import ArrayFusion.Nest.Parallel
import ArrayFusion.Nest.Peel
import ArrayFusion.Nest.Text
import ArrayFusion.Fusion.Passes
import ArrayFusion.Eval.Nest
import ArrayFusion.Kernel.Scope
import ArrayFusion.Source.Kernel
import ArrayFusion.Settings.Reading
import ArrayFusion.Backend.Host
import ArrayFusion.Backend.Interpreter
import ArrayFusion.Backend.Recorder
import ArrayFusion.Engine.Execute
import ArrayFusion.Proofs.Engine.Meaning
import ArrayFusion.Proofs.Eval.Visits
import ArrayFusion.Proofs.Eval.Parallel
import ArrayFusion.Proofs.Fusion.Isolation
import ArrayFusion.Proofs.Fusion.Peel
import ArrayFusion.Proofs.Program.Partition
import ArrayFusion.Proofs.Backend.Bounds
import ArrayFusion.Proofs.Engine.Resolving
import ArrayFusion.Proofs.Kernel.Temporaries
import ArrayFusion.Proofs.Source.Index
import ArrayFusion.Proofs.Eval.Sweep
import ArrayFusion.Proofs.Source.Sliding
import ArrayFusion.Proofs.Source.Determined
import ArrayFusion.Proofs.Fusion.Separation
import ArrayFusion.Proofs.Backend.Geometry
import ArrayFusion.Proofs.Cache.Calls
import ArrayFusion.Proofs.Cache.History
import ArrayFusion.Proofs.Cache.Persist
import ArrayFusion.Proofs.Cache.Lifetime
import ArrayFusion.Proofs.Cache.Coherence
import ArrayFusion.Proofs.View.Canonical
import ArrayFusion.Proofs.Fusion.Current
import ArrayFusion.Proofs.Program.Motion
import ArrayFusion.Proofs.Engine.Handover
import ArrayFusion.Proofs.View.Exact
import ArrayFusion.Proofs.Engine.Independence
import ArrayFusion.Proofs.Eval.InStep
import ArrayFusion.Proofs.Eval.ReshapedRun
import ArrayFusion.Proofs.Program.Sliding
import ArrayFusion.Proofs.Fusion.Nested
import ArrayFusion.Proofs.Eval.Division
import ArrayFusion.Proofs.Eval.Random
import ArrayFusion.Proofs.Eval.Power
import ArrayFusion.Proofs.Source.Shared
import ArrayFusion.Proofs.Kernel.Extents
import ArrayFusion.Proofs.Numeral.Fnv
import ArrayFusion.Proofs.Engine.Matrix
import ArrayFusion.Proofs.Eval.Transposed
import ArrayFusion.Proofs.Fusion.Retest
import ArrayFusion.Proofs.Kernel.Loops
import ArrayFusion.Proofs.Source.Prefix
