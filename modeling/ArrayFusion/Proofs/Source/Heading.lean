import ArrayFusion.Proofs.Source.Congruence

/-!
# Kernels with the same source

Besides its code, the source of a kernel has a heading: its name, its parameters, and the arrays that
it allocates. Two kernels whose code is shown alike and whose parameters and arrays are shown alike
have the same source.
-/

namespace ArrayFusion

namespace Symbols

/-- Two arrays are shown alike, with their sizes where these are written. -/
structure SameArray (s t : Symbols) (sized : Prop) (b c : BaseId) : Prop where
  name : t.baseNumber c = s.baseNumber b
  dtype : t.dtype c = s.dtype b
  size : sized → t.tempSize c = s.tempSize b

/-- The headings of two kernels are the same. Fortran writes the sizes of parameters. -/
structure HeadingAlike (d : Dialect) (s t : Symbols) : Prop where
  passing : t.passing = s.passing
  params : List.Forall₂ (s.SameArray t (d.isFortran = true)) s.params t.params
  arrayTemps : List.Forall₂ (s.SameArray t True) s.arrayTemps t.arrayTemps
  strideNames : t.strideNames = s.strideNames
  constants : List.Forall₂ (fun c c' : Constant => t.constantName c' = s.constantName c ∧
    c'.dtype = c.dtype) s.passedConstants t.passedConstants
  uses : ∀ type, t.uses type = s.uses type
  constantTypes : ∀ type, type ∈ t.constants.map (·.dtype) ↔ type ∈ s.constants.map (·.dtype)
  usesRandom : t.usesRandom = s.usesRandom
  hash : t.hash = s.hash

end Symbols

theorem toOption_bind_of_rel {ε α β γ : Type} {P : α → β → Prop} {x : Except ε α} {y : Except ε β}
    {f : α → Except ε γ} {g : β → Except ε γ} (first : Option.Rel P x.toOption y.toOption)
    (rest : ∀ a b, P a b → (g b).toOption = (f a).toOption) :
    (y >>= g).toOption = (x >>= f).toOption := by
  rw [toOption_bind, toOption_bind]
  generalize x.toOption = x at first
  generalize y.toOption = y at first
  cases first with
  | none => rfl
  | some related => exact rest _ _ related

/-- Related elements give related results, or none of the two lists gives any. -/
theorem rel_mapM {ε α β γ δ : Type} {R : α → β → Prop} {P : γ → δ → Prop} {f : α → Except ε γ}
    {g : β → Except ε δ} {xs : List α} {ys : List β} (related : List.Forall₂ R xs ys)
    (step : ∀ x y, R x y → Option.Rel P (f x).toOption (g y).toOption) :
    Option.Rel (List.Forall₂ P) (xs.mapM f).toOption (ys.mapM g).toOption := by
  induction related with
  | nil => exact .some .nil
  | @cons x y xs ys first _ ih =>
    have own := step x y first
    simp only [List.mapM_cons, toOption_bind, toOption_pure]
    generalize (f x).toOption = a at own
    generalize (g y).toOption = b at own
    generalize (xs.mapM f).toOption = as at ih
    generalize (ys.mapM g).toOption = bs at ih
    cases own with
    | none => exact .none
    | some own =>
      cases ih with
      | none => exact .none
      | some others => exact .some (.cons own others)

theorem isSome_mapM {ε α β : Type} {f : α → Except ε β} (xs : List α) :
    (xs.mapM f).toOption.isSome = xs.all fun x => (f x).toOption.isSome := by
  induction xs with
  | nil => rfl
  | cons x xs ih =>
    simp only [List.mapM_cons, toOption_bind, toOption_pure, List.all_cons, ← ih]
    cases (f x).toOption <;> cases (xs.mapM f).toOption <;> rfl

namespace Node

theorem leadingSizes_alike {H : LoopHead → LoopHead → Prop}
    {I : Instruction → Instruction → Prop}
    (heads : ∀ h h', H h h' → h'.size = h.size ∧ h'.sweeps.isEmpty = h.sweeps.isEmpty)
    {body body' : List Node} (related : BodyRelated H I body body') (limit : Nat) :
    leadingSizes limit body' = leadingSizes limit body := by
  induction limit generalizing body body' with
  | zero => rfl
  | succ limit ih =>
    match body, body' with
    | [], [] => rfl
    | [.leaf ..], [.leaf ..] => rfl
    | [.loop head body], [.loop head' body'] =>
      obtain ⟨size, sweeps⟩ := heads head head' related.1.1
      rw [leadingSizes, leadingSizes, size, sweeps, ih related.1.2]
    | n :: _ :: _, n' :: _ :: _ => cases n <;> cases n' <;> rfl
    | [], _ :: _ | _ :: _, [] => exact related.elim
    | [.leaf ..], [.loop ..] | [.loop ..], [.leaf ..] => exact related.1.elim
    | [_], _ :: _ :: _ | _ :: _ :: _, [_] => exact related.2.elim

end Node

namespace Dialect

variable {d : Dialect} {s t : Symbols} {R : View → View → Prop} {k k' : Nest}

/-- The types of arrays that are shown alike have the same names. -/
theorem typed_alike {sized : Prop} {bs cs : List BaseId}
    (arrays : List.Forall₂ (s.SameArray t sized) bs cs) :
    Option.Rel (List.Forall₂ fun p q : BaseId × String => s.SameArray t sized p.1 q.1 ∧ q.2 = p.2)
      (d.typed s bs).toOption (d.typed t cs).toOption := by
  apply rel_mapM arrays
  intro b c same
  rw [same.dtype]
  cases d.target.typeName (s.dtype b) with
  | error fault => exact .none
  | ok name => exact .some ⟨same, rfl⟩

theorem arrayName_alike {sized : Prop} {b c : BaseId} (same : s.SameArray t sized b c) :
    t.arrayName c = s.arrayName b := by
  rw [Symbols.arrayName, same.name, Symbols.arrayName]

section Arrays

variable {sized : Prop} {arrays arrays' : List (BaseId × String)} {bs cs : List BaseId} {γ : Type}

/-- Text for arrays that shows their names and types. -/
theorem map_typed_alike (f : String → String → γ) (same : List.Forall₂ (fun p q : BaseId × String =>
    s.SameArray t sized p.1 q.1 ∧ q.2 = p.2) arrays arrays') :
    arrays'.map (fun q => f (t.arrayName q.1) q.2) = arrays.map fun p => f (s.arrayName p.1) p.2 :=
  map_eq_of_forall₂ same fun _ _ ⟨array, type⟩ => by rw [arrayName_alike array, type]

/-- Text for arrays that shows their names, types and places. -/
theorem map_zipIdx_typed_alike (f : String → String → Nat → γ)
    (same : List.Forall₂ (fun p q : BaseId × String =>
      s.SameArray t sized p.1 q.1 ∧ q.2 = p.2) arrays arrays') :
    arrays'.zipIdx.map (fun q => f (t.arrayName q.1.1) q.1.2 q.2) =
      arrays.zipIdx.map fun p => f (s.arrayName p.1.1) p.1.2 p.2 :=
  map_eq_of_forall₂ (forall₂_zipIdx same 0) fun _ _ ⟨⟨array, type⟩, place⟩ => by
    rw [arrayName_alike array, type, place]

/-- Text for arrays that shows their names, types and sizes. -/
theorem map_sized_alike (f : String → String → Int → γ)
    (same : List.Forall₂ (fun p q : BaseId × String =>
      s.SameArray t True p.1 q.1 ∧ q.2 = p.2) arrays arrays') :
    arrays'.map (fun q => f (t.arrayName q.1) q.2 (t.tempSize q.1)) =
      arrays.map fun p => f (s.arrayName p.1) p.2 (s.tempSize p.1) :=
  map_eq_of_forall₂ same fun _ _ ⟨array, type⟩ => by
    rw [arrayName_alike array, type, array.size trivial]

/-- Text for arrays that shows their names and sizes. -/
theorem map_bases_alike (f : String → Int → γ) (size : sized)
    (same : List.Forall₂ (s.SameArray t sized) bs cs) :
    cs.map (fun c => f (t.arrayName c) (t.tempSize c)) =
      bs.map fun b => f (s.arrayName b) (s.tempSize b) :=
  map_eq_of_forall₂ same fun _ _ array => by rw [arrayName_alike array, array.size size]

theorem map_zipIdx_bases_alike (f : String → Int → Nat → γ) (size : sized)
    (same : List.Forall₂ (s.SameArray t sized) bs cs) :
    cs.zipIdx.map (fun q => f (t.arrayName q.1) (t.tempSize q.1) q.2) =
      bs.zipIdx.map fun p => f (s.arrayName p.1) (s.tempSize p.1) p.2 :=
  map_eq_of_forall₂ (forall₂_zipIdx same 0) fun _ _ ⟨array, place⟩ => by
    rw [arrayName_alike array, array.size size, place]

end Arrays

theorem map_constantName_alike {γ : Type} (f : String → γ) (heading : s.HeadingAlike d t) :
    t.passedConstants.map (fun c => f (t.constantName c)) =
      s.passedConstants.map fun c => f (s.constantName c) :=
  map_eq_of_forall₂ heading.constants fun _ _ same => by rw [same.1]

theorem openmpKernel_alike (symbols : s.Alike t R) (heading : s.HeadingAlike d t)
    (h : k.Alike d s t R k') : (d.openmpKernel t k').toOption = (d.openmpKernel s k).toOption := by
  rw [openmpKernel, openmpKernel, heading.uses]
  split
  · simp only [toOption_bind, toOption_throw, Option.bind_none]
  dsimp only
  apply toOption_bind_of_rel (typed_alike heading.params)
  intro arrays arrays' sameArrays
  apply toOption_bind_of_rel (typed_alike heading.arrayTemps)
  intro temps temps' sameTemps
  apply toOption_bind_congr (kernelCode_alike symbols (.root s t R 0) h)
  intro code
  rw [map_typed_alike (fun name type => type ++ " *" ++ name) sameArrays,
    map_typed_alike (fun name _ => name) sameArrays,
    map_zipIdx_typed_alike (fun name type k =>
      indented 1 (type ++ " *" ++ name ++ s!" = data_list[{k}];")) sameArrays,
    map_sized_alike (fun name type size =>
      indented 1 (type ++ " *" ++ name ++ s!" = malloc({size} * sizeof({type}));")) sameTemps,
    map_bases_alike (fun name _ => indented 1 ("free(" ++ name ++ ");")) trivial heading.arrayTemps,
    map_constantName_alike (fun name => "union dtype " ++ name) heading,
    heading.strideNames, heading.usesRandom, heading.constants.length_eq]

theorem deviceParameters_alike (heading : s.HeadingAlike d t) :
    (d.deviceParameters t).toOption = (d.deviceParameters s).toOption := by
  have constants : Option.Rel (List.Forall₂ Eq) (s.passedConstants.mapM (d.deviceConstant s)).toOption
      (t.passedConstants.mapM (d.deviceConstant t)).toOption := by
    apply rel_mapM heading.constants
    rintro c c' ⟨name, type⟩
    have same : d.deviceConstant t c' = d.deviceConstant s c := by
      rw [deviceConstant, deviceConstant, name, type]
    rw [same]
    cases (d.deviceConstant s c).toOption with
    | none => exact .none
    | some texts => exact .some rfl
  rw [deviceParameters, deviceParameters, isEmpty_eq_of_forall₂ heading.arrayTemps]
  split
  · rfl
  dsimp only
  apply toOption_bind_of_rel (typed_alike heading.params)
  intro arrays arrays' sameArrays
  apply toOption_bind_of_rel constants
  intro texts texts' sameTexts
  rw [List.forall₂_eq_eq_eq] at sameTexts
  rw [map_typed_alike (fun name type =>
    (if d.target = .opencl then "__global " else "") ++ type ++ " *" ++ name) sameArrays,
    heading.strideNames, sameTexts]

theorem deviceHeading_alike (heading : s.HeadingAlike d t) :
    d.deviceHeading t = d.deviceHeading s := by
  simp only [deviceHeading, heading.uses]

theorem threadStack_alike (h : k.Alike d s t R k') : d.threadStack k' = d.threadStack k := by
  have leading := Node.leadingSizes_alike (fun _ _ head => ⟨head.size, head.sweeps⟩) (And.right h)
  rw [threadStack, threadStack]
  cases d.target with
  | openmp | fortran => rfl
  | opencl | cuda => exact leading _

theorem deviceKernel_alike (symbols : s.Alike t R) (heading : s.HeadingAlike d t)
    (h : k.Alike d s t R k') : (d.deviceKernel t k').toOption = (d.deviceKernel s k).toOption := by
  rw [deviceKernel, deviceKernel, threadStack_alike h]
  apply toOption_bind_congr (deviceParameters_alike heading)
  intro parameters
  apply toOption_bind_congr (kernelCode_alike symbols (.root s t R _) h)
  intro code
  rw [deviceHeading_alike heading, heading.usesRandom, heading.hash]

/-- Constants with the names of their types. -/
def typedConstants (d : Dialect) (cs : List Constant) : Except Fault (List (Constant × String)) :=
  cs.mapM fun c => do pure (c, ← d.target.typeName c.dtype)

/-- The types of constants have names if each of these types has one. -/
theorem isSome_typedConstants (d : Dialect) (cs : List Constant) :
    (d.typedConstants cs).toOption.isSome =
      (cs.map (·.dtype)).all fun type => (d.target.typeName type).toOption.isSome := by
  rw [typedConstants, isSome_mapM, List.all_map]
  refine congrArg (List.all cs) (funext fun c => ?_)
  rw [toOption_bind, Function.comp_apply]
  cases d.target.typeName c.dtype <;> rfl

/-- The types of the constants can be written in both kernels or in none, and constants that are
passed have the same names. -/
theorem typedConstants_alike (heading : s.HeadingAlike d t) :
    Option.Rel (fun cs cs' : List (Constant × String) => s.passing.constants = true →
        List.Forall₂ (fun p q => t.constantName q.1 = s.constantName p.1 ∧ q.2 = p.2) cs cs')
      (d.typedConstants s.constants).toOption (d.typedConstants t.constants).toOption := by
  have both : (d.typedConstants t.constants).toOption.isSome =
      (d.typedConstants s.constants).toOption.isSome := by
    rw [isSome_typedConstants, isSome_typedConstants, Bool.eq_iff_iff, List.all_eq_true,
      List.all_eq_true]
    exact forall_congr' fun type => by rw [heading.constantTypes]
  have passed : s.passing.constants = true →
      Option.Rel (List.Forall₂ fun p q : Constant × String =>
          t.constantName q.1 = s.constantName p.1 ∧ q.2 = p.2)
        (d.typedConstants s.constants).toOption (d.typedConstants t.constants).toOption := by
    intro passed
    have constants := heading.constants
    rw [Symbols.passedConstants, Symbols.passedConstants, heading.passing, if_pos passed,
      if_pos passed] at constants
    apply rel_mapM constants
    rintro c c' ⟨name, type⟩
    rw [type]
    cases d.target.typeName c.dtype with
    | error fault => exact .none
    | ok type => exact .some ⟨name, rfl⟩
  generalize (d.typedConstants s.constants).toOption = cs at *
  generalize (d.typedConstants t.constants).toOption = cs' at *
  cases cs with
  | none =>
    cases cs' with
    | none => exact .none
    | some => contradiction
  | some =>
    cases cs' with
    | none => contradiction
    | some =>
      refine .some fun passing => ?_
      cases passed passing with
      | some same => exact same

theorem fortranKernel_alike (fortran : d.isFortran = true) (symbols : s.Alike t R)
    (heading : s.HeadingAlike d t) (h : k.Alike d s t R k') :
    (d.fortranKernel t k').toOption = (d.fortranKernel s k).toOption := by
  have depth : k'.loopDepth = k.loopDepth := by
    have ranks := congrArg (List.map fun r : Int => (r + 1).toNat) h.innerRanks
    rw [List.map_map, List.map_map] at ranks
    exact congrArg (List.foldl max 0) ranks
  rw [fortranKernel, fortranKernel]
  dsimp only
  apply toOption_bind_of_rel (typed_alike heading.params)
  intro arrays arrays' sameArrays
  apply toOption_bind_of_rel (typed_alike heading.arrayTemps)
  intro temps temps' sameTemps
  apply toOption_bind_of_rel (typedConstants_alike heading)
  intro constants constants' sameConstants
  apply toOption_bind_congr (kernelCode_alike symbols (.root s t R 0) h)
  intro code
  have shown : List.Forall₂ (fun p q => t.constantName q.1 = s.constantName p.1 ∧ q.2 = p.2)
      (if s.passing.constants then constants else [])
      (if t.passing.constants then constants' else []) := by
    rw [heading.passing]
    split
    next passed => exact sameConstants passed
    next => exact .nil
  have declared := map_eq_of_forall₂ shown
    (f := fun p => indented 1 (d.declared p.2 (s.constantName p.1)))
    (g := fun q => indented 1 (d.declared q.2 (t.constantName q.1)))
    fun p q ⟨name, type⟩ => by rw [name, type]
  have unpacked := map_eq_of_forall₂ (forall₂_zipIdx shown 0)
    (f := fun p => indented 1 (s.constantName p.1.1 ++
      s!" = TRANSFER(constants(:, {p.2 + 1}), " ++ s.constantName p.1.1 ++ ")"))
    (g := fun q => indented 1 (t.constantName q.1.1 ++
      s!" = TRANSFER(constants(:, {q.2 + 1}), " ++ t.constantName q.1.1 ++ ")"))
    fun p q ⟨⟨name, _⟩, place⟩ => by rw [name, place]
  rw [map_typed_alike (fun name type => indented 1 (d.declared (type ++ ", pointer") (name ++ "(:)")))
      sameArrays,
    map_typed_alike (fun name type =>
      indented 1 (d.declared (type ++ ", allocatable") (name ++ "(:)"))) sameTemps,
    map_zipIdx_bases_alike (fun name size k => indented 1 (s!"call c_f_pointer(data_list({k + 1}), " ++
      name ++ s!", [{size}_c_int64_t])")) fortran heading.params,
    map_bases_alike (fun name size => indented 1 ("allocate(" ++ name ++ s!"({size}))")) trivial
      heading.arrayTemps,
    map_bases_alike (fun name _ => indented 1 ("deallocate(" ++ name ++ ")")) trivial
      heading.arrayTemps,
    declared, unpacked, heading.strideNames, depth]

/-- Kernels that are shown alike have the same source. -/
theorem kernelText_alike (symbols : s.Alike t R) (heading : s.HeadingAlike d t)
    (h : k.Alike d s t R k') : (d.kernelText t k').toOption = (d.kernelText s k).toOption := by
  rw [kernelText, kernelText]
  cases target : d.target with
  | openmp => exact openmpKernel_alike symbols heading h
  | opencl | cuda => exact deviceKernel_alike symbols heading h
  | fortran => exact fortranKernel_alike (by rw [isFortran, target]; rfl) symbols heading h

/-- Kernels that are shown alike are written with the same text, or none of them is written. -/
theorem write_alike {passing : Passing}
    (symbols : (Symbols.ofKernel k passing).Alike (Symbols.ofKernel k' passing) R)
    (heading : (Symbols.ofKernel k passing).HeadingAlike d (Symbols.ofKernel k' passing))
    (h : k.Alike d (Symbols.ofKernel k passing) (Symbols.ofKernel k' passing) R k') :
    (d.write k' passing).toOption.map (·.text) = (d.write k passing).toOption.map (·.text) := by
  have written : ∀ k : Nest, (d.write k passing).toOption.map (·.text) =
      (d.kernelText (Symbols.ofKernel k passing) k).toOption := by
    intro k
    rw [write, toOption_bind]
    cases (d.kernelText (Symbols.ofKernel k passing) k).toOption <;> rfl
  rw [written, written]
  exact kernelText_alike symbols heading h

end Dialect

end ArrayFusion
