import Bsd.Store.DerivedPaths
import Bsd.Store.MaskedText
import Bsd.Util.Rewriting

/-!
# Resolving derivations

`tryResolve` turns the inputs of a derivation that are outputs of other derivations into
plain sources. The placeholders of these outputs are replaced by their paths, and then the
deferred outputs get the paths that belong to the masked hash of the result. The hash is
taken before the paths are entered into the environment.
-/

namespace Bsd.Store.Resolution

open Lib.Occurrences Lib.OrdMap Lib.Readers Lib.Memo Util.FilePath Util.Hashes Store.Path List
  SortedMap Calls
open Store.ContentAddresses Store.Derivations Store.HashModulo Store.HashText Store.CheckInvariants
open Store.MaskedText Store.DerivedPaths Util.Rewriting

structure Features where
  caDerivations : Bool
  dynamicDerivations : Bool

def require (enabled : Bool) (feature : Bytes) : Except Failure Unit :=
  if enabled then .ok ()
  else .error (.error (ascii "experimental Bsd feature " ++ quoted feature ++
    ascii " is disabled; add '--extra-experimental-features " ++ feature ++ ascii "' to enable it"))

structure DownstreamPlaceholder where
  hash : Hash

def DownstreamPlaceholder.render (placeholder : DownstreamPlaceholder) : Bytes :=
  ascii "/" ++ printHash32 placeholder.hash.hash

section

variable (features : Features) (sha : Sha256)

/-- A name that is too short for an extension is taken as a whole: the size wraps around. -/
def unknownCaOutput (drvPath : StorePath) (outputName : Bytes) :
    Except Failure DownstreamPlaceholder := do
  require features.caDerivations (ascii "ca-derivations")
  let drvNameWithExtension := drvPath.name
  let drvName :=
    if drvNameWithExtension.length < 4 then drvNameWithExtension
    else drvNameWithExtension.take (drvNameWithExtension.length - 4)
  pure ⟨hashString sha (ascii "bsd-upstream-output:" ++ drvPath.hashPart ++ ascii ":" ++
    outputPathName drvName outputName)⟩

def unknownDerivation (placeholder : DownstreamPlaceholder) (outputName : Bytes) :
    Except Failure DownstreamPlaceholder := do
  require features.dynamicDerivations (ascii "dynamic-derivations")
  pure ⟨hashString sha (ascii "bsd-computed-output:" ++
    printHash32 (compressHash placeholder.hash 20) ++ ascii ":" ++ outputName)⟩

def getPlaceholder (placeholderOpt : Option DownstreamPlaceholder) (drvPath : SingleDerivedPath)
    (outputName : Bytes) : Except Failure DownstreamPlaceholder :=
  match placeholderOpt with
  | some placeholder => unknownDerivation features sha placeholder outputName
  | none =>
    match drvPath with
    | .opaquePath path => unknownCaOutput features sha path outputName
    | .built _ _ => .error .assertion

end

structure Inputs where
  inputSrcs : Finset StorePath
  inputRewrites : SortedMap Bytes Bytes

abbrev Query := SingleDerivedPath → Bytes → Except Failure (Option StorePath)

section Inputs

variable (store : StoreDirConfig) (sha : Sha256) (features : Features)
  (queryResolutionChain : Query)

section

variable (placeholderOpt : Option DownstreamPlaceholder) (drvPath : SingleDerivedPath)

def addRewrite (outputName : Bytes) (actualPath : StorePath) (inputs : Inputs) :
    Except Failure (SortedMap Bytes Bytes) :=
  if features.caDerivations then do
    let placeholder ← getPlaceholder features sha placeholderOpt drvPath outputName
    pure (inputs.inputRewrites.emplaceAt placeholder.render (printStorePath store actualPath))
  else pure inputs.inputRewrites

/-- The loop over the outputs of a node; nothing is the result `false`. -/
def resolveOutputs : List Bytes → Inputs → Except Failure (Option Inputs)
  | [], inputs => pure (some inputs)
  | outputName :: rest, inputs => do
      let actualPathOpt ← queryResolutionChain drvPath outputName
      match actualPathOpt with
      | none => pure none
      | some actualPath =>
        let inputRewrites ←
          addRewrite store sha features placeholderOpt drvPath outputName actualPath inputs
        resolveOutputs rest ⟨insert actualPath inputs.inputSrcs, inputRewrites⟩

end

mutual

def tryResolveInput (placeholderOpt : Option DownstreamPlaceholder) (drvPath : SingleDerivedPath) :
    ChildNode → Inputs → Except Failure (Option Inputs)
  | .node value childMap, inputs => do
      let resolved ← resolveOutputs store sha features queryResolutionChain placeholderOpt drvPath
        (sortedValue value) inputs
      match resolved with
      | none => pure none
      | some inputs => tryResolveChildren placeholderOpt drvPath childMap inputs

def tryResolveChildren (placeholderOpt : Option DownstreamPlaceholder)
    (drvPath : SingleDerivedPath) :
    ChildMap → Inputs → Except Failure (Option Inputs)
  | [], inputs => pure (some inputs)
  | (outputName, childNode) :: rest, inputs => do
      let nextPlaceholder ← getPlaceholder features sha placeholderOpt drvPath outputName
      let resolved ← tryResolveInput (some nextPlaceholder) (.built drvPath outputName) childNode
        inputs
      match resolved with
      | none => pure none
      | some inputs => tryResolveChildren placeholderOpt drvPath rest inputs

end

def resolveInputs : List (StorePath × InputNode) → Inputs → Except Failure (Option Inputs)
  | [], inputs => pure (some inputs)
  | (inputDrv, inputNode) :: rest, inputs => do
      let resolved ← tryResolveInput store sha features queryResolutionChain none
        (.opaquePath inputDrv) inputNode.val inputs
      match resolved with
      | none => pure none
      | some inputs => resolveInputs rest inputs

end Inputs

section

variable (rounds : Nat) (rewrites : SortedMap Bytes Bytes)

def rewriteVariable (envVar : Bytes × Bytes) : Except Failure (Bytes × Bytes) := do
  let envName ← rewriteStrings rounds rewrites.entries envVar.1
  let envValue ← rewriteStrings rounds rewrites.entries envVar.2
  pure (envName, envValue)

def rewriteAll (texts : List Bytes) : Except Failure (List Bytes) :=
  texts.mapM (rewriteStrings rounds rewrites.entries)

def applyRewrites (drv : Derivation) : Except Failure Derivation :=
  if rewrites.entries = [] then .ok drv
  else do
    let builder ← rewriteStrings rounds rewrites.entries drv.builder
    let args ← rewriteAll rounds rewrites drv.args
    let newEnv ← drv.env.entries.mapM (rewriteVariable rounds rewrites)
    pure { drv with builder := builder, args := args, env := SortedMap.emplaceAll newEnv }

end

section

variable (store : StoreDirConfig) (sha : Sha256)

def noOutputHash (drvName outputName : Bytes) : Failure :=
  .error (ascii "derivation " ++ quoted drvName ++ ascii " output " ++ quoted outputName ++
    ascii " has no hash (derivations.cc/rewriteDerivation)")

def rewriteOutput (drvName : Bytes) (hashModulo : DrvHash) (drv : Derivation)
    (entry : Bytes × DerivationOutput) : Except Failure Derivation :=
  match entry.2 with
  | .deferred => enterPath store sha (noOutputHash drvName) hashModulo drv entry.1
  | _ => .ok drv

def rewriteDerivation (rounds : Nat) (rewrites : SortedMap Bytes Bytes) (drv : Derivation) :
    Hashing Derivation := do
  let drv ← Calls.ofExcept (applyRewrites rounds rewrites drv)
  let hashModulo ← hashCalls store sha drv true
  Calls.ofExcept (drv.outputs.entries.foldlM (rewriteOutput store sha drv.name hashModulo) drv)

variable (features : Features) (queryResolutionChain : Query) (rounds : Nat) (drv : Derivation)

def basicDerivation (inputs : Inputs) : Derivation :=
  { drv with inputSrcs := inputs.inputSrcs, inputDrvs := SortedMap.empty }

def resolveCalls : Hashing (Option Derivation) := do
  let resolved ← Calls.ofExcept (resolveInputs store sha features queryResolutionChain
    drv.inputDrvs.entries ⟨drv.inputSrcs, SortedMap.empty⟩)
  match resolved with
  | none => pure none
  | some inputs => do
      let resolved ← rewriteDerivation store sha rounds inputs.inputRewrites
        (basicDerivation drv inputs)
      pure (some resolved)

def tryResolve (readFile : ReadFile) (depth : Nat)
    (drvHashes : DrvHashes) : Except Failure (Option Derivation) × DrvHashes :=
  (resolveCalls store sha features queryResolutionChain rounds drv).evalMemo
    (pathDerivationModulo store sha readFile depth) drvHashes

def HashedAs (hashed : Derivation) : Prop :=
  ∃ inputs, resolveInputs store sha features queryResolutionChain drv.inputDrvs.entries
      ⟨drv.inputSrcs, SortedMap.empty⟩ = .ok (some inputs) ∧
    applyRewrites rounds inputs.inputRewrites (basicDerivation drv inputs) = .ok hashed

end

def Slashed (rewrites : SortedMap Bytes Bytes) : Prop :=
  ∀ key value, rewrites.get key = some value → 47 ∈ key ∧ 47 ∈ value

variable {name : Bytes}

section Slashes

variable {store : StoreDirConfig} {sha : Sha256} {features : Features} {query : Query}

theorem printed_path_slash (store : StoreDirConfig) (path : StorePath) :
    47 ∈ printStorePath store path := by
  simp [printStorePath, ascii]

variable {rewrites : SortedMap Bytes Bytes}

theorem slashed_emplace (slashed : Slashed rewrites) (placeholder : DownstreamPlaceholder)
    (path : StorePath) :
    Slashed (rewrites.emplaceAt placeholder.render (printStorePath store path)) := by
  intro key value found
  rw [emplaceAt, get_update] at found
  split at found
  next same =>
    rw [same]
    refine ⟨mem_append_left _ (by decide), ?_⟩
    rw [← Option.some.inj found]
    cases old : rewrites.get placeholder.render with
    | none => exact printed_path_slash store path
    | some text => exact (slashed _ _ old).2
  · exact slashed key value found

variable {placeholderOpt : Option DownstreamPlaceholder} {drvPath : SingleDerivedPath}
  {inputs : Inputs}

variable {resolved : Inputs}

theorem resolve_outputs_slashed {names : List Bytes} (slashed : Slashed inputs.inputRewrites)
    (ran : resolveOutputs store sha features query placeholderOpt drvPath names inputs =
      .ok (some resolved)) : Slashed resolved.inputRewrites := by
  induction names generalizing inputs with
  | nil =>
    rw [← Option.some.inj (Except.ok.inj ran)]
    exact slashed
  | cons name rest ih =>
    obtain ⟨actualPathOpt, _, ran⟩ := except_bind_ok ran
    cases actualPathOpt with
    | none => cases ran
    | some actualPath =>
      obtain ⟨rewrites, added, further⟩ := except_bind_ok ran
      refine ih ?_ further
      rw [addRewrite] at added
      split at added
      · obtain ⟨placeholder, _, isRewrites⟩ := except_bind_ok added
        rw [← Except.ok.inj isRewrites]
        exact slashed_emplace slashed placeholder actualPath
      · rw [← Except.ok.inj added]
        exact slashed

mutual

theorem try_resolve_input_slashed (placeholderOpt : Option DownstreamPlaceholder)
    (drvPath : SingleDerivedPath) (node : ChildNode) {inputs resolved : Inputs}
    (slashed : Slashed inputs.inputRewrites)
    (ran : tryResolveInput store sha features query placeholderOpt drvPath node inputs =
      .ok (some resolved)) : Slashed resolved.inputRewrites := by
  cases node with
  | node value childMap =>
    obtain ⟨after, outputs, ran⟩ := except_bind_ok ran
    cases after with
    | none => cases ran
    | some inputs =>
      exact try_resolve_children_slashed placeholderOpt drvPath childMap
        (resolve_outputs_slashed slashed outputs) ran

theorem try_resolve_children_slashed (placeholderOpt : Option DownstreamPlaceholder)
    (drvPath : SingleDerivedPath) (children : ChildMap) {inputs resolved : Inputs}
    (slashed : Slashed inputs.inputRewrites)
    (ran : tryResolveChildren store sha features query placeholderOpt drvPath children inputs =
      .ok (some resolved)) : Slashed resolved.inputRewrites := by
  cases children with
  | nil =>
    rw [← Option.some.inj (Except.ok.inj ran)]
    exact slashed
  | cons child rest =>
    obtain ⟨outputName, childNode⟩ := child
    obtain ⟨placeholder, _, ran⟩ := except_bind_ok ran
    obtain ⟨after, below, ran⟩ := except_bind_ok ran
    cases after with
    | none => cases ran
    | some inputs =>
      exact try_resolve_children_slashed placeholderOpt drvPath rest
        (try_resolve_input_slashed _ _ childNode slashed below) ran

end

theorem resolve_inputs_slashed {drvs : List (StorePath × InputNode)}
    (slashed : Slashed inputs.inputRewrites)
    (ran : resolveInputs store sha features query drvs inputs = .ok (some resolved)) :
    Slashed resolved.inputRewrites := by
  induction drvs generalizing inputs with
  | nil =>
    rw [← Option.some.inj (Except.ok.inj ran)]
    exact slashed
  | cons entry rest ih =>
    obtain ⟨after, first, ran⟩ := except_bind_ok ran
    cases after with
    | none => cases ran
    | some inputs => exact ih (try_resolve_input_slashed _ _ _ slashed first) ran

/-- A text and what a rewrite made of it: nothing happens without a slash, and a slash is
not lost. -/
def SlashKept (before after : Bytes) : Prop :=
  (47 ∉ before → after = before) ∧ (47 ∈ before → 47 ∈ after)

theorem SlashKept.trans {first second third : Bytes} (left : SlashKept first second)
    (right : SlashKept second third) : SlashKept first third := by
  constructor
  · intro plain
    have same := left.1 plain
    rw [same] at right
    exact right.1 plain
  · intro slash
    exact right.2 (left.2 slash)

variable {before after : Bytes} {rounds : Nat}

theorem replace_loop_slash {old new : Bytes} (oldSlash : 47 ∈ old) (newSlash : 47 ∈ new) {j : Nat}
    (ran : replaceLoop old new rounds before j = .ok after) : SlashKept before after := by
  induction rounds generalizing before j with
  | zero => cases ran
  | succ rounds ih =>
    rw [replaceLoop] at ran
    split at ran
    · rw [← Except.ok.inj ran]
      exact ⟨fun _ => rfl, id⟩
    next k found =>
      constructor
      · intro plain
        obtain ⟨_, occurs, _⟩ := find_some found
        exact absurd (mem_of_mem_drop (occurs.subset oldSlash)) plain
      · intro _
        apply (ih ran).2
        simp [newSlash]

theorem rewrite_strings_slash (slashed : Slashed rewrites)
    (ran : rewriteStrings rounds rewrites.entries before = .ok after) : SlashKept before after := by
  have each : ∀ entry ∈ rewrites.entries, 47 ∈ entry.1 ∧ 47 ∈ entry.2 := by
    intro entry member
    exact slashed entry.1 entry.2 (mem_iff_get.mp member)
  rw [rewriteStrings] at ran
  generalize rewrites.entries = entries at ran each
  induction entries generalizing before with
  | nil =>
    rw [← Except.ok.inj ran]
    exact ⟨fun _ => rfl, id⟩
  | cons entry rest ih =>
    rw [forall_mem_cons] at each
    rw [foldlM_cons] at ran
    obtain ⟨middle, first, further⟩ := except_bind_ok ran
    refine SlashKept.trans ?_ (ih further each.2)
    split at first
    · rw [← Except.ok.inj first]
      exact ⟨fun _ => rfl, id⟩
    · exact replace_loop_slash each.1.1 each.1.2 first

theorem rewrite_variables_names (slashed : Slashed rewrites) (plain : 47 ∉ name)
    {before after : List (Bytes × Bytes)}
    (ran : before.mapM (rewriteVariable rounds rewrites) = .ok after) :
    name ∈ after.map Prod.fst ↔ name ∈ before.map Prod.fst := by
  induction before generalizing after with
  | nil =>
    rw [← Except.ok.inj ran]
    rfl
  | cons entry rest ih =>
    rw [mapM_cons] at ran
    obtain ⟨rewritten, first, ran⟩ := except_bind_ok ran
    obtain ⟨more, further, isAfter⟩ := except_bind_ok ran
    obtain ⟨envName, named, first⟩ := except_bind_ok first
    obtain ⟨envValue, _, isRewritten⟩ := except_bind_ok first
    have kept := rewrite_strings_slash slashed named
    have sameName : name = envName ↔ name = entry.1 := by
      by_cases slash : 47 ∈ entry.1
      · apply iff_of_false
        · intro same
          exact plain (same ▸ kept.2 slash)
        · intro same
          exact plain (same ▸ slash)
      · rw [kept.1 slash]
    rw [← Except.ok.inj isAfter, map_cons, map_cons, mem_cons, mem_cons,
      ih further, ← Except.ok.inj isRewritten, sameName]

end Slashes

structure AppliedTo (before after : Derivation) : Prop where
  name : after.name = before.name
  outputs : after.outputs = before.outputs
  inputDrvs : after.inputDrvs = before.inputDrvs
  named : ∀ name, 47 ∉ name →
    ((after.env.get name).isSome = true ↔ (before.env.get name).isSome = true)

theorem apply_rewrites_applied {rounds : Nat} {rewrites : SortedMap Bytes Bytes}
    (slashed : Slashed rewrites) {before after : Derivation}
    (ran : applyRewrites rounds rewrites before = .ok after) : AppliedTo before after := by
  rw [applyRewrites] at ran
  split at ran
  · rw [← Except.ok.inj ran]
    exact ⟨rfl, rfl, rfl, fun _ _ => Iff.rfl⟩
  obtain ⟨builder, _, ran⟩ := except_bind_ok ran
  obtain ⟨args, _, ran⟩ := except_bind_ok ran
  obtain ⟨newEnv, rewritten, isAfter⟩ := except_bind_ok ran
  rw [← Except.ok.inj isAfter]
  refine ⟨rfl, rfl, rfl, ?_⟩
  intro name plain
  rw [Option.isSome_iff_exists, Option.isSome_iff_exists, ← mem_keys_iff,
    ← mem_keys_iff, emplace_all_mem_keys,
    rewrite_variables_names slashed plain rewritten]

section

variable {store : StoreDirConfig} {sha : Sha256} {features : Features} {query : Query}
  {rounds : Nat} {drv hashed resolved : Derivation}

theorem hashed_as_applied (isHashed : HashedAs store sha features query rounds drv hashed) :
    hashed.name = drv.name ∧ hashed.outputs = drv.outputs ∧ hashed.inputDrvs = empty ∧
      ∀ name, 47 ∉ name →
        ((hashed.env.get name).isSome = true ↔ (drv.env.get name).isSome = true) := by
  obtain ⟨inputs, found, applied⟩ := isHashed
  have initially : Slashed (empty : SortedMap Bytes Bytes) := by
    intro key value missing
    cases missing
  have slashed : Slashed inputs.inputRewrites := resolve_inputs_slashed initially found
  have kept := apply_rewrites_applied slashed applied
  exact ⟨kept.name, kept.outputs, kept.inputDrvs, kept.named⟩

theorem hash_calls_silent {drv : Derivation} (noInputs : drv.inputDrvs = empty)
    (store : StoreDirConfig) (sha : Sha256) (maskOutputs : Bool) :
    (hashCalls store sha drv maskOutputs).Asks fun _ => False := by
  apply hash_calls_ask
  intro path isInput
  rw [IsInput, noInputs] at isInput
  obtain ⟨_, member, _⟩ := isInput
  cases member

theorem resolve_calls_silent :
    (resolveCalls store sha features query rounds drv).Asks fun _ => False := by
  rw [resolveCalls]
  cases found : resolveInputs store sha features query drv.inputDrvs.entries
      ⟨drv.inputSrcs, empty⟩ with
  | error failure => exact trivial
  | ok resolved =>
    cases resolved with
    | none => exact trivial
    | some inputs =>
      change (rewriteDerivation store sha rounds inputs.inputRewrites
        (basicDerivation drv inputs) >>= _ : Hashing _).Asks _
      apply asks_bind
      · rw [rewriteDerivation]
        cases applied : applyRewrites rounds inputs.inputRewrites (basicDerivation drv inputs) with
        | error failure => exact trivial
        | ok hashed =>
          have noInputs := (hashed_as_applied ⟨inputs, found, applied⟩).2.2.1
          change (hashCalls store sha hashed true >>= _ : Hashing _).Asks _
          exact asks_bind (hash_calls_silent noInputs store sha true) fun _ =>
            asks_of_except _ _
      · exact fun _ => trivial

theorem resolve_calls_ok {answer : Answers}
    (ran : (resolveCalls store sha features query rounds drv).eval answer = .ok (some resolved)) :
    ∃ hashed hashes, HashedAs store sha features query rounds drv hashed ∧
      (hashCalls store sha hashed true).eval answer = .ok hashes ∧
      hashed.outputs.entries.foldlM (rewriteOutput store sha hashed.name hashes) hashed =
        .ok resolved := by
  rw [resolveCalls, eval_bind, eval_of_except] at ran
  obtain ⟨found, isFound, ran⟩ := except_bind_ok ran
  cases found with
  | none => cases ran
  | some inputs =>
    rw [eval_bind] at ran
    obtain ⟨_, ran, isResolved⟩ := except_bind_ok ran
    rw [Option.some.inj (Except.ok.inj isResolved), rewriteDerivation, eval_bind,
      eval_of_except] at ran
    obtain ⟨hashed, applied, ran⟩ := except_bind_ok ran
    rw [eval_bind] at ran
    obtain ⟨hashes, isHashes, ran⟩ := except_bind_ok ran
    rw [eval_of_except] at ran
    exact ⟨hashed, hashes, ⟨inputs, isFound, applied⟩, isHashes, ran⟩

variable {drvName : Bytes}

theorem rewrite_outputs_deferred {hashes : DrvHash} {entries : List (Bytes × DerivationOutput)}
    (deferred : ∀ entry ∈ entries, entry.2 = .deferred) (drv : Derivation) :
    entries.foldlM (rewriteOutput store sha drvName hashes) drv =
      (entries.map Prod.fst).foldlM (enterPath store sha (noOutputHash drvName) hashes) drv := by
  induction entries generalizing drv with
  | nil => rfl
  | cons entry rest ih =>
    rw [forall_mem_cons] at deferred
    rw [foldlM_cons, rewriteOutput, deferred.1]
    exact bind_congr fun after => ih deferred.2 after

theorem output_name_plain {hash : Hash} {path : StorePath}
    (made : makeOutputPath store sha name hash drvName = .ok path) : 47 ∉ name := by
  have good := check_name_ok (make_store_path_ok_iff.mp ⟨path, made⟩)
  intro slash
  rw [outputPathName] at good
  split at good
  next isOut =>
    rw [isOut] at slash
    revert slash
    decide
  · have wrong := good.characters 47 (mem_append_right _ slash)
    revert wrong
    decide

/-- A resolved derivation whose outputs all had a variable before passes the check: the paths
entered are those that belong to its masked text. Where no two of the hashed texts collide,
no other resolved derivation passes it, since a variable that comes with the path stays in
the masked text. -/
theorem resolved_passes_iff (deferred : ∀ entry ∈ drv.outputs.entries, entry.2 = .deferred)
    {readFile : ReadFile} {depth : Nat} {drvHashes : DrvHashes}
    (ran : (tryResolve store sha features query rounds drv readFile depth drvHashes).1 =
      .ok (some resolved))
    {drvPath : StorePath} (named : nameFromPath drvPath = .ok resolved.name)
    (laterFile : ReadFile) (laterDepth : Nat) (laterHashes : DrvHashes) :
    ((∀ entry ∈ drv.outputs.entries, (drv.env.get entry.1).isSome = true) →
      (checkInvariants store sha resolved drvPath laterFile laterDepth laterHashes).1 = .ok ()) ∧
    ((∀ hashed, HashedAs store sha features query rounds drv hashed →
        NoCollisions sha (HashedTexts store sha hashed resolved SortedMap.empty)) →
      (checkInvariants store sha resolved drvPath laterFile laterDepth laterHashes).1 = .ok () →
      ∀ entry ∈ drv.outputs.entries, (drv.env.get entry.1).isSome = true) := by
  let answer : Answers := fun _ => .error .outOfDepth
  rw [tryResolve, Calls.eval_memo_silent resolve_calls_silent answer] at ran
  obtain ⟨hashed, hashes, isHashed, isHashes, entering⟩ := resolve_calls_ok ran
  obtain ⟨sameName, sameOutputs, noInputs, sameVariables⟩ := hashed_as_applied isHashed
  have allDeferred : ∀ entry ∈ hashed.outputs.entries, entry.2 = .deferred := by
    rw [sameOutputs]
    exact deferred
  have blank : Blank hashed := by
    intro entry member
    rw [allDeferred entry member]
    rfl
  rw [rewrite_outputs_deferred allDeferred] at entering
  have entered : Entered store sha hashes hashed resolved :=
    (enter_paths_entered (fun _ member => member) entering).entered fun _ => Iff.rfl
  have nonempty : hashed.outputs.entries ≠ [] := by
    intro empty
    rw [hashCalls, Calls.eval_bind, Calls.eval_of_except] at isHashes
    obtain ⟨type, isType, _⟩ := except_bind_ok isHashes
    exact type_outputs_ne isType empty
  have isType := type_same nonempty allDeferred rfl
  have afterType := type_input_addressed (entered.nonempty nonempty) entered.all_input_addressed
  have noInputsAfter : resolved.inputDrvs = SortedMap.empty := by
    rw [← entered.shape.inputDrvs]
    exact noInputs
  have condition : (∀ name ∈ outputNames hashed, (hashed.env.get name).isSome = true) ↔
      ∀ entry ∈ drv.outputs.entries, (drv.env.get entry.1).isSome = true := by
    rw [← sameOutputs, outputNames, List.forall_mem_map]
    apply forall₂_congr
    intro entry member
    obtain ⟨_, _, _, made, _⟩ := entered.output entry.1 (List.mem_map.mpr ⟨entry, member, rfl⟩)
    exact sameVariables entry.1 (output_name_plain made)
  have checks :
      (checkInvariants store sha resolved drvPath laterFile laterDepth laterHashes).1 = .ok () ↔
        ∀ entry ∈ resolved.outputs.entries, OutputRight store sha resolved answer entry := by
    rw [checkInvariants, Calls.eval_memo_silent
      (check_calls_asks (hash_calls_silent noInputsAfter store sha true)) answer, check_calls_iff,
      and_iff_right named, and_iff_right ⟨_, afterType⟩]
  rw [checks, ← condition]
  constructor
  · intro present
    exact entered.outputs_right blank isType nonempty isHashes present
  · intro noCollisions right
    obtain ⟨entry, member⟩ := List.exists_mem_of_ne_nil _ (entered.nonempty nonempty)
    have gathers : (gatherInputs hashed.name hashed.inputDrvs.entries
        ⟨.regular, SortedMap.empty⟩).eval answer = .ok ⟨.regular, SortedMap.empty⟩ := by
      rw [noInputs]
      rfl
    exact entered.variables_of_right blank isType gathers isHashes (noCollisions hashed isHashed)
      member (right entry member)

end

def deferredDrv (env : List (Bytes × Bytes)) : Derivation where
  name := ascii "hello"
  outputs := SortedMap.emplaceAll [(ascii "out", .deferred)]
  inputSrcs := ∅
  platform := ascii "x86_64-linux"
  builder := ascii "/bin/sh"
  args := []
  env := SortedMap.emplaceAll env
  inputDrvs := SortedMap.empty

def helloDrvPath : StorePath :=
  ⟨ascii "00000000000000000000000000000000-hello.drv", by decide +kernel⟩

def noFile : ReadFile := fun _ => .error .assertion

def checkHello (drv : Derivation) : Except Failure Unit :=
  (checkInvariants usualStore sumSha drv helloDrvPath noFile 0 SortedMap.empty).1

def curlDrvPath : StorePath :=
  ⟨ascii "11111111111111111111111111111111-curl.drv", by decide +kernel⟩

def curlPath : StorePath := ⟨ascii "22222222222222222222222222222222-curl", by decide +kernel⟩

def curlPlaceholder : Bytes :=
  match unknownCaOutput ⟨true, true⟩ sumSha curlDrvPath (ascii "out") with
  | .ok placeholder => placeholder.render
  | .error _ => []

def curlUser : Derivation :=
  { deferredDrv [(ascii "curl", curlPlaceholder), (ascii "out", [])] with
    inputDrvs := SortedMap.emplaceAll [(curlDrvPath, leafNode {ascii "out"})] }

def curlBuilt : Query := fun _ _ => .ok (some curlPath)

def curlText : Bytes :=
  maskedText usualStore
    { deferredDrv [(ascii "curl", printStorePath usualStore curlPath), (ascii "out", [])] with
      inputSrcs := {curlPath} }
    SortedMap.empty

def resolveCurlUser : Except Failure (Option Derivation) :=
  (tryResolve usualStore sumSha ⟨true, true⟩ curlBuilt 2 curlUser noFile 0 SortedMap.empty).1

theorem exists_resolved (result : Except Failure (Option Derivation)) (test : Derivation → Bool)
    (passed : (match result with | .ok (some resolved) => test resolved | _ => false) = true) :
    ∃ resolved, result = .ok (some resolved) ∧ test resolved = true := by
  match result with
  | .ok (some resolved) => exact ⟨resolved, rfl, passed⟩
  | .ok none => cases passed
  | .error failure => cases passed

theorem curl_user_text {hashed : Derivation}
    (isHashed : HashedAs usualStore sumSha ⟨true, true⟩ curlBuilt 2 curlUser hashed) :
    maskedText usualStore hashed SortedMap.empty = curlText := by
  obtain ⟨inputs, found, applied⟩ := isHashed
  have result : ((resolveInputs usualStore sumSha ⟨true, true⟩ curlBuilt
      curlUser.inputDrvs.entries ⟨curlUser.inputSrcs, SortedMap.empty⟩).toOption.join.all
      fun inputs => (applyRewrites 2 inputs.inputRewrites
        (basicDerivation curlUser inputs)).toOption.all fun hashed =>
          decide (maskedText usualStore hashed SortedMap.empty = curlText)) = true := by
    decide +kernel
  simp only [found, Except.toOption, Option.join_some, Option.all_some, applied] at result
  exact of_decide_eq_true result

theorem resolved_passes_iff_curl :
    ∃ resolved, resolveCurlUser = .ok (some resolved) ∧ checkHello resolved = .ok () ∧
      (∀ hashed, HashedAs usualStore sumSha ⟨true, true⟩ curlBuilt 2 curlUser hashed →
        NoCollisions sumSha (HashedTexts usualStore sumSha hashed resolved SortedMap.empty)) ∧
      ∀ entry ∈ curlUser.outputs.entries, (curlUser.env.get entry.1).isSome = true := by
  let path := outputFingerprint usualStore curlUser.name (ascii "out")
    (hashString sumSha curlText)
  obtain ⟨resolved, ran, passed⟩ := exists_resolved resolveCurlUser
    (fun resolved => decide (resolved.name = ascii "hello" ∧
      maskedText usualStore resolved SortedMap.empty = curlText)) (by decide +kernel)
  obtain ⟨isName, sameText⟩ := of_decide_eq_true passed
  have noCollisions : ∀ hashed,
      HashedAs usualStore sumSha ⟨true, true⟩ curlBuilt 2 curlUser hashed →
      NoCollisions sumSha (HashedTexts usualStore sumSha hashed resolved SortedMap.empty) := by
    intro hashed isHashed
    obtain ⟨sameName, sameOutputs, _, _⟩ := hashed_as_applied isHashed
    have both : HashedTexts usualStore sumSha hashed resolved SortedMap.empty ⊆
        {curlText, path} := by
      rw [HashedTexts, curl_user_text isHashed, sameText, outputNames, sameName, sameOutputs]
      rintro one (isMasked | ⟨name, named, source, isMasked, rfl⟩)
      · exact .inl (isMasked.elim id id)
      have isSource : source = curlText := isMasked.elim id id
      have isName : name = ascii "out" := List.mem_singleton.mp named
      rw [isSource, isName]
      exact .inr rfl
    constructor
    · exact (Set.injOn_pair.mpr fun same => absurd same (by decide +kernel)).mono both
    · exact (Set.injOn_pair.mpr fun same => absurd same (by decide +kernel)).mono both
  have named : nameFromPath helloDrvPath = .ok resolved.name := by
    rw [isName]
    decide +kernel
  have passes := resolved_passes_iff (by decide +kernel) ran named noFile 0 SortedMap.empty
  have checked : checkHello resolved = .ok () := passes.1 (by decide +kernel)
  exact ⟨resolved, ran, checked, noCollisions, passes.2 noCollisions checked⟩

def noQuery : Query := fun _ _ => .ok none

def resolveUnnamed : Except Failure (Option Derivation) :=
  (tryResolve usualStore sumSha ⟨true, true⟩ noQuery 0 (deferredDrv []) noFile 0 SortedMap.empty).1

/-- A derivation without a variable for its output passes the check. Resolved, it has the
path that belongs to an environment without the variable. -/
theorem unnamed_output_fails : checkHello (deferredDrv []) = .ok () ∧
      ∃ resolved, resolveUnnamed = .ok (some resolved) ∧
        nameFromPath helloDrvPath = .ok resolved.name ∧ checkHello resolved ≠ .ok () := by
  refine ⟨by decide +kernel, ?_⟩
  obtain ⟨resolved, ran, passed⟩ := exists_resolved (resolveUnnamed)
    (fun resolved => decide (nameFromPath helloDrvPath = .ok resolved.name ∧
      checkHello resolved ≠ .ok ())) (by decide +kernel)
  exact ⟨resolved, ran, of_decide_eq_true passed⟩

end Bsd.Store.Resolution
