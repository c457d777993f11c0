import Bsd.Store.MissingRuns

/-!
# Restricted stores

A builder that calls back into the store may only ask for the inputs of its build and for
what it added itself. `RestrictedStore` answers its requests with the help of a local store.
-/

namespace Bsd.Store.RestrictedStore

open Lib.Occurrences Lib.OrdMap Util.FilePath Util.ThreadPool Store.Path Store.DerivedPaths
open Store.Realisations Store.QueryMissing Store.PathInfoCache

inductive Invocation (Value : Type) where
  | value (value : Option Value)
  | exception (failure : Failure)
  | assertionFailed
  deriving DecidableEq

/-- `Callback`, which passes its flag on when it is moved. -/
structure Callback where
  done : Bool

def Callback.fresh : Callback := ⟨false⟩

/-- The function is only called if the flag was not set before. -/
def Callback.invoke {Value : Type} (callback : Callback) (invocation : Invocation Value) :
    List (Invocation Value) × Callback :=
  (if callback.done then [.assertionFailed] else [invocation], ⟨true⟩)

inductive BuildMode where
  | normal
  | repair
  | check
  deriving DecidableEq

structure KeyedBuildResult where
  path : DerivedPath
  status : Nat
  errorMsg : Bytes
  builtOutputs : SortedMap Bytes Realisation

/-- What a restricted store asks of the local store below it. -/
structure NextStore where
  queries : Queries
  queryPathInfo : StorePath → Except Failure ValidPathInfo
  queryRealisation : DrvOutput → Except Failure (Option Realisation)
  dumpPath : ReadFile
  buildPathsWithResults : List DerivedPath → Except Failure (List KeyedBuildResult)
  computeFSClosure : Finset StorePath → Except Failure (Finset StorePath)
  realisationClosure : List Realisation → Except Failure (Finset DrvOutput)
  isValid : ∀ path, queries.isValidPath path = (queryPathInfo path).isOk

def NextStore.answerRealisation (next : NextStore) (id : DrvOutput) (callback : Callback) :
    List (Invocation Realisation) :=
  match next.queryRealisation id with
  | .ok realisation => (callback.invoke (.value realisation)).1
  | .error failure => (callback.invoke (.exception failure)).1

structure RestrictionContext where
  inputPaths : Finset StorePath
  addedPaths : Finset StorePath
  addedDrvOutputs : Finset DrvOutput

def pathPartOfSingle : SingleDerivedPath → StorePath
  | .opaquePath path => path
  | .built drvPath _ => pathPartOfSingle drvPath

def pathPartOfReq : DerivedPath → StorePath
  | .opaquePath path => path
  | .built drvPath _ => pathPartOfSingle drvPath

namespace RestrictionContext

variable (context : RestrictionContext)

def isAllowed (path : StorePath) : Bool :=
  decide (path ∈ context.inputPaths) || decide (path ∈ context.addedPaths)

def isAllowedOutput (id : DrvOutput) : Bool := decide (id ∈ context.addedDrvOutputs)

def isAllowedReq (req : DerivedPath) : Bool := context.isAllowed (pathPartOfReq req)

def addDependency (path : StorePath) : RestrictionContext :=
  if context.isAllowed path then context
  else { context with addedPaths := insert path context.addedPaths }

end RestrictionContext

inductive Request where
  | queryPathInfo (path : StorePath)
  | queryRealisation (id : DrvOutput)
  | ensurePath (path : StorePath)
  | narFromPath (path : StorePath)
  | buildPathsWithResults (paths : List DerivedPath) (buildMode : BuildMode) (evalStore : Bool)
  | queryMissing (targets : List DerivedPath) (given : Missing)

inductive Outcome where
  | pathInfo (invocations : List (Invocation ValidPathInfo))
  | realisation (invocations : List (Invocation Realisation))
  | done
  | nar (contents : Bytes)
  | built (results : List KeyedBuildResult)
  | missing (missing : Missing)
  | threw (failure : Failure)
  | queryFailed (error : QueryError)
  | aborted

structure Answer where
  outcome : Outcome
  context : RestrictionContext

section Answers

variable (context : RestrictionContext) (next : NextStore)

def censor (info : ValidPathInfo) : ValidPathInfo :=
  { info with
    deriver := none
    registrationTime := 0
    ultimate := false
    sigs := ∅ }

/-- The function is `noexcept`, so an exception that it does not catch ends the process. -/
def queryPathInfoUncached (path : StorePath) : Option (List (Invocation ValidPathInfo)) :=
  if context.isAllowed path then
    match next.queryPathInfo path with
    | .ok info => some (Callback.fresh.invoke (.value (some (censor info)))).1
    | .error (.invalidPath _) => some (Callback.fresh.invoke (.value none)).1
    | .error _ => none
  else some (Callback.fresh.invoke (.value none)).1

/-- The callback is passed on even if it was invoked. -/
def queryRealisationUncached (id : DrvOutput) : List (Invocation Realisation) :=
  if context.isAllowedOutput id then next.answerRealisation id .fresh
  else
    let (first, callback) := Callback.fresh.invoke (.value none)
    first ++ next.answerRealisation id callback

def ensurePath (path : StorePath) : Outcome :=
  if context.isAllowed path then .done
  else .threw (.invalidPath (ascii "cannot substitute unknown path " ++
    quoted (printStorePath next.queries.config path) ++ ascii " in recursive Bsd"))

def narFromPath (path : StorePath) : Outcome :=
  if context.isAllowed path then
    match queryPathInfoUncached context next path with
    | none => .aborted
    | some [.value (some _)] =>
      match next.dumpPath path with
      | .ok contents => .nar contents
      | .error failure => .threw failure
    | some _ => .threw (.error (ascii "path " ++ quoted (printStorePath next.queries.config path) ++
        ascii " is not valid"))
  else .threw (.invalidPath (ascii "cannot dump unknown path " ++
    quoted (printStorePath next.queries.config path) ++ ascii " in recursive Bsd"))

def addOutputs (results : List KeyedBuildResult) : Answer :=
  let newRealisations := results.flatMap fun result => result.builtOutputs.entries.map Prod.snd
  match next.computeFSClosure (newRealisations.map Realisation.outPath).toFinset with
  | .error failure => ⟨.threw failure, context⟩
  | .ok closure =>
    let context := closure.sort.foldl RestrictionContext.addDependency context
    match next.realisationClosure newRealisations with
    | .error failure => ⟨.threw failure, context⟩
    | .ok ids => ⟨.built results, { context with addedDrvOutputs := context.addedDrvOutputs ∪ ids }⟩

def buildPathsWithResults (paths : List DerivedPath) (buildMode : BuildMode) (evalStore : Bool) :
    Answer :=
  if evalStore then ⟨.aborted, context⟩
  else if buildMode ≠ .normal then ⟨.threw (.error (ascii "unsupported build mode")), context⟩
  else
    match paths.find? fun req => !context.isAllowedReq req with
    | some req => ⟨.threw (.invalidPath (ascii "cannot build " ++
        quoted (req.toString next.queries.config) ++
        ascii " in recursive Bsd because path is unknown")), context⟩
    | none =>
      match next.buildPathsWithResults paths with
      | .error failure => ⟨.threw failure, context⟩
      | .ok results => addOutputs context next results

def allowedTargets (targets : List DerivedPath) : List DerivedPath :=
  targets.filter context.isAllowedReq

def insertUnknown (targets : List DerivedPath) (given : Missing) : Missing :=
  { given with unknown := given.unknown ∪
      ((targets.filter fun req => !context.isAllowedReq req).map pathPartOfReq).toFinset }

inductive MissingEnds (targets : List DerivedPath) (given : Missing) : Outcome → Prop where
  | returned {maxThreads : Nat} {config : QueryConfig}
      (reached : Reached (queryCode next.queries) maxThreads (submitTargets targets) startState config)
      (returned : config.phase = .returned) :
      MissingEnds targets given (.missing (given.after config.shared.state))
  | threw {maxThreads : Nat} {config : QueryConfig} {error : QueryError}
      (reached : Reached (queryCode next.queries) maxThreads (submitTargets targets) startState config)
      (threw : config.phase = .threw error) : MissingEnds targets given (.queryFailed error)
  | refused {maxThreads : Nat} {config : QueryConfig}
      (reached : Reached (queryCode next.queries) maxThreads (submitTargets targets) startState config)
      (refused : config.phase = .abandoned) :
      MissingEnds targets given (.queryFailed .threadPoolShutDown)
  | aborted {maxThreads : Nat} {config : QueryConfig}
      (reached : Reached (queryCode next.queries) maxThreads (submitTargets targets) startState config)
      (aborted : config.phase = .aborted) : MissingEnds targets given .aborted

inductive Observes : Request → Answer → Prop where
  | queryPathInfo (path : StorePath) : Observes (.queryPathInfo path)
      ⟨(queryPathInfoUncached context next path).elim .aborted .pathInfo, context⟩
  | queryRealisation (id : DrvOutput) : Observes (.queryRealisation id)
      ⟨.realisation (queryRealisationUncached context next id), context⟩
  | ensurePath (path : StorePath) : Observes (.ensurePath path)
      ⟨RestrictedStore.ensurePath context next path, context⟩
  | narFromPath (path : StorePath) : Observes (.narFromPath path)
      ⟨RestrictedStore.narFromPath context next path, context⟩
  | buildPathsWithResults (paths : List DerivedPath) (buildMode : BuildMode) (evalStore : Bool) :
      Observes (.buildPathsWithResults paths buildMode evalStore)
        (RestrictedStore.buildPathsWithResults context next paths buildMode evalStore)
  | queryMissing (targets : List DerivedPath) (given : Missing) {outcome : Outcome}
      (ends : MissingEnds next (allowedTargets context targets) (insertUnknown context targets given)
        outcome) : Observes (.queryMissing targets given) ⟨outcome, context⟩

end Answers

section

variable (context : RestrictionContext)

/-- Two stores are alike as far as allowed paths and outputs are concerned. -/
structure Agree (left right : NextStore) : Prop where
  config : left.queries.config = right.queries.config
  useSubstitutes : left.queries.useSubstitutes = right.queries.useSubstitutes
  caDerivations : left.queries.caDerivations = right.queries.caDerivations
  substitutesAllowed : left.queries.substitutesAllowed = right.queries.substitutesAllowed
  pathInfos : ∀ path, context.isAllowed path = true →
    left.queryPathInfo path = right.queryPathInfo path
  dumps : ∀ path, context.isAllowed path = true → left.dumpPath path = right.dumpPath path
  outputMaps : ∀ path, context.isAllowed path = true →
    left.queries.queryPartialDerivationOutputMap path =
      right.queries.queryPartialDerivationOutputMap path
  derivations : ∀ path, context.isAllowed path = true →
    left.queries.derivationFromPath path = right.queries.derivationFromPath path
  substitutes : ∀ path ca, context.isAllowed path = true →
    left.queries.querySubstitutablePathInfo path ca = right.queries.querySubstitutablePathInfo path ca
  realisations : ∀ id, context.isAllowedOutput id = true →
    left.queryRealisation id = right.queryRealisation id
  substituters : ∀ id, context.isAllowedOutput id = true →
    (left.queries.defaultSubstituters.map fun substituter => substituter id) =
      right.queries.defaultSubstituters.map fun substituter => substituter id

def NamesForbidden : Request → Prop
  | .queryPathInfo path => context.isAllowed path = false
  | .queryRealisation id => context.isAllowedOutput id = false
  | .ensurePath path => context.isAllowed path = false
  | .narFromPath path => context.isAllowed path = false
  | .buildPathsWithResults paths _ _ => ∃ req ∈ paths, context.isAllowedReq req = false
  | .queryMissing targets _ => ∃ req ∈ targets, context.isAllowedReq req = false

def InvokedOnce : Outcome → Prop
  | .pathInfo invocations => invocations.length = 1
  | .realisation invocations => invocations.length = 1
  | _ => True

/-- The answers to a request do not depend on what is not allowed. -/
def Undisclosed (request : Request) : Prop :=
  ∀ left right, Agree context left right →
    (∀ answer, Observes context left request answer ↔ Observes context right request answer) ∧
    ∀ answer, Observes context left request answer → InvokedOnce answer.outcome

/-- An output of a derivation that is itself the output of a derivation. -/
def IsDynamic (req : DerivedPath) : Prop :=
  ∃ drvPath output outputs, req = .built (.built drvPath output) outputs

/-- The request is not for a realisation, nor does it ask which paths are missing for
something that is allowed. -/
def Discreet : Request → Prop
  | .queryRealisation _ => False
  | .queryMissing targets _ => ∀ req ∈ targets, context.isAllowedReq req = true → IsDynamic req
  | _ => True

end

end Bsd.Store.RestrictedStore
