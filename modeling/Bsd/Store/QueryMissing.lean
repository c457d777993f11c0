import Mathlib.Algebra.BigOperators.Group.Finset.Basic
import Bsd.Store.DerivedPaths
import Bsd.Store.Realisations
import Bsd.Util.CalmPools

/-!
# Querying missing paths

`queryMissing` finds out which derivations must be built and which paths can be
substituted to get a list of targets. Each request is a work item on a thread pool, which
enqueues further requests. The outputs of one derivation are looked up by items of their
own, which count down until all of them are known to be substitutable or give up together.
-/

namespace Bsd.Store.QueryMissing

open Lib.Occurrences Lib.OrdMap Util.Hashes Util.ThreadPool Store.Path Store.ContentAddresses
open Store.Derivations Store.DerivedPaths Store.Realisations

structure SubstitutablePathInfo where
  references : Finset StorePath
  downloadSize : BitVec 64
  narSize : BitVec 64

/-- The queries that the items make, with the settings they read. A substituter is the
output path that its `queryRealisation` gives. -/
structure Queries where
  config : StoreDirConfig
  isValidPath : StorePath → Bool
  queryPartialDerivationOutputMap : StorePath → SortedMap Bytes (Option StorePath)
  derivationFromPath : StorePath → Derivation
  staticOutputHashes : Derivation → SortedMap Bytes Hash
  defaultSubstituters : List (DrvOutput → Option StorePath)
  querySubstitutablePathInfo : StorePath → Option ContentAddress → Option SubstitutablePathInfo
  substitutesAllowed : Derivation → Except Bytes Bool
  useSubstitutes : Bool
  caDerivations : Bool

inductive QueryError where
  | parsingDerivation (drvPath : StorePath) (message : Bytes)
  | missingExperimentalFeature
  | threadPoolShutDown
  deriving DecidableEq

inductive Plan where
  | nothing
  | unknown (path : StorePath)
  | substitute (path : StorePath) (info : SubstitutablePathInfo)
  | build (drvPath : StorePath)
  | check (drvPath : StorePath) (invalid : Finset StorePath)

def getDerivationCA (drv : Derivation) : Option ContentAddress :=
  match drv.outputs.get (ascii "out") with
  | some (.caFixed ca) => some ca
  | _ => none

section Plans

variable (queries : Queries)

def scanOutputs (outputs : OutputsSpec) : List (Bytes × Option StorePath) → Bool × Finset StorePath
  | [] => (true, ∅)
  | (_, none) :: _ => (false, ∅)
  | (outputName, some path) :: rest =>
    let (knownOutputPaths, invalid) := scanOutputs outputs rest
    (knownOutputPaths,
      if outputs.contains outputName && !queries.isValidPath path then insert path invalid
      else invalid)

def scanRealisations (outputs : OutputsSpec) : List (Bytes × Hash) → Bool × Finset StorePath
  | [] => (true, ∅)
  | (outputName, hash) :: rest =>
    if outputs.contains outputName then
      match queries.defaultSubstituters.findSome? fun sub => sub ⟨hash, outputName⟩ with
      | none => (false, ∅)
      | some outPath =>
        let (knownOutputPaths, invalid) := scanRealisations outputs rest
        (knownOutputPaths, if queries.isValidPath outPath then invalid else insert outPath invalid)
    else scanRealisations outputs rest

def planBuilt (drvPath : StorePath) (outputs : OutputsSpec) : Except QueryError Plan :=
  let (known, invalid) := scanOutputs queries outputs
    (queries.queryPartialDerivationOutputMap drvPath).entries
  if known && decide (invalid = ∅) then .ok .nothing
  else
    let drv := queries.derivationFromPath drvPath
    match queries.substitutesAllowed drv with
    | .error message => .error (.parsingDerivation drvPath message)
    | .ok allowed =>
      if known then
        .ok (if queries.useSubstitutes && allowed then .check drvPath invalid else .build drvPath)
      else if queries.useSubstitutes && allowed then
        if queries.caDerivations then
          let (found, more) := scanRealisations queries outputs
            (queries.staticOutputHashes drv).entries
          .ok (if found then .check drvPath (invalid ∪ more) else .build drvPath)
        else .error .missingExperimentalFeature
      else .ok (.build drvPath)

def plan : DerivedPath → Except QueryError Plan
  | .built (.built _ _) _ => .ok .nothing
  | .built (.opaquePath drvPath) outputs =>
    if queries.isValidPath drvPath then planBuilt queries drvPath outputs
    else .ok (.unknown drvPath)
  | .opaquePath path =>
    if queries.isValidPath path then .ok .nothing
    else
      match queries.querySubstitutablePathInfo path none with
      | none => .ok (.unknown path)
      | some info => .ok (.substitute path info)

def outputInfo (drvPath outPath : StorePath) : Option SubstitutablePathInfo :=
  queries.querySubstitutablePathInfo outPath (getDerivationCA (queries.derivationFromPath drvPath))

end Plans

inductive Job where
  | doPath (req : DerivedPath)
  | checkOutput (drvPath outPath : StorePath) (drvState : Nat)
  deriving DecidableEq

/-- `DrvState` with its mutex. The last two fields are for reasoning only: the derivation
and the outputs that it was made for. -/
structure DrvState where
  left : Nat
  done : Bool
  outPaths : Finset StorePath
  locked : Bool
  drvPath : StorePath
  outputs : Finset StorePath

/-- `State`, where the sets hold what was inserted into the sets of the caller. The states
of derivations are numbered as they are made. -/
structure State where
  done : Finset Bytes
  unknown : Finset StorePath
  willSubstitute : Finset StorePath
  willBuild : Finset StorePath
  downloadSize : BitVec 64
  narSize : BitVec 64
  created : Nat
  drvStates : Nat → DrvState

/-- The places of an item. In `enqueue` the mutex of a derivation may be held. -/
inductive ItemPlace where
  | doPath (req : DerivedPath)
  | insertUnknown (path : StorePath)
  | insertSubstitute (path : StorePath) (info : SubstitutablePathInfo)
  | mustBuildDrv (drvPath : StorePath)
  | makeDrvState (drvPath : StorePath) (invalid : Finset StorePath)
  | checkOutput (drvPath outPath : StorePath) (drvState : Nat)
  | query (drvPath outPath : StorePath) (drvState : Nat)
  | giveUp (drvPath : StorePath) (drvState : Nat)
  | countDown (drvPath outPath : StorePath) (drvState : Nat)
  | enqueue (jobs : List Job) (held : Option Nat)
  | unwind (held : Option Nat)
  | failing (error : QueryError)
  | done

abbrev QueryAction := Action Job ItemPlace State QueryError

namespace State

variable (state : State)

def insertDone (text : Bytes) : State := { state with done := insert text state.done }

def insertUnknown (path : StorePath) : State :=
  { state with unknown := insert path state.unknown }

def insertSubstitute (path : StorePath) (info : SubstitutablePathInfo) : State :=
  { state with
    willSubstitute := insert path state.willSubstitute
    downloadSize := state.downloadSize + info.downloadSize
    narSize := state.narSize + info.narSize }

def insertBuild (drvPath : StorePath) : State :=
  { state with willBuild := insert drvPath state.willBuild }

def setDrv (index : Nat) (drvState : DrvState) : State :=
  { state with drvStates := Function.update state.drvStates index drvState }

def makeDrvState (drvPath : StorePath) (invalid : Finset StorePath) : State :=
  { state.setDrv state.created ⟨invalid.card, false, ∅, false, drvPath, invalid⟩ with
    created := state.created + 1 }

def giveUp (index : Nat) : State :=
  state.setDrv index { state.drvStates index with done := true }

def countDown (index : Nat) (outPath : StorePath) : State :=
  state.setDrv index { state.drvStates index with
    left := (state.drvStates index).left - 1
    outPaths := insert outPath (state.drvStates index).outPaths }

def setLocked (index : Nat) (locked : Bool) : State :=
  state.setDrv index { state.drvStates index with locked }

end State

def Plan.place : Plan → ItemPlace
  | .nothing => .done
  | .unknown path => .insertUnknown path
  | .substitute path info => .insertSubstitute path info
  | .build drvPath => .mustBuildDrv drvPath
  | .check drvPath invalid => .makeDrvState drvPath invalid

def follow (queries : Queries) (req : DerivedPath) : ItemPlace :=
  match plan queries req with
  | .error error => .failing error
  | .ok planned => planned.place

def opaqueJobs (paths : Finset StorePath) : List Job :=
  paths.sort.map fun path => .doPath (.opaquePath path)

def inputJobs (queries : Queries) (drvPath : StorePath) : List Job :=
  (inputPaths (queries.derivationFromPath drvPath)).map .doPath

def outputJobs (drvPath : StorePath) (invalid : Finset StorePath) (index : Nat) : List Job :=
  invalid.sort.map fun output => .checkOutput drvPath output index

def countActions (outPath : StorePath) (index : Nat) (state : State) : List QueryAction :=
  if (state.drvStates index).done then [.proceed state .done]
  else if (state.drvStates index).left = 0 then [.abort]
  else
    let counted := state.countDown index outPath
    if (counted.drvStates index).left = 0 then
      [.proceed (counted.setLocked index true)
        (.enqueue (opaqueJobs (counted.drvStates index).outPaths) (some index))]
    else [.proceed counted .done]

def actions (queries : Queries) : ItemPlace → State → List QueryAction
  | .doPath req, state =>
    if req.toString queries.config ∈ state.done then [.proceed state .done]
    else [.proceed (state.insertDone (req.toString queries.config)) (follow queries req)]
  | .insertUnknown path, state => [.proceed (state.insertUnknown path) .done]
  | .insertSubstitute path info, state =>
    [.proceed (state.insertSubstitute path info) (.enqueue (opaqueJobs info.references) none)]
  | .mustBuildDrv drvPath, state =>
    [.proceed (state.insertBuild drvPath) (.enqueue (inputJobs queries drvPath) none)]
  | .makeDrvState drvPath invalid, state =>
    [.proceed (state.makeDrvState drvPath invalid)
      (.enqueue (outputJobs drvPath invalid state.created) none)]
  | .checkOutput drvPath outPath index, state =>
    if (state.drvStates index).locked then []
    else [.proceed state
      (if (state.drvStates index).done then .done else .query drvPath outPath index)]
  | .query drvPath outPath index, state =>
    [.proceed state (match outputInfo queries drvPath outPath with
      | none => .giveUp drvPath index
      | some _ => .countDown drvPath outPath index)]
  | .giveUp drvPath index, state =>
    if (state.drvStates index).locked then []
    else [.proceed (state.giveUp index) (.mustBuildDrv drvPath)]
  | .countDown _ outPath index, state =>
    if (state.drvStates index).locked then [] else countActions outPath index state
  | .enqueue [] none, _ => [.finish]
  | .enqueue [] (some index), state => [.proceed (state.setLocked index false) .done]
  | .enqueue (job :: jobs) held, _ => [.enqueue job (.enqueue jobs held) (.unwind held)]
  | .unwind none, state => [.proceed state (.failing .threadPoolShutDown)]
  | .unwind (some index), state =>
    [.proceed (state.setLocked index false) (.failing .threadPoolShutDown)]
  | .failing error, _ => [.throw error]
  | .done, _ => [.finish]

def startItem : Job → ItemPlace
  | .doPath req => .doPath req
  | .checkOutput drvPath outPath index => .checkOutput drvPath outPath index

def queryCode (queries : Queries) : Code Job ItemPlace State QueryError where
  start := startItem
  actions := actions queries

def startState : State where
  done := ∅
  unknown := ∅
  willSubstitute := ∅
  willBuild := ∅
  downloadSize := 0
  narSize := 0
  created := 0
  drvStates := fun _ => ⟨0, false, ∅, false, ⟨List.replicate 32 48 ++ ascii "-x", by decide⟩, ∅⟩

/-- The exception of a refused `enqueue` leaves `queryMissing`. -/
def submitTargets (targets : List DerivedPath) : Caller Job :=
  .submitAll .abandon (targets.map .doPath)

structure Missing where
  willBuild : Finset StorePath
  willSubstitute : Finset StorePath
  unknown : Finset StorePath
  downloadSize : BitVec 64
  narSize : BitVec 64

def Missing.after (given : Missing) (state : State) : Missing where
  willBuild := given.willBuild ∪ state.willBuild
  willSubstitute := given.willSubstitute ∪ state.willSubstitute
  unknown := given.unknown ∪ state.unknown
  downloadSize := state.downloadSize
  narSize := state.narSize

end Bsd.Store.QueryMissing
