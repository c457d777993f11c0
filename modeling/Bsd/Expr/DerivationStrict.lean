import Bsd.Expr.StringContext
import Bsd.Lib.StateRuns
import Bsd.Store.Resolution

/-!
# Derivations made by the evaluator

`derivationStrict` turns a set of attributes into a derivation, computes the paths of its
outputs and writes it to the store. Evaluating an attribute can do anything the language
can do: it may build other derivations, and so add to the store and to the table of hashes.
-/

namespace Bsd.Expr.DerivationStrict

open Lib.Occurrences Lib.OrdMap Lib.StateRuns Util.FilePath Util.Hashes Store.Path SortedMap
open Store.ContentAddresses Store.Derivations Store.DerivationRoundTrip Store.HashModulo
open Store.MaskedText Store.Resolution Store.DerivedPaths
open Expr.StringContext (ContextElem)

def comparePaths : SingleDerivedPath → SingleDerivedPath → Ordering
  | .opaquePath left, .opaquePath right => compare left right
  | .opaquePath _, .built _ _ => .lt
  | .built _ _, .opaquePath _ => .gt
  | .built left leftOutput, .built right rightOutput =>
    (comparePaths left right).then (compare leftOutput rightOutput)

def elemIndex : ContextElem → Nat
  | .opaquePath _ => 0
  | .drvDeep _ => 1
  | .built _ _ => 2

def compareElems : ContextElem → ContextElem → Ordering
  | .opaquePath left, .opaquePath right => compare left right
  | .drvDeep left, .drvDeep right => compare left right
  | .built left leftOutput, .built right rightOutput =>
    (comparePaths left right).then (compare leftOutput rightOutput)
  | left, right => compare (elemIndex left) (elemIndex right)

/-- `BsdStringContext`, a set, as the list of its elements in their order. -/
abbrev Context := List ContextElem

def insertElem (elem : ContextElem) : Context → Context
  | [] => [elem]
  | first :: rest =>
    match compareElems elem first with
    | .lt => elem :: first :: rest
    | .eq => first :: rest
    | .gt => first :: insertElem elem rest

def addContext (context more : Context) :
    Context := more.foldl (fun all elem => insertElem elem all) context

/-- `memory` is what the evaluator keeps for itself. -/
structure World (Memory : Type) where
  memory : Memory
  readFile : ReadFile
  drvHashes : DrvHashes

abbrev Eval (Memory Value : Type) := Run (World Memory) Failure Value

/-- What the evaluator does with a value, and what the store knows about closures. A
function that collects a context returns the elements it adds. -/
structure Evaluator (Memory Value Json : Type) where
  forceBool : Value → Eval Memory Bool
  isNull : Value → Eval Memory Bool
  forceList : Value → Eval Memory (List Value)
  coerceToString : Value → Eval Memory (Bytes × Context)
  forceString : Value → Eval Memory (Bytes × Context)
  forceStringNoCtx : Value → Eval Memory Bytes
  printValueAsJSON : Value → Eval Memory (Json × Context)
  dump : SortedMap Bytes Json → Except Failure Bytes
  computeFSClosure : World Memory → StorePath → Except Failure (List StorePath)

structure OutputNames where
  names : Finset Bytes
  nonempty : names ≠ ∅

def onlyOut : OutputNames := ⟨{ascii "out"}, by decide⟩

structure Attributes (Json : Type) where
  builder : Bytes
  platform : Bytes
  args : List Bytes
  env : SortedMap Bytes Bytes
  context : Context
  contentAddressed : Bool
  isImpure : Bool
  outputHash : Option Bytes
  outputHashAlgo : Option HashAlgorithm
  ingestionMethod : Option ContentAddressMethod
  outputs : OutputNames
  jsonObject : Option (SortedMap Bytes Json)

def evalError (message : Bytes) : Failure := .error message

abbrev Enabled := Bytes → Bool

def parseIngestionMethod (text : Bytes) : Except Failure ContentAddressMethod :=
  if text = ascii "text" then .ok .text
  else if text = ascii "git" then .ok .git
  else if text = ascii "flat" then .ok .flat
  else if text = ascii "nar" then .ok .bsdArchive
  else .error (.usageError (ascii "Unknown file ingestion method " ++ quoted text ++
    ascii ", expect \x60flat\x60, \x60nar\x60, or \x60git\x60"))

section Handlers

variable {Json : Type} (enabled : Enabled)

def methodOf (s : Bytes) : Except Failure ContentAddressMethod :=
  -- back compat, new name is "nar"
  if s = ascii "recursive" then .ok .bsdArchive
  else
    match parseIngestionMethod s with
    | .ok method => .ok method
    | .error _ =>
      .error (evalError (ascii "invalid value " ++ quoted s ++ ascii " for 'outputHashMode' attribute"))

def requireFor : ContentAddressMethod → Except Failure Unit
  | .text => require (enabled (ascii "dynamic-derivations")) (ascii "dynamic-derivations")
  | .git => require (enabled (ascii "git-hashing")) (ascii "git-hashing")
  | _ => .ok ()

def handleHashMode (s : Bytes) : Except Failure ContentAddressMethod := do
  let method ← methodOf s
  requireFor enabled method
  pure method

def collectOutputs : List Bytes → Finset Bytes → Except Failure (Finset Bytes)
  | [], outputs => .ok outputs
  | name :: rest, outputs =>
    if name ∈ outputs then
      .error (evalError (ascii "duplicate derivation output " ++ quoted name))
    else if name = ascii "drvPath" then
      .error (evalError (ascii "invalid derivation output name 'drvPath'"))
    else collectOutputs rest (insert name outputs)

def handleOutputs (names : List Bytes) : Except Failure OutputNames := do
  let outputs ← collectOutputs names ∅
  if nonempty : outputs ≠ ∅ then pure ⟨outputs, nonempty⟩
  else throw (evalError (ascii "derivation cannot have an empty set of outputs"))

def setString (key s : Bytes) (state : Attributes Json) : Except Failure (Attributes Json) :=
  if key = ascii "builder" then .ok { state with builder := s }
  else if key = ascii "system" then .ok { state with platform := s }
  else if key = ascii "outputHash" then .ok { state with outputHash := some s }
  else if key = ascii "outputHashAlgo" then .ok { state with outputHashAlgo := parseHashAlgoOpt s }
  else if key = ascii "outputHashMode" then do
    let method ← handleHashMode enabled s
    pure { state with ingestionMethod := some method }
  else .ok state

end Handlers

section Attribute

variable {Memory Value Json : Type} (evaluator : Evaluator Memory Value Json) (enabled : Enabled)

def coerceElement (state : Attributes Json) (elem : Value) : Eval Memory (Attributes Json) := do
  let (s, context) ← evaluator.coerceToString elem
  pure { state with args := state.args ++ [s], context := addContext state.context context }

def forceNames (names : List Bytes) (elem : Value) : Eval Memory (List Bytes) := do
  let name ← evaluator.forceStringNoCtx elem
  pure (names ++ [name])

def plainKeys : List Bytes :=
  [ascii "system", ascii "outputHash", ascii "outputHashAlgo", ascii "outputHashMode"]

def structuredAttribute (key : Bytes) (value : Value) (jsonObject : SortedMap Bytes Json)
    (state : Attributes Json) : Eval Memory (Attributes Json) := do
  if key = ascii "__structuredAttrs" then pure state
  else do
    let (json, context) ← evaluator.printValueAsJSON value
    let state := { state with
      jsonObject := some (jsonObject.emplaceAt key json)
      context := addContext state.context context }
    if key = ascii "builder" then do
      let (s, context) ← evaluator.forceString value
      pure { state with builder := s, context := addContext state.context context }
    else if key ∈ plainKeys then do
      let s ← evaluator.forceStringNoCtx value
      StateT.lift (setString enabled key s state)
    else if key = ascii "outputs" then do
      let elems ← evaluator.forceList value
      let names ← elems.foldlM (forceNames evaluator) []
      let outputs ← StateT.lift (handleOutputs names)
      pure { state with outputs := outputs }
    else pure state

def plainAttribute (key : Bytes) (value : Value) (state : Attributes Json) :
    Eval Memory (Attributes Json) := do
  let (s, context) ← evaluator.coerceToString value
  let state := { state with
    env := state.env.emplaceAt key s
    context := addContext state.context context }
  if key = ascii "outputs" then do
    let outputs ← StateT.lift (handleOutputs (tokenizeString s whitespace))
    pure { state with outputs := outputs }
  else StateT.lift (setString enabled key s state)

def otherAttribute (key : Bytes) (value : Value) (state : Attributes Json) :
    Eval Memory (Attributes Json) :=
  match state.jsonObject with
  | some jsonObject => structuredAttribute evaluator enabled key value jsonObject state
  | none => plainAttribute evaluator enabled key value state

def forceFlag (name key : Bytes) (value : Value) : Eval Memory Bool :=
  if key = name then evaluator.forceBool value else pure false

def processValue (key : Bytes) (value : Value) (state : Attributes Json) :
    Eval Memory (Attributes Json) := do
  if ← forceFlag evaluator (ascii "__contentAddressed") key value then do
    StateT.lift (require (enabled (ascii "ca-derivations")) (ascii "ca-derivations"))
    pure { state with contentAddressed := true }
  else if ← forceFlag evaluator (ascii "__impure") key value then do
    StateT.lift (require (enabled (ascii "impure-derivations")) (ascii "impure-derivations"))
    pure { state with isImpure := true }
  else if key = ascii "args" then do
    let elems ← evaluator.forceList value
    elems.foldlM (coerceElement evaluator) state
  else otherAttribute evaluator enabled key value state

def skipsNull (ignoreNulls : Bool) (value : Value) : Eval Memory Bool :=
  if ignoreNulls then evaluator.isNull value else pure false

def processAttribute (ignoreNulls : Bool) (state : Attributes Json) (attr : Bytes × Value) :
    Eval Memory (Attributes Json) := do
  if attr.1 = ascii "__ignoreNulls" then pure state
  else if ← skipsNull evaluator ignoreNulls attr.2 then pure state
  else processValue evaluator enabled attr.1 attr.2 state

def forceAttribute (attrs : SortedMap Bytes Value) (name : Bytes) : Eval Memory Bool :=
  match attrs.get name with
  | some value => evaluator.forceBool value
  | none => pure false

def initialAttributes (structured : Bool) : Attributes Json where
  builder := []
  platform := []
  args := []
  env := empty
  context := []
  contentAddressed := false
  isImpure := false
  outputHash := none
  outputHashAlgo := none
  ingestionMethod := none
  outputs := onlyOut
  jsonObject := if structured then some empty else none

def addJson (state : Attributes Json) : Except Failure (Attributes Json) :=
  match state.jsonObject with
  | some jsonObject => do
      let text ← evaluator.dump jsonObject
      pure { state with env := state.env.emplaceAt (ascii "__json") text, jsonObject := none }
  | none => .ok state

def processAttributes (attrs : SortedMap Bytes Value) : Eval Memory (Attributes Json) := do
  let structured ← forceAttribute evaluator attrs (ascii "__structuredAttrs")
  let ignoreNulls ← forceAttribute evaluator attrs (ascii "__ignoreNulls")
  let state ← attrs.entries.foldlM (processAttribute evaluator enabled ignoreNulls)
    (initialAttributes structured)
  StateT.lift (addJson evaluator state)

end Attribute

def emptyNode : InputNode := makeNode ∅ empty

def childrenOf : InputNode → SortedMap Bytes InputNode
  | ⟨.node _ childMap, ordered⟩ =>
    ⟨withOrder childMap (by rw [Ordered] at ordered; exact ordered.2),
      with_order_ascending _ (by rw [Ordered] at ordered; exact ordered.1)⟩

def setValue (value : Finset Bytes) (node : InputNode) : InputNode :=
  makeNode value (childrenOf node)

def ensureSlot (change : InputNode → InputNode) :
    SingleDerivedPath → SortedMap StorePath InputNode → SortedMap StorePath InputNode
  | .opaquePath path, map => map.update (fun old => change (old.getD emptyNode)) path
  | .built drvPath output, map =>
    ensureSlot
      (fun node => makeNode node.val.value
        ((childrenOf node).update (fun old => change (old.getD emptyNode)) output))
      drvPath map

structure DrvInputs where
  inputSrcs : Finset StorePath
  inputDrvs : SortedMap StorePath InputNode

section

variable {Memory Value Json : Type} (store : StoreDirConfig)
  (evaluator : Evaluator Memory Value Json) (world : World Memory)

/-- One path of the closure of a derivation. It is valid, so that reading it as a
derivation does not depend on the check of validity. -/
def addClosurePath (inputs : DrvInputs) (path : StorePath) : Except Failure DrvInputs :=
  let inputs := { inputs with inputSrcs := insert path inputs.inputSrcs }
  if path.isDerivation then do
    let drv ← readInvalidDerivation store world.readFile path
    pure { inputs with
      inputDrvs := inputs.inputDrvs.update
        (fun old => setValue (outputNames drv).toFinset (old.getD emptyNode)) path }
  else .ok inputs

def addElem (inputs : DrvInputs) : ContextElem → Except Failure DrvInputs
  | .drvDeep drvPath => do
      let refs ← evaluator.computeFSClosure world drvPath
      refs.foldlM (addClosurePath store world) inputs
  | .built drvPath output =>
    .ok { inputs with
      inputDrvs := ensureSlot (fun node => setValue (insert output node.val.value) node) drvPath
        inputs.inputDrvs }
  | .opaquePath path => .ok { inputs with inputSrcs := insert path inputs.inputSrcs }

def contextInputs (context : Context) : Except Failure DrvInputs :=
  context.foldlM (addElem store evaluator world) ⟨∅, empty⟩

end

section

variable {Json : Type}

def checkDerivationName (drvName : Bytes) : Except Failure Unit :=
  match checkName drvName with
  | .error (.badStorePathName message) =>
    .error (evalError (ascii "invalid derivation name: " ++ message ++
      ascii ". Please pass a different 'name'."))
  | checked => checked

def isOnlyOut (outputs : OutputNames) : Bool := decide (outputs.names = {ascii "out"})

def checkAttributes (drvName : Bytes) (state : Attributes Json) : Except Failure Unit :=
  if state.builder = [] then .error (evalError (ascii "required attribute 'builder' missing"))
  else if state.platform = [] then .error (evalError (ascii "required attribute 'system' missing"))
  else if hasSuffix drvName drvExtension &&
      !(decide (state.ingestionMethod = some .text) && isOnlyOut state.outputs) then
    .error (evalError (ascii "derivation names are allowed to end in " ++ quoted drvExtension ++
      ascii " only if they produce a single derivation file"))
  else .ok ()

end

def hashPlaceholder (sha : Sha256) (outputName : Bytes) : Bytes :=
  ascii "/" ++ printHash32 (hashString sha (ascii "bsd-output:" ++ outputName)).hash

def setOutputs (value : Bytes → Bytes) (output : DerivationOutput) (names : List Bytes)
    (drv : Derivation) : Derivation :=
  names.foldl
    (fun drv name =>
      { drv with env := drv.env.assign name (value name), outputs := drv.outputs.assign name output })
    drv

section

variable {Memory Value Json : Type} (store : StoreDirConfig) (sha : Sha256) (depth : Nat)

def fixedOutput (outputHash : Bytes) (state : Attributes Json) (drv : Derivation) :
    Except Failure Derivation :=
  if isOnlyOut state.outputs then do
    let hash ← newHashAllowEmpty outputHash state.outputHashAlgo
    let ca : ContentAddress := ⟨state.ingestionMethod.getD .flat, hash⟩
    let path ← fixedPath store sha ca drv.name (ascii "out")
    pure { drv with
      env := drv.env.assign (ascii "out") (printStorePath store path)
      outputs := drv.outputs.assign (ascii "out") (.caFixed ca) }
  else .error (evalError (ascii "multiple outputs are not supported in fixed-output derivations"))

def floatingOutput (state : Attributes Json) : DerivationOutput :=
  let ha := state.outputHashAlgo.getD .sha256
  let method := state.ingestionMethod.getD .bsdArchive
  if state.isImpure then .impure method ha else .caFloating method ha

def floatingOutputs (state : Attributes Json) (drv : Derivation) : Except Failure Derivation :=
  if state.contentAddressed && state.isImpure then
    .error (evalError (ascii "derivation cannot be both content-addressed and impure"))
  else
    .ok (setOutputs (hashPlaceholder sha) (floatingOutput state) (sortedValue state.outputs.names)
      drv)

def hashModulo (drv : Derivation) (maskOutputs : Bool) : Eval Memory DrvHash := fun world =>
  match hashDerivationModulo store sha world.readFile depth drv maskOutputs world.drvHashes with
  | (.ok hash, drvHashes) => .ok (hash, { world with drvHashes := drvHashes })
  | (.error failure, _) => .error failure

def noHashFor (outputName : Bytes) : Failure :=
  evalError (ascii "derivation produced no hash for output " ++ quoted outputName)

def deferOutput (drv : Derivation) (name : Bytes) : Derivation :=
  { drv with outputs := drv.outputs.assign name .deferred }

def inputAddressedOutputs (state : Attributes Json) (drv : Derivation) : Eval Memory Derivation := do
  let names := sortedValue state.outputs.names
  let drv := setOutputs (fun _ => []) .deferred names drv
  let hash ← hashModulo store sha depth drv true
  match hash.kind with
  | .regular => StateT.lift (names.foldlM (enterPath store sha noHashFor hash) drv)
  | .deferred => pure (names.foldl deferOutput drv)

def makeOutputs (state : Attributes Json) (drv : Derivation) : Eval Memory Derivation :=
  match state.outputHash with
  | some outputHash => StateT.lift (fixedOutput store sha outputHash state drv)
  | none =>
    if state.contentAddressed || state.isImpure then StateT.lift (floatingOutputs sha state drv)
    else inputAddressedOutputs store sha depth state drv

end

structure OutputString where
  text : Bytes
  context : ContextElem

structure Written where
  drvPath : StorePath
  drv : Derivation
  outputs : List (Bytes × OutputString)

section

variable {Memory Value Json : Type} (store : StoreDirConfig) (sha : Sha256) (readOnly : Bool)

def drvReferences (drv : Derivation) : Finset StorePath :=
  drv.inputSrcs ∪ (drv.inputDrvs.entries.map Prod.fst).toFinset

def writtenPath (drv : Derivation) (contents : Bytes) : Except Failure StorePath :=
  makeFixedOutputPathFromCA store sha (drv.name ++ drvExtension)
    (.textInfo (hashString sha contents) (drvReferences drv))

/-- A path that is already there is left as it is. -/
def addFile (drvPath : StorePath) (contents : Bytes) (world : World Memory) : World Memory :=
  match world.readFile drvPath with
  | .ok _ => world
  | .error _ =>
    { world with
      readFile := fun path => if path = drvPath then .ok contents else world.readFile path }

def writeDerivation (drv : Derivation) : Eval Memory StorePath := fun world => do
  let contents ← unparse store sha drv false none
  let drvPath ← writtenPath store sha drv contents
  pure (drvPath, if readOnly then world else addFile drvPath contents world)

def mkOutputString (features : Features) (drvPath : StorePath) (entry : Bytes × DerivationOutput) :
    Except Failure (Bytes × OutputString) := do
  let drvName ← nameFromPath drvPath
  let path ← outputPath store sha drvName entry.1 entry.2
  let text ←
    match path with
    | some path => pure (printStorePath store path)
    | none => do
        let placeholder ← unknownCaOutput features sha drvPath entry.1
        pure placeholder.render
  pure (entry.1, ⟨text, .built (.opaquePath drvPath) entry.1⟩)

def enterHash (drvPath : StorePath) (hash : DrvHash) : Eval Memory Unit := fun world =>
  .ok ((), { world with drvHashes := world.drvHashes.assign drvPath hash })

end

section

variable {Memory Value Json : Type} (store : StoreDirConfig) (sha : Sha256) (depth : Nat)
  (readOnly : Bool) (evaluator : Evaluator Memory Value Json) (enabled : Enabled)

def plainDerivation (drvName : Bytes) (state : Attributes Json) (inputs : DrvInputs) :
    Derivation where
  name := drvName
  outputs := empty
  inputSrcs := inputs.inputSrcs
  platform := state.platform
  builder := state.builder
  args := state.args
  env := state.env
  inputDrvs := inputs.inputDrvs

def derivationStrictInternal (drvName : Bytes) (attrs : SortedMap Bytes Value) :
    Eval Memory Written := do
  StateT.lift (checkDerivationName drvName)
  let state ← processAttributes evaluator enabled attrs
  let inputs ← fun world =>
    (contextInputs store evaluator world state.context).map fun inputs => (inputs, world)
  StateT.lift (checkAttributes drvName state)
  let drv ← makeOutputs store sha depth state (plainDerivation drvName state inputs)
  let drvPath ← writeDerivation store sha readOnly drv
  let hash ← hashModulo store sha depth drv false
  enterHash drvPath hash
  let features : Features :=
    ⟨enabled (ascii "ca-derivations"), enabled (ascii "dynamic-derivations")⟩
  let outputs ← StateT.lift (drv.outputs.entries.mapM (mkOutputString store sha features drvPath))
  pure ⟨drvPath, drv, outputs⟩

end

end Bsd.Expr.DerivationStrict
