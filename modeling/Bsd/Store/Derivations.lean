import Bsd.Lib.OrdMap
import Bsd.Lib.Readers
import Bsd.Store.ContentAddresses

/-!
# Derivations and their text

`unparse` prints a derivation as an ATerm and `parseDerivation` reads such a
text back. Two printers of strings are in use: `printString` escapes, while
`printUnquotedString` writes its argument as it is. All experimental features
are enabled.
-/

namespace Bsd.Store.Derivations

open Lib.Occurrences Lib.OrdMap Lib.Readers Util.FilePath Util.Hashes Store.Path SortedMap
open Store.ContentAddresses

inductive DerivationOutput where
  | inputAddressed (path : StorePath)
  | caFixed (ca : ContentAddress)
  | caFloating (method : ContentAddressMethod) (hashAlgo : HashAlgorithm)
  | deferred
  | impure (method : ContentAddressMethod) (hashAlgo : HashAlgorithm)
  deriving DecidableEq

inductive ChildNode where
  | node (value : Finset Bytes) (childMap : List (Bytes × ChildNode))

abbrev ChildMap := List (Bytes × ChildNode)

def ChildNode.value : ChildNode → Finset Bytes
  | .node value _ => value

def ChildNode.childMap : ChildNode → ChildMap
  | .node _ childMap => childMap

mutual

/-- Every `childMap` of a tree is an ordered map. -/
def Ordered : ChildNode → Prop
  | .node _ childMap => Ascending childMap ∧ ChildrenOrdered childMap

def ChildrenOrdered : ChildMap → Prop
  | [] => True
  | (_, child) :: rest => Ordered child ∧ ChildrenOrdered rest

end

abbrev InputNode := { node : ChildNode // Ordered node }

theorem children_ordered_iff (children : ChildMap) :
    ChildrenOrdered children ↔ ∀ entry ∈ children, Ordered entry.2 := by
  induction children with
  | nil => exact iff_of_true trivial nofun
  | cons first rest ih => rw [ChildrenOrdered, ih, List.forall_mem_cons]

def eraseOrder (entry : Bytes × InputNode) : Bytes × ChildNode := (entry.1, entry.2.val)

def makeNode (value : Finset Bytes) (children : SortedMap Bytes InputNode) : InputNode where
  val := .node value (children.entries.map eraseOrder)
  property := by
    rw [Ordered]
    constructor
    · exact List.pairwise_map.mpr children.ascending
    apply (children_ordered_iff _).mpr
    intro entry member
    obtain ⟨child, _, same⟩ := List.mem_map.mp member
    rw [← same]
    exact child.2.property

structure Derivation where
  name : Bytes
  outputs : SortedMap Bytes DerivationOutput
  inputSrcs : Finset StorePath
  platform : Bytes
  builder : Bytes
  args : List Bytes
  env : SortedMap Bytes Bytes
  inputDrvs : SortedMap StorePath InputNode

def outputPathName (drvName outputName : Bytes) : Bytes :=
  if outputName = ascii "out" then drvName else drvName ++ ascii "-" ++ outputName

def makeOutputPath (store : StoreDirConfig) (sha : Sha256) (id : Bytes) (hash : Hash)
    (name : Bytes) : Except Failure StorePath :=
  makeStorePath store sha (ascii "output:" ++ id) hash (outputPathName name id)

inductive DerivationType where
  | inputAddressed (deferred : Bool)
  | contentAddressed (sandboxed fixed : Bool)
  | impure
  deriving DecidableEq

def DerivationType.isFixed : DerivationType → Bool
  | .contentAddressed _ fixed => fixed
  | _ => false

def isInputAddressed : DerivationOutput → Bool
  | .inputAddressed _ => true
  | _ => false

def isCaFixed : DerivationOutput → Bool
  | .caFixed _ => true
  | _ => false

def isCaFloating : DerivationOutput → Bool
  | .caFloating _ _ => true
  | _ => false

def isDeferred : DerivationOutput → Bool
  | .deferred => true
  | _ => false

def isImpure : DerivationOutput → Bool
  | .impure _ _ => true
  | _ => false

/-- The check made while the outputs are sorted by kind. -/
def checkFloatingAlgo : List (Bytes × DerivationOutput) → Option HashAlgorithm → Except Failure Unit
  | [], _ => .ok ()
  | (_, .caFloating _ algo) :: rest, none => checkFloatingAlgo rest (some algo)
  | (_, .caFloating _ algo) :: rest, some floatingHashAlgo =>
    if floatingHashAlgo = algo then checkFloatingAlgo rest (some floatingHashAlgo)
    else .error (.error (ascii "all floating outputs must use the same hash algorithm"))
  | _ :: rest, floatingHashAlgo => checkFloatingAlgo rest floatingHashAlgo

def fixedType (outputs : List (Bytes × DerivationOutput)) : Except Failure DerivationType :=
  match outputs with
  | [(name, _)] =>
    if name = ascii "out" then .ok (.contentAddressed false true)
    else .error (.error (ascii "single fixed output must be named \"out\""))
  | _ => .error (.error (ascii "only one fixed output is allowed for now"))

def Derivation.type (drv : Derivation) : Except Failure DerivationType := do
  let outputs := drv.outputs.entries
  checkFloatingAlgo outputs none
  if outputs = [] then throw (.error (ascii "must have at least one output"))
  else if outputs.all fun entry => isInputAddressed entry.2 then pure (.inputAddressed false)
  else if outputs.all fun entry => isCaFixed entry.2 then fixedType outputs
  else if outputs.all fun entry => isCaFloating entry.2 then pure (.contentAddressed true false)
  else if outputs.all fun entry => isDeferred entry.2 then pure (.inputAddressed true)
  else if outputs.all fun entry => isImpure entry.2 then pure .impure
  else throw (.error (ascii "can't mix derivation output types"))

def escape (character : Byte) : Bytes :=
  if character = 34 ∨ character = 92 then [92, character]
  else if character = 10 then [92, 110]
  else if character = 13 then [92, 114]
  else if character = 9 then [92, 116]
  else [character]

def printString (text : Bytes) : Bytes := ascii "\"" ++ text.flatMap escape ++ ascii "\""

def printUnquotedString (text : Bytes) : Bytes := ascii "\"" ++ text ++ ascii "\""

def printList (items : List Bytes) : Bytes := ascii "[" ++ [44].intercalate items ++ ascii "]"

def printStrings (texts : List Bytes) : Bytes := printList (texts.map printString)

def printUnquotedStrings (texts : List Bytes) : Bytes := printList (texts.map printUnquotedString)

def sortedValue (value : Finset Bytes) : List Bytes := value.sort (· ≤ ·)

theorem sorted_value_to_finset (value : Finset Bytes) : (sortedValue value).toFinset = value :=
  Finset.sort_toFinset value (· ≤ ·)

mutual

def unparseNode : ChildNode → Bytes
  | .node value childMap =>
    match childMap with
    | [] => printUnquotedStrings (sortedValue value)
    | first :: rest =>
      ascii "(" ++ printUnquotedStrings (sortedValue value) ++ ascii "," ++
        printList (unparseChildren (first :: rest)) ++ ascii ")"

def unparseChildren : ChildMap → List Bytes
  | [] => []
  | (outputName, child) :: rest =>
    (ascii "(" ++ printUnquotedString outputName ++ ascii "," ++ unparseNode child ++ ascii ")") ::
      unparseChildren rest

end

def hasDynamicDrvDep (drv : Derivation) : Bool :=
  drv.inputDrvs.entries.any fun entry => !entry.2.val.childMap.isEmpty

section Unparse

variable (store : StoreDirConfig) (sha : Sha256)

def fixedPath (ca : ContentAddress) (drvName outputName : Bytes) : Except Failure StorePath :=
  makeFixedOutputPathFromCA store sha (outputPathName drvName outputName) (withoutRefs ca)

def outputPath (drvName outputName : Bytes) : DerivationOutput → Except Failure (Option StorePath)
  | .inputAddressed path => .ok (some path)
  | .caFixed ca => do
      let path ← fixedPath store sha ca drvName outputName
      pure (some path)
  | _ => .ok none

def outputFields (drvName outputName : Bytes) (maskOutputs : Bool) :
    DerivationOutput → Except Failure (Bytes × Bytes × Bytes)
  | .inputAddressed path => .ok (if maskOutputs then [] else printStorePath store path, [], [])
  | .caFixed ca =>
    if maskOutputs then .ok ([], ca.printMethodAlgo, printHash16 ca.hash.hash)
    else do
      let path ← fixedPath store sha ca drvName outputName
      pure (printStorePath store path, ca.printMethodAlgo, printHash16 ca.hash.hash)
  | .caFloating method hashAlgo => .ok ([], renderMethodAlgo method hashAlgo, [])
  | .deferred => .ok ([], [], [])
  | .impure method hashAlgo => .ok ([], renderMethodAlgo method hashAlgo, ascii "impure")

def unparseFields (outputName : Bytes) (fields : Bytes × Bytes × Bytes) : Bytes :=
  ascii "(" ++ printUnquotedString outputName ++ ascii "," ++ printUnquotedString fields.1 ++
    ascii "," ++ printUnquotedString fields.2.1 ++ ascii "," ++ printUnquotedString fields.2.2 ++
    ascii ")"

def unparseOutputs (drvName : Bytes) (maskOutputs : Bool) :
    List (Bytes × DerivationOutput) → Except Failure (List Bytes)
  | [] => .ok []
  | (outputName, output) :: rest => do
      let fields ← outputFields store sha drvName outputName maskOutputs output
      let more ← unparseOutputs drvName maskOutputs rest
      pure (unparseFields outputName fields :: more)

def unparseInput (key : Bytes) (node : ChildNode) : Bytes :=
  ascii "(" ++ printUnquotedString key ++ ascii "," ++ unparseNode node ++ ascii ")"

def Derivation.inputTexts (drv : Derivation) : List Bytes :=
  drv.inputDrvs.entries.map fun entry => unparseInput (printStorePath store entry.1) entry.2.val

def unparseInputs (drv : Derivation) (actualInputs : Option ChildMap) :
    List Bytes :=
  match actualInputs with
  | some inputs => inputs.map fun entry => unparseInput entry.1 entry.2
  | none => drv.inputTexts store

/-- `printStorePathSet`; the strings of a set are printed in their order. -/
def printStorePathSet (paths : Finset StorePath) : Finset Bytes :=
  paths.image (printStorePath store)

def unparseEnv (drv : Derivation) (maskOutputs : Bool) : List Bytes :=
  drv.env.entries.map fun entry =>
    let value :=
      if maskOutputs && (drv.outputs.get entry.1).isSome then [] else entry.2
    ascii "(" ++ printString entry.1 ++ ascii "," ++ printString value ++ ascii ")"

def unparseHead (drv : Derivation) : Bytes :=
  if hasDynamicDrvDep drv then
    ascii "DrvWithVersion(" ++ printUnquotedString (ascii "xp-dyn-drv") ++ ascii ","
  else ascii "Derive("

def unparse (drv : Derivation) (maskOutputs : Bool)
    (actualInputs : Option ChildMap) : Except Failure Bytes := do
  let outputs ← unparseOutputs store sha drv.name maskOutputs drv.outputs.entries
  pure (unparseHead drv ++ printList outputs ++
    ascii "," ++ printList (unparseInputs store drv actualInputs) ++
    ascii "," ++ printUnquotedStrings (sortedValue (printStorePathSet store drv.inputSrcs)) ++
    ascii "," ++ printUnquotedString drv.platform ++
    ascii "," ++ printString drv.builder ++
    ascii "," ++ printStrings drv.args ++
    ascii "," ++ printList (unparseEnv drv maskOutputs) ++ ascii ")")

end Unparse

abbrev Parse (Value : Type) := Reader Bytes Failure Value

def expect (text : Bytes) : Parse Unit := fun remaining =>
  if text <+: remaining then .ok ((), remaining.drop text.length)
  else .error (.formatError (ascii "expected string " ++ quoted text))

def peek : Parse (Option Byte) := fun remaining => .ok (remaining.head?, remaining)

def escapes (character : Byte) : Byte :=
  if character = 110 then 10
  else if character = 114 then 13
  else if character = 116 then 9
  else character

/-- The content of a string up to the closing quote, and what follows it. A
missing quote makes the code step behind the end of its input. -/
def scanString : Bytes → Except Failure (Bytes × Bytes)
  | [] => .error .undefinedBehaviour
  | character :: rest =>
    if character = 34 then .ok ([], rest)
    else if character = 92 then
      match rest with
      | [] => .error (.formatError (ascii "unterminated string in derivation"))
      | escaped :: after => do
          let scanned ← scanString after
          pure (character :: escaped :: scanned.1, scanned.2)
    else do
      let scanned ← scanString rest
      pure (character :: scanned.1, scanned.2)

def unescape : Bytes → Bytes
  | [] => []
  | character :: rest =>
    if character = 92 then
      match rest with
      | [] => []
      | escaped :: after => escapes escaped :: unescape after
    else character :: unescape rest

def parseString : Parse Bytes := do
  expect (ascii "\"")
  fun remaining => do
    let scanned ← scanString remaining
    pure (if 92 ∈ scanned.1 then unescape scanned.1 else scanned.1, scanned.2)

def validatePath (text : Bytes) : Except Failure Unit :=
  if text.head? = some 47 then .ok ()
  else .error (.formatError (ascii "bad path " ++ quoted text ++ ascii " in derivation"))

def lift {Value : Type} (result : Except Failure Value) : Parse Value := fun remaining =>
  match result with
  | .ok value => .ok (value, remaining)
  | .error failure => .error failure

def parsePath : Parse Bytes := do
  let text ← parseString
  lift (validatePath text)
  pure text

def endOfList : Parse Bool := fun remaining =>
  match remaining with
  | [] => .ok (false, [])
  | character :: rest =>
    if character = 44 then .ok (false, rest)
    else if character = 93 then .ok (true, rest)
    else .ok (false, character :: rest)

/-- The loops `while (!endOfList(str))`; the first argument bounds their rounds. -/
def parseItems {Item : Type} (item : Parse Item) : Nat → Parse (List Item)
  | 0 => throw .outOfDepth
  | rounds + 1 => do
      let done ← endOfList
      if done then pure []
      else do
        let first ← item
        let rest ← parseItems item rounds
        pure (first :: rest)

def parseList {Item : Type} (item : Parse Item) : Parse (List Item) := fun remaining =>
  parseItems item (remaining.length + 1) remaining

def parseStrings (arePaths : Bool) : Parse (Finset Bytes) := do
  expect (ascii "[")
  let texts ← parseList (if arePaths then parsePath else parseString)
  pure texts.toFinset

inductive DerivationATermVersion where
  | traditional
  | dynamicDerivations
  deriving DecidableEq

def parseNonDynamic : Parse InputNode := do
  let value ← parseStrings false
  pure (makeNode value (assignAll []))

def parseChild (node : Parse InputNode) : Parse (Bytes × InputNode) := do
  expect (ascii "(")
  let outputName ← parseString
  expect (ascii ",")
  let child ← node
  expect (ascii ")")
  pure (outputName, child)

/-- `parseDerivedPathMapNode`; the second argument bounds the nesting. -/
def parseDerivedPathMapNode (version : DerivationATermVersion) : Nat → Parse InputNode
  | 0 => throw .outOfDepth
  | depth + 1 =>
    match version with
    | .traditional => parseNonDynamic
    | .dynamicDerivations => do
        let next ← peek
        if next = some 91 then parseNonDynamic
        else if next = some 40 then do
          expect (ascii "(")
          let value ← parseStrings false
          expect (ascii ",[")
          let children ← parseList (parseChild (parseDerivedPathMapNode version depth))
          expect (ascii ")")
          pure (makeNode value (assignAll children))
        else throw (.formatError (ascii "invalid inputDrvs entry in derivation"))

def parseNode (version : DerivationATermVersion) : Parse InputNode := fun remaining =>
  parseDerivedPathMapNode version (remaining.length + 1) remaining

section Parsers

variable (store : StoreDirConfig)

/-- `parseDerivationOutput` on the three strings of an output. -/
def parseOutputFields (pathS hashAlgoStr hashS : Bytes) : Except Failure DerivationOutput :=
  if hashAlgoStr ≠ [] then do
    let (method, algoText) := parsePrefix hashAlgoStr
    let hashAlgo ← parseHashAlgo algoText
    if hashS = ascii "impure" then
      if pathS ≠ [] then
        throw (.formatError (ascii "impure derivation output should not specify output path"))
      else pure (.impure method hashAlgo)
    else if hashS ≠ [] then do
      validatePath pathS
      let hash ← parseHash hashS hashAlgo
      pure (.caFixed ⟨method, hash⟩)
    else if pathS ≠ [] then
      throw (.formatError
        (ascii "content-addressing derivation output should not specify output path"))
    else pure (.caFloating method hashAlgo)
  else if pathS = [] then pure .deferred
  else do
    validatePath pathS
    let path ← parseStorePath store pathS
    pure (.inputAddressed path)

def parseDerivationOutput : Parse DerivationOutput := do
  expect (ascii ",")
  let pathS ← parseString
  expect (ascii ",")
  let hashAlgo ← parseString
  expect (ascii ",")
  let hash ← parseString
  expect (ascii ")")
  lift (parseOutputFields store pathS hashAlgo hash)

def parseNamedOutput : Parse (Bytes × DerivationOutput) := do
  expect (ascii "(")
  let id ← parseString
  let output ← parseDerivationOutput store
  pure (id, output)

def parseInput (version : DerivationATermVersion) : Parse (StorePath × InputNode) := do
  expect (ascii "(")
  let drvPath ← parsePath
  expect (ascii ",")
  -- `insert_or_assign` is handed both arguments; the path is parsed first here.
  let path ← lift (parseStorePath store drvPath)
  let node ← parseNode version
  expect (ascii ")")
  pure (path, node)

def parseEnvEntry : Parse (Bytes × Bytes) := do
  expect (ascii "(")
  let name ← parseString
  expect (ascii ",")
  let value ← parseString
  expect (ascii ")")
  pure (name, value)

def parseStorePaths : List Bytes → Except Failure (List StorePath)
  | [] => .ok []
  | text :: rest => do
      let path ← parseStorePath store text
      let paths ← parseStorePaths rest
      pure (path :: paths)

def parseStorePathSet (paths : Finset Bytes) : Except Failure (Finset StorePath) := do
  let parsed ← parseStorePaths store (sortedValue paths)
  pure parsed.toFinset

def parseVersion : Parse DerivationATermVersion := do
  expect (ascii "D")
  let next ← peek
  if next = some 101 then do
    expect (ascii "erive(")
    pure .traditional
  else if next = some 114 then do
    expect (ascii "rvWithVersion(")
    let versionS ← parseString
    if versionS = ascii "xp-dyn-drv" then do
      expect (ascii ",")
      pure .dynamicDerivations
    else
      throw (.formatError (ascii "Unknown derivation ATerm format version " ++ quoted versionS))
  else throw (.error (ascii "derivation does not start with 'Derive' or 'DrvWithVersion'"))

def parseBody (name : Bytes) : Parse Derivation := do
  let version ← parseVersion
  expect (ascii "[")
  let outputs ← parseList (parseNamedOutput store)
  expect (ascii ",[")
  let inputDrvs ← parseList (parseInput store version)
  expect (ascii ",")
  let sources ← parseStrings true
  let inputSrcs ← lift (parseStorePathSet store sources)
  expect (ascii ",")
  let platform ← parseString
  expect (ascii ",")
  let builder ← parseString
  expect (ascii ",[")
  let args ← parseList parseString
  expect (ascii ",[")
  let env ← parseList parseEnvEntry
  expect (ascii ")")
  pure
    { name := name, outputs := emplaceAll outputs, inputSrcs := inputSrcs,
      platform := platform, builder := builder, args := args, env := assignAll env,
      inputDrvs := assignAll inputDrvs }

/-- `parseDerivation`; what follows the term is ignored. -/
def parseDerivation (text name : Bytes) : Except Failure Derivation :=
  match parseBody store name text with
  | .ok (drv, _) => .ok drv
  | .error failure => .error failure

end Parsers

end Bsd.Store.Derivations
