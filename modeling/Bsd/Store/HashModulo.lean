import Bsd.Lib.Memo
import Bsd.Store.Derivations

/-!
# Hashing derivations modulo fixed outputs

`hashDerivationModulo` hashes the text of a derivation in which the paths of the
input derivations are replaced by the hashes of their outputs; fixed outputs are
hashed by what they contain. `pathDerivationModulo` keeps the results in the table
`drvHashes`.
-/

namespace Bsd.Store.HashModulo

open Lib.Occurrences Lib.OrdMap Lib.Readers Lib.Memo Util.FilePath Util.Hashes Store.Path List
  SortedMap Calls
open Store.ContentAddresses Store.Derivations

inductive Kind where
  | regular
  | deferred
  deriving DecidableEq

structure DrvHash where
  hashes : SortedMap Bytes Hash
  kind : Kind

abbrev DrvHashes := SortedMap StorePath DrvHash

abbrev Answers := StorePath → Except Failure DrvHash

/-- The names of the outputs that are used, under the texts of their hashes. -/
abbrev OutputsByHash := SortedMap Bytes (Finset Bytes)

/-- Computations that ask for the hashes of derivations by their paths. -/
abbrev Hashing := Calls StorePath DrvHash Failure

def nameFromPath (drvPath : StorePath) : Except Failure Bytes :=
  if drvPath.isDerivation then
    .ok (drvPath.name.take (drvPath.name.length - drvExtension.length))
  else
    .error (.formatError (ascii "store path " ++ quoted drvPath.baseName ++
      ascii " is not a valid derivation path"))

def kindOf : DerivationType → Kind
  | .inputAddressed _ => .regular
  | .contentAddressed _ fixed => if fixed then .regular else .deferred
  | .impure => .deferred

structure Gathered where
  kind : Kind
  inputs2 : OutputsByHash

def addOutput (drvName : Bytes) (res : DrvHash) (inputs2 : OutputsByHash)
    (outputName : Bytes) : Except Failure OutputsByHash :=
  match res.hashes.get outputName with
  | some hash => .ok (inputs2.insertAt (printHash16 hash.hash) outputName)
  | none =>
    .error (.error (ascii "no hash for output " ++ quoted outputName ++ ascii " of derivation " ++
      quoted drvName))

def addOutputs (drvName : Bytes) (res : DrvHash) :
    List Bytes → OutputsByHash → Except Failure OutputsByHash
  | [], inputs2 => .ok inputs2
  | outputName :: rest, inputs2 => do
      let more ← addOutput drvName res inputs2 outputName
      addOutputs drvName res rest more

def gatherInputs (drvName : Bytes) : List (StorePath × InputNode) → Gathered → Hashing Gathered
  | [], gathered => pure gathered
  | (drvPath, node) :: rest, gathered => do
      let res ← Calls.ask drvPath
      let inputs2 ← Calls.ofExcept
        (addOutputs drvName res (sortedValue node.val.value) gathered.inputs2)
      let kind := if res.kind = .deferred then .deferred else gathered.kind
      gatherInputs drvName rest ⟨kind, inputs2⟩

/-- The nodes under the hashes have a value only. -/
def actualInputs (inputs2 : OutputsByHash) : ChildMap :=
  inputs2.entries.map fun entry => (entry.1, .node entry.2 [])

variable {drvPath : StorePath}

section Hashing

variable (store : StoreDirConfig) (sha : Sha256)

def fixedText (drvName outputName : Bytes) (ca : ContentAddress) : Except Failure Bytes := do
  let path ← fixedPath store sha ca drvName outputName
  pure (ascii "fixed:out:" ++ ca.printMethodAlgo ++ ascii ":" ++ printHash16 ca.hash.hash ++
    ascii ":" ++ printStorePath store path)

def fixedHashes (drvName : Bytes) :
    List (Bytes × DerivationOutput) → Except Failure (List (Bytes × Hash))
  | [] => .ok []
  | (outputName, .caFixed ca) :: rest => do
      let text ← fixedText store sha drvName outputName ca
      let more ← fixedHashes drvName rest
      pure ((outputName, hashString sha text) :: more)
  | _ :: _ => .error .badVariantAccess

def preimage (drv : Derivation) (maskOutputs : Bool) (inputs2 : OutputsByHash) :
    Except Failure Bytes :=
  unparse store sha drv maskOutputs (some (actualInputs inputs2))

def hashCalls (drv : Derivation) (maskOutputs : Bool) : Hashing DrvHash := do
  let type ← Calls.ofExcept drv.type
  if type.isFixed then do
    let outputHashes ← Calls.ofExcept (fixedHashes store sha drv.name drv.outputs.entries)
    pure ⟨SortedMap.assignAll outputHashes, .regular⟩
  else do
    let gathered ← gatherInputs drv.name drv.inputDrvs.entries ⟨kindOf type, SortedMap.empty⟩
    let text ← Calls.ofExcept (preimage store sha drv maskOutputs gathered.inputs2)
    let hash := hashString sha text
    pure ⟨SortedMap.assignAll (drv.outputs.entries.map fun entry => (entry.1, hash)), gathered.kind⟩

variable (readFile : ReadFile)

def readInvalidDerivation (drvPath : StorePath) : Except Failure Derivation :=
  let parsed := do
    let text ← readFile drvPath
    let name ← nameFromPath drvPath
    parseDerivation store text name
  match parsed with
  | .ok drv => .ok drv
  | .error (.formatError message) =>
    .error (.error (ascii "error parsing derivation " ++
      quoted (printStorePath store drvPath) ++ ascii ": " ++ message))
  | .error failure => .error failure

variable {drv : Derivation}

def pathCalls (drvPath : StorePath) : Hashing DrvHash := do
  let drv ← Calls.ofExcept (readInvalidDerivation store readFile drvPath)
  hashCalls store sha drv false

/-- `pathDerivationModulo`; the first argument bounds the nesting. -/
def pathDerivationModulo (depth : Nat) (drvPath : StorePath) (drvHashes : DrvHashes) :
    Except Failure DrvHash × DrvHashes :=
  memo .outOfDepth (pathCalls store sha readFile) depth drvPath drvHashes

def hashDerivationModulo (depth : Nat) (drv : Derivation) (maskOutputs : Bool)
    (drvHashes : DrvHashes) : Except Failure DrvHash × DrvHashes :=
  (hashCalls store sha drv maskOutputs).evalMemo (pathDerivationModulo store sha readFile depth)
    drvHashes

/-- The states of `drvHashes`, with what the evaluator has entered: calls of both functions
fill the table, also those that fail, and `derivationStrict` enters the hash of a derivation
under the path that `writeDerivation` gave it, without looking at the file. -/
inductive Reached : List (StorePath × Derivation) → DrvHashes → Prop
  | empty : Reached [] SortedMap.empty
  | hashed (depth : Nat) (drv : Derivation) (maskOutputs : Bool)
      {entries : List (StorePath × Derivation)} {drvHashes : DrvHashes} :
      Reached entries drvHashes →
      Reached entries (hashDerivationModulo store sha readFile depth drv maskOutputs drvHashes).2
  | looked (depth : Nat) (drvPath : StorePath) {entries : List (StorePath × Derivation)}
      {drvHashes : DrvHashes} :
      Reached entries drvHashes →
      Reached entries (pathDerivationModulo store sha readFile depth drvPath drvHashes).2
  | entered (depth : Nat) (drvPath : StorePath) (drv : Derivation) (hash : DrvHash)
      {entries : List (StorePath × Derivation)} {drvHashes : DrvHashes} :
      Reached entries drvHashes →
      (hashDerivationModulo store sha readFile depth drv false drvHashes).1 = .ok hash →
      Reached ((drvPath, drv) :: entries)
        ((hashDerivationModulo store sha readFile depth drv false drvHashes).2.assign drvPath hash)

/-- What the evaluator has entered is what is read at the paths. -/
def Reread (entries : List (StorePath × Derivation)) : Prop :=
  ∀ entry ∈ entries, readInvalidDerivation store readFile entry.1 = .ok entry.2

/-- The tables in which the evaluator has entered only derivations that are read back. -/
def Filled (drvHashes : DrvHashes) : Prop :=
  ∃ entries, Reached store sha readFile entries drvHashes ∧ Reread store readFile entries

def PathHash (drvPath : StorePath) (hash : DrvHash) : Prop :=
  Converges .outOfDepth (pathCalls store sha readFile) drvPath hash

def HashesTo (drv : Derivation) (maskOutputs : Bool) (hash : DrvHash) : Prop :=
  ∃ depth, (hashCalls store sha drv maskOutputs).eval
    (plain .outOfDepth (pathCalls store sha readFile) depth) = .ok hash

variable {store sha readFile}

theorem HashesTo.path {hash : DrvHash} (hashed : HashesTo store sha readFile drv false hash)
    (read : readInvalidDerivation store readFile drvPath = .ok drv) :
    PathHash store sha readFile drvPath hash := by
  obtain ⟨depth, evaluated⟩ := hashed
  refine ⟨depth + 1, ?_⟩
  rw [plain, pathCalls, read]
  exact evaluated

variable {drvHashes : DrvHashes}

theorem Filled.empty : Filled store sha readFile SortedMap.empty := ⟨[], .empty, nofun⟩

theorem Filled.looked (depth : Nat) (drvPath : StorePath)
    (filled : Filled store sha readFile drvHashes) :
    Filled store sha readFile (pathDerivationModulo store sha readFile depth drvPath drvHashes).2 := by
  obtain ⟨entries, reached, reread⟩ := filled
  exact ⟨entries, .looked depth drvPath reached, reread⟩

/-- Every entry is the hash that plain recursion finds: the functions enter what they have
computed, and a derivation that is read back has the hash that was entered for it. -/
theorem Reached.sound {entries : List (StorePath × Derivation)}
    (reached : Reached store sha readFile entries drvHashes)
    (reread : Reread store readFile entries) :
    Sound .outOfDepth (pathCalls store sha readFile) drvHashes := by
  induction reached with
  | empty => exact sound_empty
  | hashed depth drv maskOutputs _ ih =>
    exact (eval_memo_faithful (memo_faithful depth) _ _ (ih reread)).1
  | looked depth drvPath _ ih => exact (memo_faithful depth drvPath _ (ih reread)).1
  | entered depth drvPath drv hash _ hashed ih =>
    obtain ⟨read, others⟩ := forall_mem_cons.mp reread
    obtain ⟨soundAfter, evaluates⟩ := eval_memo_faithful (memo_faithful depth) _ _ (ih others)
    exact soundAfter.assign (HashesTo.path (evaluates hash hashed) read)

theorem Filled.sound (filled : Filled store sha readFile drvHashes) :
    Sound .outOfDepth (pathCalls store sha readFile) drvHashes := by
  obtain ⟨entries, reached, reread⟩ := filled
  exact reached.sound reread

end Hashing

variable {inputs : List (StorePath × InputNode)} {start : Gathered}
  {others : List (StorePath × InputNode)}

section Gathering

variable {drvName : Bytes}

theorem add_outputs_ok_iff (drvName : Bytes) (res : DrvHash) (outputs : List Bytes)
    (inputs2 : OutputsByHash) :
    (∃ result, addOutputs drvName res outputs inputs2 = .ok result) ↔
      ∀ name ∈ outputs, ∃ hash, res.hashes.get name = some hash := by
  induction outputs generalizing inputs2 with
  | nil => exact iff_of_true ⟨inputs2, rfl⟩ nofun
  | cons name rest ih =>
    rw [addOutputs, addOutput, forall_mem_cons]
    cases found : res.hashes.get name with
    | none =>
      apply iff_of_false
      · intro ran
        obtain ⟨result, isResult⟩ := ran
        cases isResult
      · intro both
        obtain ⟨hash, isHash⟩ := both.1
        cases isHash
    | some hash => exact (ih _).trans (and_iff_right ⟨hash, rfl⟩).symm

variable {res : DrvHash} {outputs : List Bytes} {inputs2 result : OutputsByHash}

theorem add_outputs_lists (ran : addOutputs drvName res outputs inputs2 = .ok result)
    (key name : Bytes) :
    result.Lists key name ↔ inputs2.Lists key name ∨
      (name ∈ outputs ∧ ∃ hash, res.hashes.get name = some hash ∧ key = printHash16 hash.hash) := by
  induction outputs generalizing inputs2 with
  | nil =>
    rw [← Except.ok.inj ran]
    exact (or_iff_left fun both => nomatch both.1).symm
  | cons first rest ih =>
    rw [addOutputs, addOutput] at ran
    cases found : res.hashes.get first with
    | none =>
      rw [found] at ran
      cases ran
    | some hash =>
      rw [found] at ran
      have here : (key = printHash16 hash.hash ∧ name = first) ↔
          (name = first ∧ ∃ hash, res.hashes.get name = some hash ∧
            key = printHash16 hash.hash) := by
        constructor
        · intro both
          rw [both.2]
          exact ⟨rfl, hash, found, both.1⟩
        intro both
        obtain ⟨isFirst, other, isHash, isKey⟩ := both
        rw [isFirst, found] at isHash
        rw [isKey, Option.some.inj isHash]
        exact ⟨rfl, isFirst⟩
      rw [ih ran, lists_insert_at, here, mem_cons, or_and_right]
      exact or_right_comm.trans or_comm

theorem add_outputs_full (full : inputs2.Full)
    (ran : addOutputs drvName res outputs inputs2 = .ok result) : result.Full := by
  induction outputs generalizing inputs2 with
  | nil =>
    rw [← Except.ok.inj ran]
    exact full
  | cons first rest ih =>
    obtain ⟨more, added, further⟩ := except_bind_ok ran
    rw [addOutput] at added
    split at added
    · rw [← Except.ok.inj added] at further
      exact ih (full_insert_at full _ _) further
    · cases added

variable (answer : Answers)

def Answered (inputs : List (StorePath × InputNode)) : Prop :=
  ∀ entry ∈ inputs, ∃ res, answer entry.1 = .ok res ∧
    ∀ name ∈ entry.2.val.value, ∃ hash, res.hashes.get name = some hash

/-- An input is used for this output, whose hash has this text. -/
def Refers (inputs : List (StorePath × InputNode)) (key name : Bytes) : Prop :=
  ∃ entry ∈ inputs, name ∈ entry.2.val.value ∧ ∃ res, answer entry.1 = .ok res ∧
    ∃ hash, res.hashes.get name = some hash ∧ key = printHash16 hash.hash

def Defers (inputs : List (StorePath × InputNode)) : Prop :=
  ∃ entry ∈ inputs, ∃ res, answer entry.1 = .ok res ∧ res.kind = .deferred

structure GatheredFrom (inputs : List (StorePath × InputNode)) (start result : Gathered) : Prop where
  answered : Answered answer inputs
  full : start.inputs2.Full → result.inputs2.Full
  lists : ∀ key name, result.inputs2.Lists key name ↔
    start.inputs2.Lists key name ∨ Refers answer inputs key name
  kind : result.kind = .deferred ↔ start.kind = .deferred ∨ Defers answer inputs

variable {answer} {rest : List (StorePath × InputNode)} {entry : StorePath × InputNode}

theorem refers_cons (answered : answer entry.1 = .ok res) (key name : Bytes) :
    Refers answer (entry :: rest) key name ↔
      (name ∈ sortedValue entry.2.val.value ∧
        ∃ hash, res.hashes.get name = some hash ∧ key = printHash16 hash.hash) ∨
      Refers answer rest key name := by
  rw [Refers, exists_mem_cons_iff, Refers, sortedValue, Finset.mem_sort]
  simp only [answered, Except.ok.injEq, exists_eq_left']

theorem defers_cons (answered : answer entry.1 = .ok res) :
    Defers answer (entry :: rest) ↔ res.kind = .deferred ∨ Defers answer rest := by
  rw [Defers, exists_mem_cons_iff, Defers]
  simp only [answered, Except.ok.injEq, exists_eq_left']

variable {result : Gathered}

theorem gather_step {node : InputNode} :
    (gatherInputs drvName ((drvPath, node) :: rest) start).eval answer = .ok result ↔
      ∃ res, answer drvPath = .ok res ∧ ∃ inputs2,
        addOutputs drvName res (sortedValue node.val.value) start.inputs2 = .ok inputs2 ∧
        (gatherInputs drvName rest
          ⟨if res.kind = .deferred then .deferred else start.kind, inputs2⟩).eval answer =
            .ok result := by
  rw [gatherInputs]
  simp [eval_bind, eval_ask, eval_of_except, except_bind_ok_iff]

theorem gather_ok (ran : (gatherInputs drvName inputs start).eval answer = .ok result) :
    GatheredFrom answer inputs start result := by
  induction inputs generalizing start with
  | nil =>
    rw [← Except.ok.inj ran]
    refine ⟨nofun, id, fun key name => ?_, ?_⟩
    · exact (or_iff_left fun ⟨_, member, _⟩ => nomatch member).symm
    · exact (or_iff_left fun ⟨_, member, _⟩ => nomatch member).symm
  | cons entry rest ih =>
    obtain ⟨res, answered, inputs2, added, further⟩ := gather_step.mp ran
    have later := ih further
    have hashes := (add_outputs_ok_iff drvName res _ start.inputs2).mp ⟨inputs2, added⟩
    refine ⟨?_, ?_, ?_, ?_⟩
    · rw [Answered, forall_mem_cons]
      exact ⟨⟨res, answered, fun name member => hashes name ((Finset.mem_sort _).mpr member)⟩,
        later.answered⟩
    · intro full
      exact later.full (add_outputs_full full added)
    · intro key name
      rw [later.lists, refers_cons answered, add_outputs_lists added, or_assoc]
    · rw [later.kind, defers_cons answered, ← or_assoc]
      apply or_congr_left
      by_cases isDeferred : res.kind = .deferred
      · rw [if_pos isDeferred]
        exact iff_of_true rfl (.inr isDeferred)
      · rw [if_neg isDeferred]
        exact (or_iff_left isDeferred).symm

theorem gather_answered (drvName : Bytes) (answered : Answered answer inputs) (start : Gathered) :
    ∃ result, (gatherInputs drvName inputs start).eval answer = .ok result := by
  induction inputs generalizing start with
  | nil => exact ⟨start, rfl⟩
  | cons entry rest ih =>
    rw [Answered, forall_mem_cons] at answered
    obtain ⟨⟨res, isAnswer, hashes⟩, restAnswered⟩ := answered
    obtain ⟨inputs2, added⟩ :=
      (add_outputs_ok_iff drvName res (sortedValue entry.2.val.value) start.inputs2).mpr
        fun name member => hashes name ((Finset.mem_sort _).mp member)
    obtain ⟨result, ran⟩ := ih restAnswered _
    exact ⟨result, gather_step.mpr ⟨res, isAnswer, inputs2, added, ran⟩⟩

theorem gathered_unique {other : Answers} {left right : Gathered}
    (full : start.inputs2.Full) (fromLeft : GatheredFrom answer inputs start left)
    (fromRight : GatheredFrom other others start right)
    (sameRefers : ∀ key name, Refers answer inputs key name ↔ Refers other others key name)
    (sameDefers : Defers answer inputs ↔ Defers other others) : left = right := by
  have sameInputs : left.inputs2 = right.inputs2 := by
    apply full_ext (fromLeft.full full) (fromRight.full full)
    intro key name
    rw [fromLeft.lists, fromRight.lists, sameRefers]
  have deferred : left.kind = .deferred ↔ right.kind = .deferred := by
    rw [fromLeft.kind, fromRight.kind, sameDefers]
  obtain ⟨leftKind, leftInputs⟩ := left
  obtain ⟨rightKind, rightInputs⟩ := right
  have sameKind : leftKind = rightKind := by
    cases leftKind with
    | deferred => exact (deferred.mp rfl).symm
    | regular =>
      cases rightKind with
      | regular => rfl
      | deferred => exact deferred.mpr rfl
  change leftInputs = rightInputs at sameInputs
  rw [sameKind, sameInputs]

end Gathering

section

variable {store : StoreDirConfig} {sha : Sha256} {drv : Derivation} {maskOutputs : Bool}
  {answer : Answers} {hash : DrvHash} {type : DerivationType}

theorem hash_calls_fixed (isType : drv.type = .ok type) (isFixed : type.isFixed = true) :
    (hashCalls store sha drv maskOutputs).eval answer =
      (fixedHashes store sha drv.name drv.outputs.entries).map
        fun outputHashes => ⟨assignAll outputHashes, .regular⟩ := by
  rw [hashCalls, isType]
  change (if type.isFixed = true then _ else _ : Hashing DrvHash).eval answer = _
  rw [if_pos isFixed]
  cases fixedHashes store sha drv.name drv.outputs.entries with
  | error | ok => rfl

theorem hash_calls_ok_iff (isType : drv.type = .ok type) (notFixed : type.isFixed = false) :
    (hashCalls store sha drv maskOutputs).eval answer = .ok hash ↔
      ∃ gathered, (gatherInputs drv.name drv.inputDrvs.entries
          ⟨kindOf type, empty⟩).eval answer = .ok gathered ∧
        ∃ text, preimage store sha drv maskOutputs gathered.inputs2 = .ok text ∧ hash = ⟨assignAll
            (drv.outputs.entries.map fun entry => (entry.1, hashString sha text)),
            gathered.kind⟩ := by
  rw [hashCalls, isType]
  change (if type.isFixed = true then _ else _ : Hashing DrvHash).eval answer = _ ↔ _
  rw [if_neg (by rw [notFixed]; exact Bool.false_ne_true)]
  simp only [eval_bind, eval_of_except, except_bind_ok_iff]
  apply exists_congr
  intro gathered
  refine and_congr_right' (exists_congr fun text => and_congr_right' ?_)
  exact ⟨fun ran => (Except.ok.inj ran).symm, fun isHash => congrArg Except.ok isHash.symm⟩

/-- The parts of a derivation that stand in the text as they are. -/
structure SameParts (left right : Derivation) : Prop where
  dynamic : hasDynamicDrvDep left = hasDynamicDrvDep right
  outputs : left.outputs = right.outputs
  inputSrcs : left.inputSrcs = right.inputSrcs
  platform : left.platform = right.platform
  builder : left.builder = right.builder
  args : left.args = right.args
  env : left.env = right.env

theorem SameParts.preimage {left right : Derivation} (same : SameParts left right)
    (sameName : left.name = right.name) (maskOutputs : Bool)
    (inputs2 : OutputsByHash) :
    preimage store sha left maskOutputs inputs2 = preimage store sha right maskOutputs inputs2 := by
  rw [HashModulo.preimage, unparse, unparseHead,
    unparseEnv, sameName, same.dynamic, same.outputs, same.inputSrcs, same.platform,
    same.builder, same.args, same.env]
  rfl

structure SameUse (answer otherAnswer : Answers)
    (inputs others : List (StorePath × InputNode)) : Prop where
  answered : Answered answer inputs ↔ Answered otherAnswer others
  refers : ∀ key name, Refers answer inputs key name ↔ Refers otherAnswer others key name
  defers : Defers answer inputs ↔ Defers otherAnswer others

variable {otherAnswer : Answers}

theorem SameUse.gathers (same : SameUse answer otherAnswer inputs others)
    (drvName otherName : Bytes) (full : start.inputs2.Full) (result : Gathered) :
    (gatherInputs drvName inputs start).eval answer = .ok result ↔
      (gatherInputs otherName others start).eval otherAnswer = .ok result := by
  constructor
  · intro ran
    have gathered := gather_ok ran
    obtain ⟨found, otherRan⟩ :=
      gather_answered otherName (same.answered.mp gathered.answered) start
    rw [otherRan, gathered_unique full gathered (gather_ok otherRan) same.refers same.defers]
  · intro otherRan
    have gathered := gather_ok otherRan
    obtain ⟨found, ran⟩ := gather_answered drvName (same.answered.mpr gathered.answered) start
    rw [ran, gathered_unique full (gather_ok ran) gathered same.refers same.defers]

/-- Derivations with the same parts, whose inputs are used for the same, have the
same hashes. -/
theorem SameUse.hash_calls {other : Derivation}
    (same : SameUse answer otherAnswer drv.inputDrvs.entries other.inputDrvs.entries)
    (parts : SameParts drv other) (sameName : drv.name = other.name) :
    (hashCalls store sha drv maskOutputs).eval answer = .ok hash ↔
      (hashCalls store sha other maskOutputs).eval otherAnswer = .ok hash := by
  have sameType : drv.type = other.type := by
    rw [Derivation.type, Derivation.type, parts.outputs]
  cases isType : drv.type with
  | error failure =>
    rw [hashCalls, hashCalls, ← sameType, isType]
    exact iff_of_false nofun nofun
  | ok type =>
    have otherType : other.type = .ok type := sameType.symm.trans isType
    cases fixed : type.isFixed with
    | true =>
      rw [hash_calls_fixed isType fixed, hash_calls_fixed otherType fixed, sameName, parts.outputs]
    | false =>
      rw [hash_calls_ok_iff isType fixed, hash_calls_ok_iff otherType fixed]
      apply exists_congr
      intro gathered
      rw [same.gathers drv.name other.name full_empty, parts.preimage sameName, parts.outputs]

theorem path_hash_iff {readFile : ReadFile}
    (read : readInvalidDerivation store readFile drvPath = .ok drv) :
    PathHash store sha readFile drvPath hash ↔ HashesTo store sha readFile drv false hash := by
  constructor
  · intro found
    obtain ⟨depth, ends⟩ := found
    cases depth with
    | zero => cases ends
    | succ depth =>
      rw [plain, pathCalls, read] at ends
      exact ⟨depth, ends⟩
  · intro hashed
    exact HashesTo.path hashed read

end

section

variable (store : StoreDirConfig) (readFile : ReadFile)

def IsInput (drv : Derivation) (path : StorePath) : Prop :=
  ∃ entry ∈ drv.inputDrvs.entries, entry.1 = path

def DirectInput (input drvPath : StorePath) : Prop :=
  ∃ drv, readInvalidDerivation store readFile drvPath = .ok drv ∧ IsInput drv input

def Acyclic : Prop := WellFounded (DirectInput store readFile)

variable {store readFile}

theorem inputs_finite (drv : Derivation) : Set.Finite (IsInput drv) := by
  refine (finite_toSet (drv.inputDrvs.entries.map Prod.fst)).subset ?_
  intro path isInput
  exact mem_map.mpr isInput

theorem direct_inputs_finite (drvPath : StorePath) :
    Set.Finite fun input => DirectInput store readFile input drvPath := by
  cases read : readInvalidDerivation store readFile drvPath with
  | error failure =>
    refine Set.finite_empty.subset ?_
    intro input isInput
    obtain ⟨drv, isRead, _⟩ := isInput
    rw [read] at isRead
    cases isRead
  | ok drv =>
    refine (inputs_finite drv).subset ?_
    intro input isInput
    obtain ⟨other, isRead, inputOf⟩ := isInput
    rw [read] at isRead
    rw [Except.ok.inj isRead]
    exact inputOf

theorem gather_asks (drvName : Bytes) (allowed : StorePath → Prop)
    (inputs : List (StorePath × InputNode)) (start : Gathered)
    (each : ∀ entry ∈ inputs, allowed entry.1) :
    (gatherInputs drvName inputs start).Asks allowed := by
  induction inputs generalizing start with
  | nil => exact trivial
  | cons entry rest ih =>
    rw [forall_mem_cons] at each
    apply asks_bind (asks_ask each.1)
    intro res
    apply asks_bind (asks_of_except _ _)
    intro inputs2
    exact ih _ each.2

theorem hash_calls_ask (sha : Sha256) (drv : Derivation) (maskOutputs : Bool)
    (allowed : StorePath → Prop) (each : ∀ path, IsInput drv path → allowed path) :
    (hashCalls store sha drv maskOutputs).Asks allowed := by
  apply asks_bind (asks_of_except _ _)
  intro type
  split
  · apply asks_bind (asks_of_except _ _)
    intro outputHashes
    exact trivial
  apply asks_bind
  · apply gather_asks
    intro entry member
    exact each entry.1 ⟨entry, member, rfl⟩
  intro gathered
  apply asks_bind (asks_of_except _ _)
  intro text
  exact trivial

structure Enough (store : StoreDirConfig) (sha : Sha256)
    (readFile : ReadFile) (drv : Derivation) (depth : Nat) : Prop where
  input : ∀ path, IsInput drv path → ∀ res, PathHash store sha readFile path res ↔
    plain .outOfDepth (pathCalls store sha readFile) depth path = .ok res
  hash : ∀ maskOutputs hash, HashesTo store sha readFile drv maskOutputs hash ↔
    (hashCalls store sha drv maskOutputs).eval
      (plain .outOfDepth (pathCalls store sha readFile) depth) = .ok hash
  memo : ∀ drvHashes, Filled store sha readFile drvHashes → ∀ maskOutputs hash,
    (hashDerivationModulo store sha readFile depth drv maskOutputs drvHashes).1 = .ok hash ↔
      HashesTo store sha readFile drv maskOutputs hash

theorem exists_enough (acyclic : Acyclic store readFile) (sha : Sha256) (drv : Derivation) :
    ∃ bound, ∀ depth ≥ bound, Enough store sha readFile drv depth := by
  obtain ⟨rank, smaller⟩ := exists_rank acyclic direct_inputs_finite
  refine ⟨(inputs_finite drv).toFinset.sup rank + 1, ?_⟩
  intro depth deep
  have asksBelow : ∀ drvPath, (pathCalls store sha readFile drvPath).Asks
      fun asked => rank asked < rank drvPath := by
    intro drvPath
    rw [pathCalls]
    cases read : readInvalidDerivation store readFile drvPath with
    | error failure => exact trivial
    | ok drv =>
      apply hash_calls_ask
      intro path isInput
      exact smaller path drvPath ⟨drv, read, isInput⟩
  have enough : ∀ path, IsInput drv path → rank path < depth := by
    intro path isInput
    have member := (inputs_finite drv).mem_toFinset.mpr isInput
    exact Nat.lt_of_lt_of_le (Nat.lt_succ_of_le (Finset.le_sup (f := rank) member)) deep
  refine ⟨?_, ?_, ?_⟩
  · intro path isInput res
    refine ⟨fun ⟨other, answered⟩ => ?_, fun answered => ⟨depth, answered⟩⟩
    rw [plain_stable asksBelow (enough path isInput)
      (Nat.lt_of_lt_of_le (enough path isInput) (Nat.le_max_right other depth))]
    exact plain_mono (Nat.le_max_left other depth) answered
  · intro maskOutputs hash
    exact eval_ok_iff asksBelow (hash_calls_ask sha drv maskOutputs _ enough) hash
  · intro drvHashes filled maskOutputs hash
    constructor
    · intro ran
      exact (eval_memo_faithful (memo_faithful depth) _ drvHashes filled.sound).2 hash ran
    · intro ends
      exact eval_memo_finds (memo_faithful depth) (memo_finds depth) _ drvHashes filled.sound
        ((eval_ok_iff asksBelow (hash_calls_ask sha drv maskOutputs _ enough) hash).mp ends)

end

end Bsd.Store.HashModulo
