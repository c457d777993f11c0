import Bsd.Store.DerivationReread
import Bsd.Store.HashModulo

/-!
# Fixed outputs hide where they come from

A fixed output enters the hashes of the derivations that use it only with its name
and its content address. If it is made by another derivation, and the derivations
that depend on it name their inputs accordingly, then all hashes stay as they are.
-/

namespace Bsd.Store.HashProvenance

open Lib.Occurrences Lib.OrdMap Lib.Memo Util.FilePath Util.Hashes Store.Path Store.ContentAddresses
  List SortedMap
open Store.Derivations Store.DerivationRoundTrip Store.DerivationReread Store.HashModulo

/-- The node made of the nodes that come together under one path: their outputs
and, level by level, their children. -/
inductive Merged : List ChildNode → ChildNode → Prop
  | node {nodes : List ChildNode} {value : Finset Bytes} {childMap : ChildMap} :
      nodes ≠ [] →
      (∀ name, name ∈ value ↔ ∃ part ∈ nodes, name ∈ part.value) →
      (∀ name, name ∈ childMap.map Prod.fst ↔ ∃ part ∈ nodes, name ∈ part.childMap.map Prod.fst) →
      (∀ entry ∈ childMap, Merged
        (nodes.flatMap fun part =>
          (part.childMap.filter fun child => child.1 = entry.1).map Prod.snd) entry.2) →
      Merged nodes (.node value childMap)

variable {node : ChildNode}

theorem Merged.parts {nodes : List ChildNode} (merged : Merged nodes node) :
    nodes ≠ [] ∧ (∀ name, name ∈ node.value ↔ ∃ part ∈ nodes, name ∈ part.value) ∧
      ∀ name, name ∈ node.childMap.map Prod.fst ↔
        ∃ part ∈ nodes, name ∈ part.childMap.map Prod.fst := by
  cases merged with
  | node nonempty values children _ => exact ⟨nonempty, values, children⟩

def nodesNamed (rename : StorePath → StorePath) (drv : Derivation) (path : StorePath) :
    List ChildNode :=
  (drv.inputDrvs.entries.filter fun entry => rename entry.1 = path).map fun entry => entry.2.val

structure Renamed (rename : StorePath → StorePath) (drv other : Derivation) : Prop where
  name : other.name = drv.name
  outputs : other.outputs = drv.outputs
  inputSrcs : other.inputSrcs = drv.inputSrcs
  platform : other.platform = drv.platform
  builder : other.builder = drv.builder
  args : other.args = drv.args
  env : other.env = drv.env
  present : ∀ path, IsInput drv path → IsInput other (rename path)
  nodes : ∀ entry ∈ other.inputDrvs.entries, Merged (nodesNamed rename drv entry.1) entry.2.val

section Renaming

variable {rename : StorePath → StorePath} {drv other : Derivation}

theorem mem_nodes_named {path : StorePath} : node ∈ nodesNamed rename drv path ↔
      ∃ entry ∈ drv.inputDrvs.entries, rename entry.1 = path ∧ entry.2.val = node := by
  rw [nodesNamed, mem_map]
  constructor
  · intro found
    obtain ⟨entry, member, same⟩ := found
    rw [mem_filter, decide_eq_true_iff] at member
    exact ⟨entry, member.1, member.2, same⟩
  · intro found
    obtain ⟨entry, member, named, same⟩ := found
    exact ⟨entry, mem_filter.mpr ⟨member, decide_eq_true named⟩, same⟩

theorem Renamed.origin (renamed : Renamed rename drv other) {entry : StorePath × InputNode}
    (member : entry ∈ other.inputDrvs.entries) :
    ∃ origin ∈ drv.inputDrvs.entries, rename origin.1 = entry.1 := by
  obtain ⟨nonempty, _, _⟩ := (renamed.nodes entry member).parts
  obtain ⟨node, inside⟩ := exists_mem_of_ne_nil _ nonempty
  obtain ⟨origin, originMember, named, _⟩ := mem_nodes_named.mp inside
  exact ⟨origin, originMember, named⟩

theorem Renamed.value_iff (renamed : Renamed rename drv other) {entry : StorePath × InputNode}
    (member : entry ∈ other.inputDrvs.entries) (name : Bytes) :
    name ∈ entry.2.val.value ↔ ∃ origin ∈ drv.inputDrvs.entries,
      rename origin.1 = entry.1 ∧ name ∈ origin.2.val.value := by
  obtain ⟨_, values, _⟩ := (renamed.nodes entry member).parts
  rw [values]
  constructor
  · intro found
    obtain ⟨part, inside, used⟩ := found
    obtain ⟨origin, originMember, named, same⟩ := mem_nodes_named.mp inside
    exact ⟨origin, originMember, named, same ▸ used⟩
  · intro found
    obtain ⟨origin, originMember, named, used⟩ := found
    exact ⟨origin.2.val, mem_nodes_named.mpr ⟨origin, originMember, named, rfl⟩, used⟩

variable {origin : StorePath × InputNode}

theorem Renamed.image (renamed : Renamed rename drv other) (member : origin ∈ drv.inputDrvs.entries) :
    ∃ entry ∈ other.inputDrvs.entries, entry.1 = rename origin.1 :=
  renamed.present origin.1 ⟨origin, member, rfl⟩

theorem has_dynamic_iff {derivation : Derivation} : hasDynamicDrvDep derivation = true ↔
      ∃ entry ∈ derivation.inputDrvs.entries, ∃ name, name ∈ entry.2.val.childMap.map Prod.fst := by
  rw [hasDynamicDrvDep, any_eq_true]
  apply exists_congr
  intro entry
  cases entry.2.val.childMap with
  | nil | cons => simp

theorem Renamed.dynamic (renamed : Renamed rename drv other) :
    hasDynamicDrvDep other = hasDynamicDrvDep drv := by
  rw [Bool.eq_iff_iff, has_dynamic_iff, has_dynamic_iff]
  constructor
  · intro found
    obtain ⟨entry, member, name, isChild⟩ := found
    obtain ⟨_, _, children⟩ := (renamed.nodes entry member).parts
    obtain ⟨part, inside, childOf⟩ := (children name).mp isChild
    obtain ⟨origin, originMember, _, same⟩ := mem_nodes_named.mp inside
    exact ⟨origin, originMember, name, same ▸ childOf⟩
  · intro found
    obtain ⟨origin, originMember, name, isChild⟩ := found
    obtain ⟨entry, member, named⟩ := renamed.image originMember
    obtain ⟨_, _, children⟩ := (renamed.nodes entry member).parts
    have inside := mem_nodes_named.mpr ⟨origin, originMember, named.symm, rfl⟩
    exact ⟨entry, member, name, (children name).mpr ⟨origin.2.val, inside, isChild⟩⟩

variable {answer otherAnswer : Answers}

def SameAnswers (rename : StorePath → StorePath) (drv : Derivation)
    (answer otherAnswer : Answers) : Prop :=
  ∀ path, IsInput drv path → ∀ res, answer path = .ok res ↔ otherAnswer (rename path) = .ok res

theorem SameAnswers.entry (same : SameAnswers rename drv answer otherAnswer)
    (member : origin ∈ drv.inputDrvs.entries) (res : DrvHash) :
    answer origin.1 = .ok res ↔ otherAnswer (rename origin.1) = .ok res :=
  same origin.1 ⟨origin, member, rfl⟩ res

section

variable (renamed : Renamed rename drv other)

include renamed

section

variable (same : SameAnswers rename drv answer otherAnswer)

include same

theorem Renamed.answered :
    Answered answer drv.inputDrvs.entries ↔ Answered otherAnswer other.inputDrvs.entries := by
  constructor
  · intro answered entry member
    obtain ⟨origin, originMember, named⟩ := renamed.origin member
    obtain ⟨res, isAnswer, _⟩ := answered origin originMember
    rw [same.entry originMember, named] at isAnswer
    refine ⟨res, isAnswer, ?_⟩
    intro name used
    obtain ⟨user, userMember, userNamed, usedThere⟩ := (renamed.value_iff member name).mp used
    obtain ⟨userRes, userAnswer, hashes⟩ := answered user userMember
    rw [same.entry userMember, userNamed, isAnswer] at userAnswer
    rw [Except.ok.inj userAnswer]
    exact hashes name usedThere
  · intro answered origin originMember
    obtain ⟨entry, member, named⟩ := renamed.image originMember
    obtain ⟨res, isAnswer, hashes⟩ := answered entry member
    rw [named, ← same.entry originMember] at isAnswer
    refine ⟨res, isAnswer, ?_⟩
    intro name used
    exact hashes name ((renamed.value_iff member name).mpr ⟨origin, originMember, named.symm, used⟩)

theorem Renamed.refers (key name : Bytes) : Refers answer drv.inputDrvs.entries key name ↔
      Refers otherAnswer other.inputDrvs.entries key name := by
  constructor
  · intro refers
    obtain ⟨origin, originMember, used, res, isAnswer, hash⟩ := refers
    obtain ⟨entry, member, named⟩ := renamed.image originMember
    rw [same.entry originMember, ← named] at isAnswer
    exact ⟨entry, member,
      (renamed.value_iff member name).mpr ⟨origin, originMember, named.symm, used⟩,
      res, isAnswer, hash⟩
  · intro refers
    obtain ⟨entry, member, used, res, isAnswer, hash⟩ := refers
    obtain ⟨origin, originMember, named, usedThere⟩ := (renamed.value_iff member name).mp used
    rw [← named, ← same.entry originMember] at isAnswer
    exact ⟨origin, originMember, usedThere, res, isAnswer, hash⟩

theorem Renamed.defers :
    Defers answer drv.inputDrvs.entries ↔ Defers otherAnswer other.inputDrvs.entries := by
  constructor
  · intro defers
    obtain ⟨origin, originMember, res, isAnswer, isDeferred⟩ := defers
    obtain ⟨entry, member, named⟩ := renamed.image originMember
    rw [same.entry originMember, ← named] at isAnswer
    exact ⟨entry, member, res, isAnswer, isDeferred⟩
  · intro defers
    obtain ⟨entry, member, res, isAnswer, isDeferred⟩ := defers
    obtain ⟨origin, originMember, named⟩ := renamed.origin member
    rw [← named, ← same.entry originMember] at isAnswer
    exact ⟨origin, originMember, res, isAnswer, isDeferred⟩

end

theorem Renamed.parts : SameParts drv other :=
  ⟨renamed.dynamic.symm, renamed.outputs.symm, renamed.inputSrcs.symm, renamed.platform.symm,
    renamed.builder.symm, renamed.args.symm, renamed.env.symm⟩

theorem Renamed.hash_calls {store : StoreDirConfig} {sha : Sha256}
    (same : SameAnswers rename drv answer otherAnswer) (maskOutputs : Bool) (hash : DrvHash) :
    (hashCalls store sha drv maskOutputs).eval answer = .ok hash ↔
      (hashCalls store sha other maskOutputs).eval otherAnswer = .ok hash := by
  have use : SameUse answer otherAnswer drv.inputDrvs.entries other.inputDrvs.entries :=
    ⟨renamed.answered same, renamed.refers same, renamed.defers same⟩
  exact use.hash_calls renamed.parts renamed.name.symm

end

end Renaming

section

variable (store : StoreDirConfig) (readFile otherFile : ReadFile)

/-- A fixed-output derivation with this name and content address. -/
structure IsFixedOutput (drv : Derivation) (name : Bytes) (ca : ContentAddress) : Prop where
  name : drv.name = name
  outputs : drv.outputs.entries = [(ascii "out", .caFixed ca)]

/-- The inputs of a derivation, their inputs and so on, but not those of `fixed`. -/
inductive Within (fixed : StorePath) (drv : Derivation) : StorePath → Prop
  | direct {path : StorePath} : IsInput drv path → Within fixed drv path
  | step {path input : StorePath} : Within fixed drv path → path ≠ fixed →
      DirectInput store readFile input path → Within fixed drv input

/-- The derivation at `fixed` is replaced by one with the same name and content
address. All others below `drv` only get new names for their inputs. -/
structure Replaced (rename : StorePath → StorePath) (fixed : StorePath) (drv other : Derivation) :
    Prop where
  renamed : Renamed rename drv other
  fixedOutput : ∃ name ca before after, IsFixedOutput before name ca ∧ IsFixedOutput after name ca ∧
    readInvalidDerivation store readFile fixed = .ok before ∧
    readInvalidDerivation store otherFile (rename fixed) = .ok after
  intermediate : ∀ path, Within store readFile fixed drv path → path ≠ fixed →
    ∃ before after, readInvalidDerivation store readFile path = .ok before ∧
      readInvalidDerivation store otherFile (rename path) = .ok after ∧ Renamed rename before after

variable {store readFile otherFile} {sha : Sha256} {ca : ContentAddress} {drv : Derivation}

theorem fixed_type {name : Bytes}
    (fixedOutput : IsFixedOutput drv name ca) : drv.type = .ok (.contentAddressed false true) := by
  rw [Derivation.type, fixedOutput.outputs]
  rfl

theorem fixed_hashes_to {name : Bytes} (fixedOutput : IsFixedOutput drv name ca) (hash : DrvHash) :
    HashesTo store sha readFile drv false hash ↔
      (fixedHashes store sha name [(ascii "out", .caFixed ca)]).map
        (fun outputHashes => ⟨assignAll outputHashes, .regular⟩) = .ok hash := by
  rw [HashesTo]
  simp [hash_calls_fixed (fixed_type fixedOutput) rfl, fixedOutput.name, fixedOutput.outputs]

variable {rename : StorePath → StorePath} {drv other : Derivation}

section

variable (acyclic : Acyclic store readFile) (otherAcyclic : Acyclic store otherFile)

include acyclic otherAcyclic

theorem renamed_hashes_to (renamed : Renamed rename drv other)
    (same : ∀ path, IsInput drv path → ∀ res,
      PathHash store sha readFile path res ↔ PathHash store sha otherFile (rename path) res)
    (maskOutputs : Bool) (hash : DrvHash) :
    HashesTo store sha readFile drv maskOutputs hash ↔
      HashesTo store sha otherFile other maskOutputs hash := by
  obtain ⟨bound, enough⟩ := exists_enough acyclic sha drv
  obtain ⟨otherBound, otherEnough⟩ := exists_enough otherAcyclic sha other
  have deep := enough (max bound otherBound) (le_max_left _ _)
  have otherDeep := otherEnough (max bound otherBound) (le_max_right _ _)
  rw [deep.hash, otherDeep.hash]
  apply renamed.hash_calls
  intro path isInput res
  rw [← deep.input path isInput, ← otherDeep.input _ (renamed.present path isInput)]
  exact same path isInput res

theorem replaced_path_hash {fixed : StorePath}
    (replaced : Replaced store readFile otherFile rename fixed drv other) (path : StorePath)
    (within : Within store readFile fixed drv path) (res : DrvHash) :
    PathHash store sha readFile path res ↔ PathHash store sha otherFile (rename path) res := by
  -- the inputs of a derivation have their answers before it has its own
  induction path using acyclic.induction generalizing res with
  | _ path ih =>
    by_cases isFixed : path = fixed
    · obtain ⟨name, ca, before, after, beforeFixed, afterFixed, readBefore, readAfter⟩ :=
        replaced.fixedOutput
      rw [isFixed, path_hash_iff readBefore, path_hash_iff readAfter,
        fixed_hashes_to beforeFixed, fixed_hashes_to afterFixed]
    obtain ⟨before, after, readBefore, readAfter, renamed⟩ :=
      replaced.intermediate path within isFixed
    rw [path_hash_iff readBefore, path_hash_iff readAfter]
    apply renamed_hashes_to acyclic otherAcyclic renamed
    intro input isInput inputRes
    have direct : DirectInput store readFile input path := ⟨before, readBefore, isInput⟩
    exact ih input direct (Within.step within isFixed direct) inputRes

end

/-- The hashes of a derivation do not tell which derivation makes a fixed output
that it depends on, whatever is in the tables of hashes. -/
theorem fixed_output_provenance_hidden (sha : Sha256) {rename : StorePath → StorePath}
    {fixed : StorePath} {drv other : Derivation} (acyclic : Acyclic store readFile)
    (otherAcyclic : Acyclic store otherFile)
    (replaced : Replaced store readFile otherFile rename fixed drv other) :
    ∃ bound, ∀ depth ≥ bound, ∀ otherDepth ≥ bound, ∀ drvHashes otherHashes,
      Filled store sha readFile drvHashes → Filled store sha otherFile otherHashes →
      ∀ maskOutputs hash,
        (hashDerivationModulo store sha readFile depth drv maskOutputs drvHashes).1 = .ok hash ↔
        (hashDerivationModulo store sha otherFile otherDepth other maskOutputs otherHashes).1 =
          .ok hash := by
  obtain ⟨bound, enough⟩ := exists_enough acyclic sha drv
  obtain ⟨otherBound, otherEnough⟩ := exists_enough otherAcyclic sha other
  refine ⟨max bound otherBound, ?_⟩
  intro depth deep otherDepth otherDeep drvHashes otherHashes filled otherFilled maskOutputs hash
  have isEnough := enough depth (le_trans (le_max_left _ _) deep)
  have otherIsEnough := otherEnough otherDepth (le_trans (le_max_right _ _) otherDeep)
  rw [isEnough.memo drvHashes filled, otherIsEnough.memo otherHashes otherFilled]
  apply renamed_hashes_to acyclic otherAcyclic replaced.renamed
  intro path isInput res
  exact replaced_path_hash acyclic otherAcyclic replaced path (Within.direct isInput) res

end

def sourceAddress : ContentAddress := ⟨.flat, ⟨.sha256, List.replicate 32 0, zero_hash_size⟩⟩

def fetchDrv (builder : Bytes) : Derivation where
  name := ascii "src"
  outputs := emplaceAll [(ascii "out", .caFixed sourceAddress)]
  inputSrcs := ∅
  platform := ascii "x86_64-linux"
  builder := builder
  args := []
  env := assignAll []
  inputDrvs := assignAll []

def curlPath : StorePath := ⟨List.replicate 32 48 ++ ascii "-src.drv", by decide +kernel⟩

def wgetPath : StorePath := ⟨List.replicate 32 49 ++ ascii "-src.drv", by decide +kernel⟩

def fetchFile (path : StorePath) : Except Failure Bytes :=
  if path = curlPath then unparse usualStore sumSha (fetchDrv (ascii "/bin/curl")) false none
  else if path = wgetPath then unparse usualStore sumSha (fetchDrv (ascii "/bin/wget")) false none
  else .error (.error (ascii "no such file"))

def userDrv (path : StorePath) : Derivation where
  name := ascii "user"
  outputs := emplaceAll [(ascii "out", .deferred)]
  inputSrcs := ∅
  platform := ascii "x86_64-linux"
  builder := ascii "/bin/sh"
  args := []
  env := assignAll []
  inputDrvs := assignAll [(path, makeNode {ascii "out"} (assignAll []))]

theorem fetch_drv_read (builder : Bytes) (path : StorePath)
    (name : nameFromPath path = .ok (ascii "src"))
    (file : fetchFile path = unparse usualStore sumSha (fetchDrv builder) false none) :
    readInvalidDerivation usualStore fetchFile path = .ok (fetchDrv builder) := by
  have named : Named (fetchDrv builder) := by
    constructor
    · intro entry member
      rw [mem_singleton.mp member]
      decide +kernel
    · exact nofun
  have printable : Printable usualStore (fetchDrv builder) := by
    have plainPlatform : DerivationText.Clean (ascii "x86_64-linux") := by decide
    have goodName : checkName (ascii "src") = .ok () := by decide +kernel
    refine ⟨?_, nofun, nofun, plainPlatform⟩
    intro entry member
    rw [mem_singleton.mp member]
    exact ⟨by decide, ⟨nofun, nofun⟩, goodName⟩
  obtain ⟨text, printed, parsed⟩ := printable_round_trip usualStore sumSha _ named printable
  rw [show (fetchDrv builder).name = ascii "src" from rfl] at parsed
  simp [readInvalidDerivation, file, printed, name, bind, Except.bind, parsed]

theorem curl_read :
    readInvalidDerivation usualStore fetchFile curlPath = .ok (fetchDrv (ascii "/bin/curl")) :=
  fetch_drv_read _ _ (by decide +kernel) (if_pos rfl)

theorem wget_read :
    readInvalidDerivation usualStore fetchFile wgetPath = .ok (fetchDrv (ascii "/bin/wget")) :=
  fetch_drv_read _ _ (by decide +kernel) ((if_neg (by decide +kernel)).trans (if_pos rfl))

theorem curl_hashed (sha : Sha256) : ∃ res, PathHash usualStore sha fetchFile curlPath res ∧
      ∃ hash, res.hashes.get (ascii "out") = some hash := by
  have fixedOutput : IsFixedOutput (fetchDrv (ascii "/bin/curl")) (ascii "src") sourceAddress :=
    ⟨rfl, rfl⟩
  have hashed : ∃ res, (fixedHashes usualStore sha (ascii "src")
      [(ascii "out", .caFixed sourceAddress)]).map
        (fun outputHashes => (⟨assignAll outputHashes, .regular⟩ : DrvHash)) = .ok res ∧
      ∃ hash, res.hashes.get (ascii "out") = some hash :=
    ⟨_, rfl, _, rfl⟩
  obtain ⟨res, isRes, isHash⟩ := hashed
  exact ⟨res, (path_hash_iff curl_read).mpr ((fixed_hashes_to fixedOutput res).mpr isRes), isHash⟩

/-- A derivation that uses the output of the other one, or an output of it, has a hash. -/
theorem user_hashed (sha : Sha256) {drv : Derivation} (isType : drv.type = .ok (.inputAddressed true))
    (printed : ∀ inputs2, ∃ text, preimage usualStore sha drv false inputs2 = .ok text)
    (inputs : ∀ entry ∈ drv.inputDrvs.entries,
      entry.1 = curlPath ∧ entry.2.val.value ⊆ {ascii "out"}) :
    ∃ hash, HashesTo usualStore sha fetchFile drv false hash := by
  obtain ⟨res, ⟨depth, answered⟩, isHash⟩ := curl_hashed sha
  have allAnswered : Answered (plain .outOfDepth (pathCalls usualStore sha fetchFile) depth)
      drv.inputDrvs.entries := by
    intro entry member
    obtain ⟨isCurl, used⟩ := inputs entry member
    refine ⟨res, isCurl ▸ answered, ?_⟩
    intro name isUsed
    rw [Finset.mem_singleton.mp (used isUsed)]
    exact isHash
  obtain ⟨gathered, ran⟩ := gather_answered drv.name allAnswered
    ⟨kindOf (.inputAddressed true), empty⟩
  obtain ⟨text, isText⟩ := printed gathered.inputs2
  exact ⟨_, depth, (hash_calls_ok_iff isType rfl).mpr ⟨gathered, ran, text, isText, rfl⟩⟩

theorem user_drv_hashed (sha : Sha256) :
    ∃ hash, HashesTo usualStore sha fetchFile (userDrv curlPath) false hash := by
  refine user_hashed sha rfl (fun _ => ⟨_, rfl⟩) ?_
  intro entry member
  rw [mem_singleton.mp member]
  exact ⟨rfl, subset_rfl⟩

theorem fetch_no_input (input path : StorePath) : ¬ DirectInput usualStore fetchFile input path := by
  intro direct
  obtain ⟨drv, read, entry, member, _⟩ := direct
  have noInputs : drv.inputDrvs.entries = [] := by
    by_cases isCurl : path = curlPath
    · rw [isCurl, curl_read] at read
      rw [← Except.ok.inj read]
      rfl
    by_cases isWget : path = wgetPath
    · rw [isWget, wget_read] at read
      rw [← Except.ok.inj read]
      rfl
    have missing : fetchFile path = .error (.error (ascii "no such file")) := by
      rw [fetchFile, if_neg isCurl, if_neg isWget]
    rw [readInvalidDerivation, missing] at read
    cases read
  rw [noInputs] at member
  cases member

theorem fetch_acyclic : Acyclic usualStore fetchFile :=
  ⟨fun path => Acc.intro path fun input direct => absurd direct (fetch_no_input input path)⟩

theorem fetch_replaced :
    Replaced usualStore fetchFile fetchFile (fun _ => wgetPath) curlPath (userDrv curlPath)
      (userDrv wgetPath) := by
  have onlyInput : ∀ path, IsInput (userDrv curlPath) path → path = curlPath := by
    intro path isInput
    obtain ⟨entry, member, same⟩ := isInput
    rw [← same, mem_singleton.mp member]
  refine ⟨⟨rfl, rfl, rfl, rfl, rfl, rfl, rfl, ?_, ?_⟩, ?_, ?_⟩
  · intro path _
    exact ⟨_, mem_singleton.mpr rfl, rfl⟩
  · intro entry member
    rw [mem_singleton.mp member]
    refine Merged.node (cons_ne_nil _ _) ?_ ?_ nofun
    · intro name
      exact ⟨fun used => ⟨_, mem_singleton.mpr rfl, used⟩, fun used => by
          obtain ⟨part, isPart, used⟩ := used
          rw [mem_singleton.mp isPart] at used
          exact used⟩
    intro name
    refine iff_of_false nofun ?_
    intro used
    obtain ⟨part, isPart, used⟩ := used
    rw [mem_singleton.mp isPart] at used
    cases used
  · exact ⟨ascii "src", sourceAddress, _, _, ⟨rfl, rfl⟩, ⟨rfl, rfl⟩, curl_read, wget_read⟩
  · intro path within notCurl
    cases within with
    | direct isInput => exact absurd (onlyInput path isInput) notCurl
    | step _ _ direct => exact absurd direct (fetch_no_input path _)

theorem fixed_output_provenance_hidden_fetch :
    Replaced usualStore fetchFile fetchFile (fun _ => wgetPath) curlPath (userDrv curlPath)
        (userDrv wgetPath) ∧
      ∃ bound, ∀ depth ≥ bound, ∀ hash,
        (hashDerivationModulo usualStore sumSha fetchFile depth (userDrv curlPath) true
          empty).1 = .ok hash ↔
        (hashDerivationModulo usualStore sumSha fetchFile depth (userDrv wgetPath) true
          empty).1 = .ok hash := by
  obtain ⟨bound, same⟩ :=
    fixed_output_provenance_hidden sumSha fetch_acyclic fetch_acyclic fetch_replaced
  refine ⟨fetch_replaced, bound, ?_⟩
  intro depth deep hash
  exact same depth deep depth deep _ _ Filled.empty Filled.empty true hash

/-- Whatever calls have filled the table, and whatever the evaluator has entered, as long as it
is read back: what is found with the table is found by plain recursion, and what plain recursion
finds within the depth is found with the table. -/
theorem drv_hashes_transparent {store : StoreDirConfig} {sha : Sha256}
    {readFile : ReadFile} {entries : List (StorePath × Derivation)}
    {drvHashes : DrvHashes} (reached : Reached store sha readFile entries drvHashes)
    (reread : Reread store readFile entries) (depth : Nat) (drv : Derivation) (maskOutputs : Bool)
    (hash : DrvHash) :
    ((hashDerivationModulo store sha readFile depth drv maskOutputs drvHashes).1 = .ok hash →
      HashesTo store sha readFile drv maskOutputs hash) ∧
    ((hashCalls store sha drv maskOutputs).eval
        (plain .outOfDepth (pathCalls store sha readFile) depth) = .ok hash →
      (hashDerivationModulo store sha readFile depth drv maskOutputs drvHashes).1 = .ok hash) := by
  have sound := reached.sound reread
  constructor
  · exact (eval_memo_faithful (memo_faithful depth) _ _ sound).2 hash
  · exact eval_memo_finds (memo_faithful depth) (memo_finds depth) _ _ sound

/-- The evaluator has entered the hash of the source, and the derivation that uses it is hashed
with the table as it is without. -/
theorem drv_hashes_transparent_entered : ∃ depth drvHashes hash,
    Reached usualStore sumSha fetchFile [(curlPath, fetchDrv (ascii "/bin/curl"))] drvHashes ∧
      (hashDerivationModulo usualStore sumSha fetchFile depth (userDrv curlPath) false
        drvHashes).1 = .ok hash ∧
      HashesTo usualStore sumSha fetchFile (userDrv curlPath) false hash := by
  obtain ⟨hash, depth, evaluated⟩ := user_drv_hashed sumSha
  have reached : ∃ drvHashes, Reached usualStore sumSha fetchFile
      [(curlPath, fetchDrv (ascii "/bin/curl"))] drvHashes :=
    ⟨_, .entered 0 curlPath _ _ .empty rfl⟩
  obtain ⟨drvHashes, reached⟩ := reached
  have reread : Reread usualStore fetchFile [(curlPath, fetchDrv (ascii "/bin/curl"))] := by
    intro entry member
    rw [mem_singleton.mp member]
    exact curl_read
  obtain ⟨plainly, found⟩ :=
    drv_hashes_transparent reached reread depth (userDrv curlPath) false hash
  exact ⟨depth, drvHashes, hash, reached, found evaluated, plainly (found evaluated)⟩

end Bsd.Store.HashProvenance
