import Bsd.Store.CheckInvariants
import Bsd.Store.HashText
import Bsd.Store.PathFingerprints

/-!
# The masked text of a derivation

When the outputs are masked, neither their paths nor the variables named after them
are printed. Entering the paths of the outputs into a derivation whose environment has
these variables leaves its masked hash as it was.
-/

namespace Bsd.Store.MaskedText

open List Lib.Occurrences Lib.OrdMap Lib.Readers Lib.Memo Util.FilePath Util.Hashes Store.Path
  SortedMap
open Store.ContentAddresses Store.Derivations Store.DerivationRoundTrip Store.HashModulo
open Store.HashText Store.CheckInvariants Store.PathFingerprints

def isBlank : DerivationOutput → Bool
  | .inputAddressed _ => true
  | .deferred => true
  | _ => false

def Blank (drv : Derivation) : Prop := ∀ entry ∈ drv.outputs.entries, isBlank entry.2 = true

def outputNames (drv : Derivation) : List Bytes := drv.outputs.entries.map Prod.fst

def maskedEnv (drv : Derivation) : SortedMap Bytes Bytes :=
  drv.env.mapEntries fun name value => if (drv.outputs.get name).isSome then [] else value

def maskedText (store : StoreDirConfig) (drv : Derivation)
    (inputs2 : OutputsByHash) : Bytes :=
  textBefore store drv ((outputNames drv).map fun name => unparseFields name ([], [], []))
      (unparseInputs store drv (some (actualInputs inputs2))) ++
    (printUnquotedString drv.platform ++ textAfter { drv with env := maskedEnv drv })

variable {entries : List (Bytes × DerivationOutput)}

theorem unparse_outputs_blank (store : StoreDirConfig) (sha : Sha256) (drvName : Bytes)
    (blank : ∀ entry ∈ entries, isBlank entry.2 = true) :
    unparseOutputs store sha drvName true entries =
      .ok ((entries.map Prod.fst).map fun name => unparseFields name ([], [], [])) := by
  induction entries with
  | nil => rfl
  | cons entry rest ih =>
    obtain ⟨name, output⟩ := entry
    rw [forall_mem_cons] at blank
    rw [unparseOutputs, ih blank.2]
    cases output with
    | inputAddressed | deferred => rfl
    | caFixed | caFloating | impure => cases blank.1

theorem unparse_env_masked (drv : Derivation) :
    unparseEnv drv true = unparseEnv { drv with env := maskedEnv drv } false := by
  change _ = (drv.env.entries.map _).map _
  rw [map_map]
  rfl

variable {drv : Derivation}

theorem preimage_masked (blank : Blank drv) (store : StoreDirConfig) (sha : Sha256)
    (inputs2 : OutputsByHash) :
    preimage store sha drv true inputs2 = .ok (maskedText store drv inputs2) := by
  rw [preimage, unparse, unparse_outputs_blank store sha drv.name blank, unparse_env_masked]
  rw [maskedText, textBefore, textAfter]
  simp only [listRest, printList, printStrings, append_assoc]
  rfl

/-- Two derivations that differ in the values of outputs and in the environment only. -/
structure SameShape (left right : Derivation) : Prop where
  name : left.name = right.name
  names : outputNames left = outputNames right
  inputDrvs : left.inputDrvs = right.inputDrvs
  inputSrcs : left.inputSrcs = right.inputSrcs
  platform : left.platform = right.platform
  builder : left.builder = right.builder
  args : left.args = right.args

variable {deferred : Bool}

section

variable {left right : Derivation}

theorem SameShape.before (same : SameShape left right) (store : StoreDirConfig)
    (outputs inputs : List Bytes) : textBefore store left outputs inputs =
      textBefore store right outputs inputs := by
  rw [textBefore, textBefore, unparseHead, unparseHead, hasDynamicDrvDep, hasDynamicDrvDep,
    same.inputDrvs, same.inputSrcs]

theorem masked_text_eq_iff (same : SameShape left right) (store : StoreDirConfig)
    (inputs2 : OutputsByHash) :
    maskedText store left inputs2 = maskedText store right inputs2 ↔
      maskedEnv left = maskedEnv right := by
  rw [maskedText, same.before, same.names, same.platform]
  constructor
  · intro sameText
    exact (text_after_inj (append_cancel_left (append_cancel_left sameText))).2.2
  · intro sameEnv
    rw [sameEnv, same.builder, same.args]
    rfl

variable {answer : Answers} {store : StoreDirConfig} {hashes : DrvHash}
  {sha : Sha256}

theorem hash_calls_masked (blank : Blank drv) (isType : drv.type = .ok (.inputAddressed deferred)) :
    (hashCalls store sha drv true).eval answer = .ok hashes ↔
      ∃ gathered, (gatherInputs drv.name drv.inputDrvs.entries
          ⟨.regular, empty⟩).eval answer = .ok gathered ∧
        hashes = ⟨assignAll ((outputNames drv).map fun name =>
          (name, hashString sha (maskedText store drv gathered.inputs2))), gathered.kind⟩ := by
  rw [hash_calls_ok_iff isType rfl]
  apply exists_congr
  intro gathered
  apply and_congr_right
  intro _
  rw [preimage_masked blank, outputNames, map_map]
  constructor
  · intro found
    obtain ⟨text, isText, isHash⟩ := found
    rw [isHash, ← Except.ok.inj isText]
    rfl
  · intro isHash
    exact ⟨_, rfl, isHash⟩

end

section

variable {drv : Derivation}

theorem check_floating_algo_blank (blank : ∀ entry ∈ entries, isBlank entry.2 = true)
    (algo : Option HashAlgorithm) : checkFloatingAlgo entries algo = .ok () := by
  induction entries with
  | nil => rw [checkFloatingAlgo]
  | cons entry rest ih =>
    obtain ⟨name, output⟩ := entry
    rw [forall_mem_cons] at blank
    cases output with
    | inputAddressed | deferred => exact ih blank.2
    | caFixed | caFloating | impure => cases blank.1

theorem type_input_addressed (nonempty : drv.outputs.entries ≠ [])
    (all : ∀ entry ∈ drv.outputs.entries, isInputAddressed entry.2 = true) :
    drv.type = .ok (.inputAddressed false) := by
  have blank : ∀ entry ∈ drv.outputs.entries, isBlank entry.2 = true := by
    intro entry member
    have isPath := all entry member
    revert isPath
    cases entry.2 <;> simp [isInputAddressed, isBlank]
  rw [Derivation.type, check_floating_algo_blank blank]
  rw [if_neg nonempty, if_pos (all_eq_true.mpr all)]
  rfl

variable {output : DerivationOutput}

theorem check_floating_algo_same (same : ∀ entry ∈ entries, entry.2 = output)
    (known : Option HashAlgorithm)
    (agrees : ∀ method algo, output = .caFloating method algo → known = none ∨ known = some algo) :
    checkFloatingAlgo entries known = .ok () := by
  induction entries generalizing known with
  | nil => rw [checkFloatingAlgo]
  | cons entry rest ih =>
    obtain ⟨name, kind⟩ := entry
    rw [forall_mem_cons] at same
    obtain ⟨isOutput, sameRest⟩ := same
    change kind = output at isOutput
    rw [isOutput]
    cases output with
    | caFloating method algo =>
      have later := ih sameRest (some algo) (by
        intro _ other isSame
        cases isSame
        exact .inr rfl)
      rcases agrees method algo rfl with isNone | isSome
      · rw [isNone]
        exact later
      · rw [isSome, checkFloatingAlgo, if_pos rfl]
        exact later
    | inputAddressed | caFixed | deferred | impure => exact ih sameRest known agrees

def typeOf : DerivationOutput → DerivationType
  | .inputAddressed _ => .inputAddressed false
  | .caFixed _ => .contentAddressed false true
  | .caFloating _ _ => .contentAddressed true false
  | .deferred => .inputAddressed true
  | .impure _ _ => .impure

theorem type_same (nonempty : drv.outputs.entries ≠ [])
    (same : ∀ entry ∈ drv.outputs.entries, entry.2 = output) (notFixed : isCaFixed output = false) :
    drv.type = .ok (typeOf output) := by
  have kinds : ∀ kind : DerivationOutput → Bool,
      (drv.outputs.entries.all fun entry => kind entry.2) = kind output := by
    intro kind
    obtain ⟨first, isFirst⟩ := exists_mem_of_ne_nil _ nonempty
    cases isKind : kind output with
    | true =>
      apply all_eq_true.mpr
      intro entry member
      rw [same entry member, isKind]
    | false =>
      apply all_eq_false.mpr
      refine ⟨first, isFirst, ?_⟩
      rw [same first isFirst, isKind]
      exact Bool.false_ne_true
  rw [Derivation.type, check_floating_algo_same same none fun _ _ _ => .inl rfl]
  rw [if_neg nonempty, kinds isInputAddressed, kinds isCaFixed, kinds isCaFloating,
    kinds isDeferred, kinds isImpure]
  cases output with
  | caFixed ca => cases notFixed
  | inputAddressed | caFloating | deferred | impure => rfl

end

structure Entered (store : StoreDirConfig) (sha : Sha256) (hashes : DrvHash)
    (before after : Derivation) : Prop where
  shape : SameShape before after
  output : ∀ name ∈ outputNames before, ∃ hash path, hashes.hashes.get name = some hash ∧
    makeOutputPath store sha name hash before.name = .ok path ∧
    after.outputs.get name = some (.inputAddressed path) ∧
    after.env.get name = some (printStorePath store path)
  otherwise : ∀ name, name ∉ outputNames before → after.env.get name = before.env.get name

section Entering

variable {store : StoreDirConfig} {sha : Sha256} {hashes : DrvHash} {before after : Derivation}
  {answer : Answers} {name : Bytes}

theorem is_output_iff : (drv.outputs.get name).isSome = true ↔ name ∈ outputNames drv := by
  rw [outputNames, mem_keys_iff, Option.isSome_iff_exists]

variable {entry : Bytes × DerivationOutput}

section

variable (entered : Entered store sha hashes before after)

include entered

theorem Entered.input_addressed (member : entry ∈ after.outputs.entries) :
    ∃ hash path, entry.2 = .inputAddressed path ∧ entry.1 ∈ outputNames before ∧
      hashes.hashes.get entry.1 = some hash ∧
      makeOutputPath store sha entry.1 hash before.name = .ok path ∧
      after.env.get entry.1 = some (printStorePath store path) := by
  have named : entry.1 ∈ outputNames before := by
    rw [entered.shape.names]
    exact mem_map.mpr ⟨entry, member, rfl⟩
  obtain ⟨hash, path, isHash, isPath, isOutput, inEnv⟩ := entered.output entry.1 named
  rw [SortedMap.mem_iff_get.mp member, Option.some.injEq] at isOutput
  exact ⟨hash, path, isOutput, named, isHash, isPath, inEnv⟩

theorem Entered.all_input_addressed :
    ∀ entry ∈ after.outputs.entries, isInputAddressed entry.2 = true := by
  intro entry member
  obtain ⟨_, path, isOutput, _⟩ := entered.input_addressed member
  rw [isOutput]
  rfl

theorem Entered.blank : Blank after := by
  intro entry member
  obtain ⟨_, path, isOutput, _⟩ := entered.input_addressed member
  rw [isOutput]
  rfl

theorem Entered.nonempty (nonempty : before.outputs.entries ≠ []) : after.outputs.entries ≠ [] := by
  intro empty
  have names := entered.shape.names
  rw [outputNames, outputNames, empty, map_nil, map_eq_nil_iff] at names
  exact nonempty names

theorem Entered.masked_env_iff : maskedEnv before = maskedEnv after ↔
      ∀ name ∈ outputNames before, (before.env.get name).isSome = true := by
  have sameNames : ∀ name, (after.outputs.get name).isSome = (before.outputs.get name).isSome := by
    intro name
    rw [Bool.eq_iff_iff, is_output_iff, is_output_iff, entered.shape.names]
  constructor
  · intro same name named
    obtain ⟨_, path, _, _, _, inEnv⟩ := entered.output name named
    have gets := congrArg (fun map => map.get name) same
    rw [maskedEnv, maskedEnv, get_map_entries, get_map_entries, inEnv] at gets
    cases found : before.env.get name with
    | none =>
      rw [found] at gets
      cases gets
    | some value => rfl
  · intro present
    apply get_ext
    intro name
    rw [maskedEnv, maskedEnv, get_map_entries, get_map_entries, sameNames]
    by_cases named : name ∈ outputNames before
    · obtain ⟨_, path, _, _, _, inEnv⟩ := entered.output name named
      obtain ⟨value, found⟩ := Option.isSome_iff_exists.mp (present name named)
      rw [inEnv, found, is_output_iff.mpr named]
      rfl
    · rw [entered.otherwise name named]

theorem Entered.outputs_right (blank : Blank before)
    (isType : before.type = .ok (.inputAddressed deferred)) (nonempty : before.outputs.entries ≠ [])
    (hashed : (hashCalls store sha before true).eval answer = .ok hashes)
    (present : ∀ name ∈ outputNames before, (before.env.get name).isSome = true) :
    ∀ entry ∈ after.outputs.entries, OutputRight store sha after answer entry := by
  have afterType := type_input_addressed (entered.nonempty nonempty) entered.all_input_addressed
  have rehashed : (hashCalls store sha after true).eval answer = .ok hashes := by
    rw [hash_calls_masked blank isType] at hashed
    obtain ⟨gathered, ran, isHash⟩ := hashed
    rw [hash_calls_masked entered.blank afterType, ← entered.shape.name, ← entered.shape.inputDrvs]
    refine ⟨gathered, ran, ?_⟩
    rw [isHash, entered.shape.names, (masked_text_eq_iff entered.shape store gathered.inputs2).mpr
      (entered.masked_env_iff.mpr present)]
  intro entry member
  obtain ⟨name, output⟩ := entry
  obtain ⟨hash, path, isOutput, _, isHash, isPath, inEnv⟩ := entered.input_addressed member
  change output = .inputAddressed path at isOutput
  rw [isOutput]
  refine ⟨hashes, rehashed, hash, isHash, ?_, printStorePath store path, inEnv, ?_⟩
  · rw [← entered.shape.name]
    exact isPath
  · apply parse_print_store_path
    rw [make_store_path_separator isPath]
    decide

end

/-- The path of one output goes into the outputs and into the environment; `missing` is
thrown for an output without a hash. -/
def enterPath (store : StoreDirConfig) (sha : Sha256) (missing : Bytes → Failure)
    (hashModulo : DrvHash) (drv : Derivation) (outputName : Bytes) : Except Failure Derivation :=
  match hashModulo.hashes.get outputName with
  | none => .error (missing outputName)
  | some hash => do
      let outPath ← makeOutputPath store sha outputName hash drv.name
      pure { drv with
        env := drv.env.assign outputName (printStorePath store outPath)
        outputs := drv.outputs.assign outputName (.inputAddressed outPath) }

structure EnteredFor (store : StoreDirConfig) (sha : Sha256) (hashes : DrvHash)
    (names : List Bytes) (before after : Derivation) : Prop where
  shape : SameShape before after
  output : ∀ name ∈ names, ∃ hash path, hashes.hashes.get name = some hash ∧
    makeOutputPath store sha name hash before.name = .ok path ∧
    after.outputs.get name = some (.inputAddressed path) ∧
    after.env.get name = some (printStorePath store path)
  otherwise : ∀ name, name ∉ names →
    after.env.get name = before.env.get name ∧ after.outputs.get name = before.outputs.get name

variable {missing : Bytes → Failure}

theorem enter_path_entered (named : name ∈ outputNames before)
    (ran : enterPath store sha missing hashes before name = .ok after) :
    EnteredFor store sha hashes [name] before after := by
  rw [enterPath] at ran
  cases found : hashes.hashes.get name with
  | none =>
    rw [found] at ran
    cases ran
  | some hash =>
    rw [found] at ran
    obtain ⟨path, made, isAfter⟩ := except_bind_ok ran
    rw [← Except.ok.inj isAfter]
    refine ⟨⟨rfl, keys_ext fun key => ?_, rfl, rfl, rfl, rfl, rfl⟩, ?_, ?_⟩
    · rw [get_assign]
      split
      next same =>
        rw [same, is_output_iff.mpr named]
        rfl
      · rfl
    · intro other isName
      rw [mem_singleton.mp isName]
      refine ⟨hash, path, found, made, ?_, ?_⟩
      · exact (get_assign _ _ _ _).trans (if_pos rfl)
      · exact (get_assign _ _ _ _).trans (if_pos rfl)
    · intro other differs
      have apart : other ≠ name := fun same => differs (mem_singleton.mpr same)
      constructor
      · exact (get_assign _ _ _ _).trans (if_neg apart)
      · exact (get_assign _ _ _ _).trans (if_neg apart)

theorem SameShape.trans {first second third : Derivation} (left : SameShape first second)
    (right : SameShape second third) : SameShape first third where
  name := left.name.trans right.name
  names := left.names.trans right.names
  inputDrvs := left.inputDrvs.trans right.inputDrvs
  inputSrcs := left.inputSrcs.trans right.inputSrcs
  platform := left.platform.trans right.platform
  builder := left.builder.trans right.builder
  args := left.args.trans right.args

variable {names : List Bytes}

theorem enter_paths_entered (named : ∀ name ∈ names, name ∈ outputNames before)
    (ran : names.foldlM (enterPath store sha missing hashes) before = .ok after) :
    EnteredFor store sha hashes names before after := by
  induction names generalizing before with
  | nil =>
    rw [← Except.ok.inj ran]
    exact ⟨⟨rfl, rfl, rfl, rfl, rfl, rfl, rfl⟩, nofun, fun _ _ => ⟨rfl, rfl⟩⟩
  | cons name rest ih =>
    obtain ⟨middle, first, further⟩ := except_bind_ok ran
    rw [forall_mem_cons] at named
    have here := enter_path_entered named.1 first
    have later := ih (by
      intro other member
      rw [← here.shape.names]
      exact named.2 other member) further
    refine ⟨here.shape.trans later.shape, ?_, ?_⟩
    · intro other member
      by_cases again : other ∈ rest
      · rw [here.shape.name]
        exact later.output other again
      · have same := (mem_cons.mp member).resolve_right again
        rw [(later.otherwise other again).1, (later.otherwise other again).2]
        exact here.output other (mem_singleton.mpr same)
    · intro other absent
      rw [mem_cons, not_or] at absent
      have kept := later.otherwise other absent.2
      have keptHere := here.otherwise other fun same => absent.1 (mem_singleton.mp same)
      exact ⟨kept.1.trans keptHere.1, kept.2.trans keptHere.2⟩

theorem EnteredFor.entered (entered : EnteredFor store sha hashes names before after)
    (named : ∀ name, name ∈ names ↔ name ∈ outputNames before) :
    Entered store sha hashes before after where
  shape := entered.shape
  output := fun name isOutput => entered.output name ((named name).mpr isOutput)
  otherwise := fun name differs => (entered.otherwise name fun isName =>
    differs ((named name).mp isName)).1

def outputFingerprint (store : StoreDirConfig) (drvName name : Bytes) (hash : Hash) : Bytes :=
  fingerprint store (ascii "output:" ++ name) hash (outputPathName drvName name)

def HashedTexts (store : StoreDirConfig) (sha : Sha256) (before after : Derivation)
    (inputs2 : OutputsByHash) : Set Bytes :=
  let masked := {maskedText store before inputs2, maskedText store after inputs2}
  masked ∪ {text | ∃ name ∈ outputNames before, ∃ source ∈ masked,
    text = outputFingerprint store before.name name (hashString sha source)}

/-- No two of these texts have the same hash, nor a short hash in common. -/
structure NoCollisions (sha : Sha256) (texts : Set Bytes) : Prop where
  digests : Set.InjOn sha.digest texts
  short : Set.InjOn (fun text => compressHash (hashString sha text) 20) texts

theorem assign_all_names {hash found : Hash}
    (isFound : (assignAll (names.map fun name => (name, hash))).get name = some found) :
    found = hash := by
  have member := get_assign_all isFound
  obtain ⟨_, _, same⟩ := mem_map.mp member
  exact (Prod.mk.inj same).2.symm

theorem Entered.variables_of_right (entered : Entered store sha hashes before after)
    (blank : Blank before) (isType : before.type = .ok (.inputAddressed deferred))
    {gathered : Gathered}
    (gathers : (gatherInputs before.name before.inputDrvs.entries
      ⟨.regular, empty⟩).eval answer = .ok gathered)
    (hashed : (hashCalls store sha before true).eval answer = .ok hashes)
    (noCollisions : NoCollisions sha (HashedTexts store sha before after gathered.inputs2))
    (member : entry ∈ after.outputs.entries) (right : OutputRight store sha after answer entry) :
    ∀ name ∈ outputNames before, (before.env.get name).isSome = true := by
  have nonempty : before.outputs.entries ≠ [] := type_outputs_ne isType
  have afterType := type_input_addressed (entered.nonempty nonempty) entered.all_input_addressed
  rw [hash_calls_masked blank isType] at hashed
  obtain ⟨_, sameGathered, isHashes⟩ := hashed
  rw [gathers] at sameGathered
  rw [← Except.ok.inj sameGathered] at isHashes
  obtain ⟨name, output⟩ := entry
  obtain ⟨hash, path, isOutput, named, isHash, isPath, _⟩ := entered.input_addressed member
  change output = .inputAddressed path at isOutput
  rw [isOutput] at right
  obtain ⟨rehashes, rehashed, rehash, isRehash, isRepath, _⟩ := right
  rw [hash_calls_masked entered.blank afterType, ← entered.shape.name,
    ← entered.shape.inputDrvs] at rehashed
  obtain ⟨_, sameGathered, isRehashes⟩ := rehashed
  rw [gathers] at sameGathered
  rw [← Except.ok.inj sameGathered] at isRehashes
  rw [isHashes] at isHash
  rw [isRehashes] at isRehash
  rw [assign_all_names isHash] at isPath
  rw [assign_all_names isRehash, ← entered.shape.name] at isRepath
  have samePrint := noCollisions.short (.inr ⟨name, named, _, .inl rfl, rfl⟩)
    (.inr ⟨name, named, _, .inr rfl, rfl⟩) (same_short_hash isPath isRepath)
  rw [outputFingerprint, outputFingerprint, fingerprint_eq, fingerprint_eq] at samePrint
  have sameHash := (after_type_inj (append_cancel_left samePrint)).1
  have sameText := noCollisions.digests (.inl (.inl rfl)) (.inl (.inr rfl)) (digest_eq sameHash)
  rw [masked_text_eq_iff entered.shape] at sameText
  exact entered.masked_env_iff.mp sameText

end Entering

end Bsd.Store.MaskedText
