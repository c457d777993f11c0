import Bsd.Store.HashModulo

/-!
# The check of a derivation against its path

`checkInvariants` recomputes the path of every output and looks it up in the
environment. The hash of the derivation is computed when the first input-addressed
output is met.
-/

namespace Bsd.Store.CheckInvariants

open Lib.Occurrences Lib.OrdMap Lib.Readers Lib.Memo Util.FilePath Util.Hashes Store.Path Calls
open Store.ContentAddresses Store.Derivations Store.HashModulo

section Check

variable (store : StoreDirConfig) (sha : Sha256) (drv : Derivation) (drvPath : StorePath)

def wrongVariable (actual : StorePath) (varName : Bytes) : Failure :=
  .error (ascii "derivation " ++ quoted (printStorePath store drvPath) ++
    ascii " has incorrect environment variable " ++ quoted varName ++ ascii ", should be " ++
    quoted (printStorePath store actual))

def envHasRightPath (actual : StorePath) (varName : Bytes) : Except Failure Unit :=
  match drv.env.get varName with
  | none => .error (wrongVariable store drvPath actual varName)
  | some value => do
      let path ← parseStorePath store value
      if path = actual then pure () else throw (wrongVariable store drvPath actual varName)

def checkInputAddressed (drvName name : Bytes) (path : StorePath) (hashesModulo : DrvHash) :
    Except Failure Unit :=
  match hashesModulo.hashes.get name with
  | none =>
    .error (.error (ascii "derivation " ++ quoted (printStorePath store drvPath) ++
      ascii " has unexpected output " ++ quoted (printStorePath store path) ++
      ascii " (local-store / hashesModulo) named " ++ quoted name))
  | some currentOutputHash => do
      let recomputed ← makeOutputPath store sha name currentOutputHash drvName
      if path = recomputed then envHasRightPath store drv drvPath path name
      else throw (.error (ascii "derivation " ++ quoted (printStorePath store drvPath) ++
        ascii " has incorrect output " ++ quoted (printStorePath store path) ++
        ascii ", should be " ++ quoted (printStorePath store recomputed)))

def checkFixed (drvName name : Bytes) (ca : ContentAddress) : Except Failure Unit := do
  let path ← fixedPath store sha ca drvName name
  envHasRightPath store drv drvPath path name

def lazyHashes : Option DrvHash → Hashing DrvHash
  | some hashes => pure hashes
  | none => hashCalls store sha drv true

def checkOutput (drvName name : Bytes) (hashesModulo : Option DrvHash) :
    DerivationOutput → Hashing (Option DrvHash)
  | .inputAddressed path => do
      let hashes ← lazyHashes store sha drv hashesModulo
      Calls.ofExcept (checkInputAddressed store sha drv drvPath drvName name path hashes)
      pure (some hashes)
  | .caFixed ca => do
      Calls.ofExcept (checkFixed store sha drv drvPath drvName name ca)
      pure hashesModulo
  | _ => pure hashesModulo

def checkOutputs (drvName : Bytes) : List (Bytes × DerivationOutput) → Option DrvHash → Hashing Unit
  | [], _ => pure ()
  | (name, output) :: rest, hashesModulo => do
      let hashesModulo ← checkOutput store sha drv drvPath drvName name hashesModulo output
      checkOutputs drvName rest hashesModulo

def checkCalls : Hashing Unit :=
  if drvPath.isDerivation then
    let drvName := drvPath.name.take (drvPath.name.length - drvExtension.length)
    if drvName = drv.name then do
      let _ ← Calls.ofExcept drv.type
      checkOutputs store sha drv drvPath drvName drv.outputs.entries none
    else
      Calls.ofExcept (.error (.error (ascii "Derivation " ++ quoted (printStorePath store drvPath) ++
        ascii " has name " ++ quoted drv.name ++ ascii " which does not match its path")))
  else Calls.ofExcept (.error .assertion)

/-- `Derivation::checkInvariants`; `depth` bounds the nesting of derivations. -/
def checkInvariants (readFile : ReadFile) (depth : Nat)
    (drvHashes : DrvHashes) : Except Failure Unit × DrvHashes :=
  (checkCalls store sha drv drvPath).evalMemo (pathDerivationModulo store sha readFile depth)
    drvHashes

end Check

section

variable (store : StoreDirConfig) (sha : Sha256) (drv : Derivation)

def EnvHolds (name : Bytes) (path : StorePath) : Prop :=
  ∃ value, drv.env.get name = some value ∧ parseStorePath store value = .ok path

def OutputRight (answer : Answers) : Bytes × DerivationOutput → Prop
  | (name, .inputAddressed path) =>
    ∃ hashes, (hashCalls store sha drv true).eval answer = .ok hashes ∧
      ∃ hash, hashes.hashes.get name = some hash ∧
        makeOutputPath store sha name hash drv.name = .ok path ∧ EnvHolds store drv name path
  | (name, .caFixed ca) =>
    ∃ path, fixedPath store sha ca drv.name name = .ok path ∧ EnvHolds store drv name path
  | _ => True

variable {store sha drv} {drvPath : StorePath} {answer : Answers}

theorem env_has_right_path_iff {actual : StorePath} {varName : Bytes} :
    envHasRightPath store drv drvPath actual varName = .ok () ↔ EnvHolds store drv varName actual := by
  rw [envHasRightPath, EnvHolds]
  cases drv.env.get varName with
  | none => exact iff_of_false nofun nofun
  | some value =>
    cases parsed : parseStorePath store value with
    | error failure =>
      apply iff_of_false
      · intro ran
        simp only [parsed] at ran
        cases ran
      intro holds
      obtain ⟨other, same, isPath⟩ := holds
      rw [← Option.some.inj same, parsed] at isPath
      cases isPath
    | ok path =>
      simp only [parsed]
      change (if path = actual then _ else _) = _ ↔ _
      by_cases right : path = actual
      · rw [if_pos right]
        refine iff_of_true rfl ⟨value, rfl, ?_⟩
        rw [parsed, right]
      rw [if_neg right]
      apply iff_of_false nofun
      intro holds
      obtain ⟨other, same, isPath⟩ := holds
      rw [← Option.some.inj same, parsed] at isPath
      exact right (Except.ok.inj isPath)

variable {name : Bytes}

theorem check_input_addressed_iff (drvPath : StorePath) {path : StorePath} {hashes : DrvHash} :
    checkInputAddressed store sha drv drvPath drv.name name path hashes = .ok () ↔
      ∃ hash, hashes.hashes.get name = some hash ∧
        makeOutputPath store sha name hash drv.name = .ok path ∧ EnvHolds store drv name path := by
  rw [checkInputAddressed]
  cases found : hashes.hashes.get name with
  | none => exact iff_of_false nofun nofun
  | some hash =>
    cases made : makeOutputPath store sha name hash drv.name with
    | error failure =>
      apply iff_of_false
      · intro ran
        simp only [made] at ran
        cases ran
      intro right
      obtain ⟨other, same, isPath, _⟩ := right
      rw [← Option.some.inj same, made] at isPath
      cases isPath
    | ok recomputed =>
      simp only [made]
      change (if path = recomputed then _ else _) = _ ↔ _
      by_cases same : path = recomputed
      · rw [if_pos same, env_has_right_path_iff]
        constructor
        · intro holds
          exact ⟨hash, rfl, by rw [made, same], holds⟩
        · intro right
          obtain ⟨_, _, _, holds⟩ := right
          exact holds
      · rw [if_neg same]
        apply iff_of_false nofun
        intro right
        obtain ⟨other, isHash, isPath, _⟩ := right
        rw [← Option.some.inj isHash, made] at isPath
        exact same (Except.ok.inj isPath).symm

theorem check_fixed_iff (drvPath : StorePath) {ca : ContentAddress} :
    checkFixed store sha drv drvPath drv.name name ca = .ok () ↔
      ∃ path, fixedPath store sha ca drv.name name = .ok path ∧ EnvHolds store drv name path := by
  rw [checkFixed]
  cases made : fixedPath store sha ca drv.name name with
  | error failure => exact iff_of_false nofun nofun
  | ok path =>
    change envHasRightPath store drv drvPath path name = .ok () ↔ _
    rw [env_has_right_path_iff]
    constructor
    · intro holds
      exact ⟨path, rfl, holds⟩
    intro right
    obtain ⟨other, same, holds⟩ := right
    rw [Except.ok.inj same]
    exact holds

/-- The hashes that are kept are the hashes of the derivation. -/
def KeepsHashes (store : StoreDirConfig) (sha : Sha256) (drv : Derivation)
    (answer : Answers) (hashesModulo : Option DrvHash) : Prop :=
  ∀ hashes, hashesModulo = some hashes → (hashCalls store sha drv true).eval answer = .ok hashes

variable {hashesModulo : Option DrvHash}

section

variable (keeps : KeepsHashes store sha drv answer hashesModulo)

include keeps

theorem lazy_hashes_eval : (lazyHashes store sha drv hashesModulo).eval answer =
      (hashCalls store sha drv true).eval answer := by
  cases hashesModulo with
  | none => rfl
  | some hashes => exact (keeps hashes rfl).symm

variable {output : DerivationOutput}

theorem check_output_ok {later : Option DrvHash}
    (ran : (checkOutput store sha drv drvPath drv.name name hashesModulo output).eval answer =
      .ok later) :
    OutputRight store sha drv answer (name, output) ∧ KeepsHashes store sha drv answer later := by
  cases output with
  | inputAddressed path =>
    rw [checkOutput, eval_bind, lazy_hashes_eval keeps] at ran
    obtain ⟨hashes, hashed, ran⟩ := except_bind_ok ran
    rw [eval_bind, eval_of_except] at ran
    obtain ⟨_, checked, kept⟩ := except_bind_ok ran
    refine ⟨⟨hashes, hashed, (check_input_addressed_iff drvPath).mp checked⟩, ?_⟩
    intro other isSome
    rw [← Except.ok.inj kept] at isSome
    rw [← Option.some.inj isSome]
    exact hashed
  | caFixed ca =>
    rw [checkOutput, eval_bind, eval_of_except] at ran
    obtain ⟨_, checked, kept⟩ := except_bind_ok ran
    rw [← Except.ok.inj kept]
    exact ⟨(check_fixed_iff drvPath).mp checked, keeps⟩
  | caFloating | deferred | impure => exact ⟨trivial, Except.ok.inj ran ▸ keeps⟩

theorem check_output_of_right (right : OutputRight store sha drv answer (name, output)) :
    ∃ later, (checkOutput store sha drv drvPath drv.name name hashesModulo output).eval answer =
      .ok later := by
  cases output with
  | inputAddressed path =>
    obtain ⟨hashes, hashed, checked⟩ := right
    refine ⟨some hashes, ?_⟩
    rw [checkOutput, eval_bind, lazy_hashes_eval keeps, hashed]
    change (ofExcept _ >>= _ : Hashing _).eval answer = _
    rw [(check_input_addressed_iff drvPath).mpr checked]
    rfl
  | caFixed ca =>
    refine ⟨hashesModulo, ?_⟩
    rw [checkOutput, (check_fixed_iff drvPath).mpr right]
    rfl
  | caFloating | deferred | impure => exact ⟨hashesModulo, rfl⟩

end

theorem check_outputs_iff {outputs : List (Bytes × DerivationOutput)}
    (keeps : KeepsHashes store sha drv answer hashesModulo) :
    (checkOutputs store sha drv drvPath drv.name outputs hashesModulo).eval answer = .ok () ↔
      ∀ entry ∈ outputs, OutputRight store sha drv answer entry := by
  induction outputs generalizing hashesModulo with
  | nil => exact iff_of_true rfl nofun
  | cons entry rest ih =>
    rw [List.forall_mem_cons, checkOutputs, eval_bind]
    constructor
    · intro ran
      obtain ⟨later, checked, passed⟩ := except_bind_ok ran
      obtain ⟨right, keepsLater⟩ := check_output_ok keeps checked
      exact ⟨right, (ih keepsLater).mp passed⟩
    · intro both
      obtain ⟨later, checked⟩ := check_output_of_right keeps both.1
      rw [checked]
      exact (ih (check_output_ok keeps checked).2).mpr both.2

/-- The check passes for a derivation under its own name with a possible set of outputs,
all of which are right. -/
theorem check_calls_iff : (checkCalls store sha drv drvPath).eval answer = .ok () ↔
      nameFromPath drvPath = .ok drv.name ∧ (∃ type, drv.type = .ok type) ∧
        ∀ entry ∈ drv.outputs.entries, OutputRight store sha drv answer entry := by
  rw [checkCalls, nameFromPath]
  by_cases isDrv : drvPath.isDerivation = true
  · rw [if_pos isDrv, if_pos isDrv, Except.ok.injEq]
    by_cases named : drvPath.name.take (drvPath.name.length - drvExtension.length) = drv.name
    · rw [if_pos named, and_iff_right named, named]
      cases drv.type with
      | error failure => exact iff_of_false nofun fun both => nomatch both.1
      | ok type =>
        rw [and_iff_right ⟨type, rfl⟩]
        exact check_outputs_iff fun hashes impossible => nomatch impossible
    · rw [if_neg named]
      exact iff_of_false nofun fun all => named all.1
  · rw [if_neg isDrv, if_neg isDrv]
    exact iff_of_false nofun fun all => nomatch all.1

variable {allowed : StorePath → Prop}

theorem check_calls_asks (asks : (hashCalls store sha drv true).Asks allowed) :
    (checkCalls store sha drv drvPath).Asks allowed := by
  have loop : ∀ (outputs : List (Bytes × DerivationOutput)) (drvName : Bytes)
      (hashesModulo : Option DrvHash),
      (checkOutputs store sha drv drvPath drvName outputs hashesModulo).Asks allowed := by
    intro outputs drvName
    induction outputs with
    | nil => exact fun _ => trivial
    | cons entry rest ih =>
      intro hashesModulo
      refine asks_bind ?_ ih
      cases entry.2 with
      | inputAddressed path =>
        apply asks_bind
        · cases hashesModulo with
          | none => exact asks
          | some hashes => exact trivial
        · intro hashes
          exact asks_bind (asks_of_except _ _) fun _ => trivial
      | caFixed ca => exact asks_bind (asks_of_except _ _) fun _ => trivial
      | caFloating | deferred | impure => exact trivial
  rw [checkCalls]
  split
  · dsimp only
    split
    · exact asks_bind (asks_of_except _ _) fun _ => loop _ _ _
    · exact trivial
  · exact trivial

end

end Bsd.Store.CheckInvariants
