import Bsd.Expr.DerivationStrict

/-!
# The evaluator's derivations pass the store's check

The paths of the outputs are computed from the derivation without them and then written
into it. The variables of the outputs are there before the hash is taken, so that the
masked text stays the same. The table of hashes agrees with the store throughout: hashing
is a function of the path.
-/

namespace Bsd.Expr.DerivationValidity

open Lib.Occurrences Lib.OrdMap Lib.Readers Lib.Memo Lib.StateRuns Util.FilePath Util.Hashes
  SortedMap
open Store.Path Store.ContentAddresses Store.Derivations Store.HashModulo Store.CheckInvariants
open Store.PathFingerprints Store.MaskedText Store.Resolution Expr.DerivationStrict

variable {drvPath : StorePath} {hash : DrvHash} {depth : Nat}

section

variable {store : StoreDirConfig} {sha : Sha256} {drv : Derivation}

def Extends (before after : ReadFile) : Prop :=
  ∀ path text, before path = .ok text → after path = .ok text

variable {before after : ReadFile}

theorem extends_read (grown : Extends before after)
    (read : readInvalidDerivation store before drvPath = .ok drv) :
    readInvalidDerivation store after drvPath = .ok drv := by
  cases file : before drvPath with
  | error failure =>
    simp only [readInvalidDerivation, file] at read
    cases failure <;> cases read
  | ok text =>
    rw [← read]
    simp [readInvalidDerivation, file, grown drvPath text file]

theorem extends_plain (grown : Extends before after)
    (found : plain .outOfDepth (pathCalls store sha before) depth drvPath = .ok hash) :
    plain .outOfDepth (pathCalls store sha after) depth drvPath = .ok hash := by
  induction depth generalizing drvPath hash with
  | zero => cases found
  | succ depth ih =>
    rw [plain, pathCalls, Calls.eval_bind, Calls.eval_of_except] at found ⊢
    obtain ⟨drv, read, hashed⟩ := except_bind_ok found
    rw [extends_read grown read]
    exact Calls.eval_mono (fun _ _ => ih) hashed

end

section

variable {Memory Value Json : Type} (store : StoreDirConfig) (sha : Sha256)

/-- The table holds, for paths of derivations in the store, the hashes found there. -/
def Consistent (world : World Memory) : Prop :=
  Sound .outOfDepth (pathCalls store sha world.readFile) world.drvHashes

abbrev Preserves {Result : Type} (run : Eval Memory Result) : Prop :=
  Keeps (Consistent store sha) (fun _ => True) run

/-- Evaluating values keeps the worlds consistent. Values whose evaluation makes derivations
do so by `derivation_strict_consistent`, as long as the files that are written read back. -/
structure Honest (evaluator : Evaluator Memory Value Json) : Prop where
  forceBool : ∀ value, Preserves store sha (evaluator.forceBool value)
  isNull : ∀ value, Preserves store sha (evaluator.isNull value)
  forceList : ∀ value, Preserves store sha (evaluator.forceList value)
  coerceToString : ∀ value, Preserves store sha (evaluator.coerceToString value)
  forceString : ∀ value, Preserves store sha (evaluator.forceString value)
  forceStringNoCtx : ∀ value, Preserves store sha (evaluator.forceStringNoCtx value)
  printValueAsJSON : ∀ value, Preserves store sha (evaluator.printValueAsJSON value)

variable {store sha} {evaluator : Evaluator Memory Value Json} {enabled : Enabled}

theorem keeps_result {Result : Type} (result : Except Failure Result) :
    Preserves store sha (StateT.lift result : Eval Memory Result) := by
  intro before value after held ran
  rw [(run_lift_ok ran).2]
  exact ⟨held, trivial⟩

section

variable (honest : Honest store sha evaluator)

include honest

theorem Honest.structured (key : Bytes) (value : Value) (jsonObject : SortedMap Bytes Json)
    (state : Attributes Json) :
    Preserves store sha (structuredAttribute evaluator enabled key value jsonObject state) := by
  rw [structuredAttribute]
  split
  · exact keeps_pure trivial
  apply keeps_bind (honest.printValueAsJSON value)
  intro json _
  dsimp only
  split
  · exact keeps_bind (honest.forceString value) fun _ _ => keeps_pure trivial
  split
  · exact keeps_bind (honest.forceStringNoCtx value) fun _ _ => keeps_result _
  split
  · apply keeps_bind (honest.forceList value)
    intro elems _
    have each : ∀ names elem, True → Preserves store sha (forceNames evaluator names elem) := by
      intro names elem _
      exact keeps_bind (honest.forceStringNoCtx elem) fun _ _ => keeps_pure trivial
    exact keeps_bind (keeps_foldlM each elems trivial) fun names _ =>
      keeps_bind (keeps_result _) fun _ _ => keeps_pure trivial
  · exact keeps_pure trivial

theorem Honest.plain (key : Bytes) (value : Value) (state : Attributes Json) :
    Preserves store sha (plainAttribute evaluator enabled key value state) := by
  apply keeps_bind (honest.coerceToString value)
  intro coerced _
  dsimp only
  split
  · exact keeps_bind (keeps_result _) fun _ _ => keeps_pure trivial
  · exact keeps_result _

theorem Honest.flag (name key : Bytes) (value : Value) :
    Preserves store sha (forceFlag evaluator name key value) := by
  rw [forceFlag]
  split
  · exact honest.forceBool value
  · exact keeps_pure trivial

theorem Honest.value (key : Bytes) (value : Value) (state : Attributes Json) :
    Preserves store sha (processValue evaluator enabled key value state) := by
  apply keeps_bind (honest.flag _ key value)
  intro contentAddressed _
  split
  · exact keeps_bind (keeps_result _) fun _ _ => keeps_pure trivial
  apply keeps_bind (honest.flag _ key value)
  intro isImpure _
  split
  · exact keeps_bind (keeps_result _) fun _ _ => keeps_pure trivial
  split
  · apply keeps_bind (honest.forceList value)
    intro elems _
    refine keeps_foldlM ?_ elems trivial
    intro state elem _
    exact keeps_bind (honest.coerceToString elem) fun _ _ => keeps_pure trivial
  · rw [otherAttribute]
    split
    · exact honest.structured key value _ state
    · exact honest.plain key value state

theorem Honest.attribute (ignoreNulls : Bool) (state : Attributes Json) (attr : Bytes × Value) :
    Preserves store sha (processAttribute evaluator enabled ignoreNulls state attr) := by
  rw [processAttribute]
  split
  · exact keeps_pure trivial
  apply keeps_bind
  · rw [skipsNull]
    split
    · exact honest.isNull attr.2
    · exact keeps_pure trivial
  · intro skips _
    split
    · exact keeps_pure trivial
    · exact honest.value attr.1 attr.2 state

theorem Honest.attributes (attrs : SortedMap Bytes Value) :
    Preserves store sha (processAttributes evaluator enabled attrs) := by
  have option : ∀ name, Preserves store sha (forceAttribute evaluator attrs name) := by
    intro name
    rw [forceAttribute]
    split
    · exact honest.forceBool _
    · exact keeps_pure trivial
  apply keeps_bind (option _)
  intro structured _
  apply keeps_bind (option _)
  intro ignoreNulls _
  apply keeps_bind (keeps_foldlM (fun state attr _ => honest.attribute ignoreNulls state attr) _ trivial)
  intro state _
  exact keeps_result _

end

theorem hash_modulo_ok {drv : Derivation} {maskOutputs : Bool} {world after : World Memory}
    (consistent : Consistent store sha world)
    (ran : hashModulo store sha depth drv maskOutputs world = .ok (hash, after)) :
    after.readFile = world.readFile ∧ Consistent store sha after ∧
      HashesTo store sha world.readFile drv maskOutputs hash := by
  obtain ⟨sound, evaluates⟩ := eval_memo_faithful (memo_faithful depth)
    (hashCalls store sha drv maskOutputs) world.drvHashes consistent
  rw [hashModulo] at ran
  split at ran
  next found drvHashes hashed =>
    cases ran
    refine ⟨rfl, ?_, evaluates _ (congrArg Prod.fst hashed)⟩
    obtain rfl : _ = drvHashes := congrArg Prod.snd hashed
    exact sound
  · cases ran

theorem Consistent.extends {world after : World Memory} (consistent : Consistent store sha world)
    (sameHashes : after.drvHashes = world.drvHashes)
    (grown : Extends world.readFile after.readFile) : Consistent store sha after := by
  intro path hash found
  rw [sameHashes] at found
  obtain ⟨depth, ended⟩ := consistent path hash found
  exact ⟨depth, extends_plain grown ended⟩

end

def PathInEnv (store : StoreDirConfig) (sha : Sha256) (drv : Derivation) :
    Bytes × DerivationOutput → Prop
  | (name, .inputAddressed path) => drv.env.get name = some (printStorePath store path)
  | (name, .caFixed ca) => ∃ path, fixedPath store sha ca drv.name name = .ok path ∧
      drv.env.get name = some (printStorePath store path)
  | _ => True

structure Valid (store : StoreDirConfig) (sha : Sha256)
    (readFile : ReadFile) (drv : Derivation) : Prop where
  hasType : ∃ type, drv.type = .ok type
  inEnv : ∀ entry ∈ drv.outputs.entries, PathInEnv store sha drv entry
  right : ∃ depth, ∀ entry ∈ drv.outputs.entries,
    OutputRight store sha drv (plain .outOfDepth (pathCalls store sha readFile) depth) entry

section Outputs

variable {store : StoreDirConfig} {sha : Sha256} {readFile : ReadFile}

def isPathless : DerivationOutput → Bool
  | .inputAddressed _ => false
  | .caFixed _ => false
  | _ => true

theorem valid_pathless {drv : Derivation} {output : DerivationOutput} (pathless : isPathless output = true)
    (nonempty : drv.outputs.entries ≠ []) (same : ∀ entry ∈ drv.outputs.entries, entry.2 = output) :
    Valid store sha readFile drv := by
  have trivially : ∀ entry ∈ drv.outputs.entries, PathInEnv store sha drv entry ∧
      ∀ answer, OutputRight store sha drv answer entry := by
    intro entry member
    obtain ⟨name, kind⟩ := entry
    have isOutput : kind = output := same _ member
    rw [isOutput]
    cases output with
    | inputAddressed | caFixed => cases pathless
    | caFloating | deferred | impure => exact ⟨trivial, fun _ => trivial⟩
  have notFixed : isCaFixed output = false := by
    cases output <;> first | rfl | cases pathless
  exact ⟨⟨_, type_same nonempty same notFixed⟩, fun entry member => (trivially entry member).1,
    0, fun entry member => (trivially entry member).2 _⟩

section

variable (value : Bytes → Bytes) (output : DerivationOutput) (names : List Bytes)
  (drv : Derivation)

theorem set_outputs_eq : setOutputs value output names drv =
      { drv with
        env := names.foldl (fun env name => env.assign name (value name)) drv.env
        outputs := names.foldl (fun outputs name => outputs.assign name output) drv.outputs } := by
  induction names generalizing drv with
  | nil => rfl
  | cons name rest ih => exact ih _

theorem defer_outputs_eq : names.foldl deferOutput drv =
      { drv with
        outputs := names.foldl (fun outputs name => outputs.assign name .deferred) drv.outputs } := by
  induction names generalizing drv with
  | nil => rfl
  | cons name rest ih => exact ih _

end

variable {outputs : SortedMap Bytes DerivationOutput}

theorem assigned_outputs (output : DerivationOutput) (names : List Bytes)
    {before : SortedMap Bytes DerivationOutput}
    (others : ∀ name, name ∉ names → before.get name = none)
    (assigned : outputs = names.foldl (fun outputs name => outputs.assign name output) before) :
    (∀ entry ∈ outputs.entries, entry.2 = output) ∧
      ∀ name, name ∈ outputs.entries.map Prod.fst ↔ name ∈ names := by
  have each := get_assign_each (fun _ => output) names before
  rw [← assigned] at each
  have present : ∀ name value, outputs.get name = some value → name ∈ names := by
    intro name value found
    by_contra absent
    rw [(each name).2 absent, others name absent] at found
    cases found
  constructor
  · intro entry member
    have found := mem_iff_get.mp member
    rw [(each entry.1).1 (present _ _ found)] at found
    exact (Option.some.inj found).symm
  intro name
  rw [mem_keys_iff]
  constructor
  · intro found
    obtain ⟨value, isValue⟩ := found
    exact present name value isValue
  · intro member
    exact ⟨output, (each name).1 member⟩

theorem entries_ne {names : OutputNames}
    (same : ∀ name, name ∈ outputs.entries.map Prod.fst ↔ name ∈ sortedValue names.names) :
    outputs.entries ≠ [] := by
  intro empty
  obtain ⟨name, member⟩ := Finset.nonempty_iff_ne_empty.mpr names.nonempty
  have listed := (same name).mpr ((Finset.mem_sort _).mpr member)
  rw [empty] at listed
  cases listed

section

variable {Memory Json : Type} {state : Attributes Json} {drv made : Derivation}

theorem fixed_output_valid (noOutputs : drv.outputs = empty) {outputHash : Bytes}
    (ran : fixedOutput store sha outputHash state drv = .ok made) :
    made.name = drv.name ∧ Valid store sha readFile made := by
  rw [fixedOutput] at ran
  split at ran
  · obtain ⟨hash, _, ran⟩ := except_bind_ok ran
    obtain ⟨path, isPath, isMade⟩ := except_bind_ok ran
    rw [← Except.ok.inj isMade, noOutputs]
    have inEnv : (drv.env.assign (ascii "out") (printStorePath store path)).get (ascii "out") =
        some (printStorePath store path) := (get_assign _ _ _ _).trans (if_pos rfl)
    have separator : path.separator ≠ 47 := by
      rw [fixed_output_path_separator isPath]
      decide
    refine ⟨rfl, ⟨_, rfl⟩, ?_, 0, ?_⟩
    · intro entry member
      rw [List.mem_singleton.mp member]
      exact ⟨path, isPath, inEnv⟩
    · intro entry member
      rw [List.mem_singleton.mp member]
      exact ⟨path, isPath, _, inEnv, parse_print_store_path store path separator⟩
  · cases ran

theorem floating_outputs_valid (noOutputs : drv.outputs = empty)
    (ran : floatingOutputs sha state drv = .ok made) :
    made.name = drv.name ∧ Valid store sha readFile made := by
  rw [floatingOutputs] at ran
  split at ran
  · cases ran
  rw [← Except.ok.inj ran, set_outputs_eq, noOutputs]
  refine ⟨rfl, ?_⟩
  have nothing : ∀ name, name ∉ sortedValue state.outputs.names →
      (empty : SortedMap Bytes DerivationOutput).get name = none := fun _ _ => rfl
  have assigned := assigned_outputs (floatingOutput state) _ nothing rfl
  refine valid_pathless ?_ (entries_ne assigned.2) assigned.1
  rw [floatingOutput]
  split <;> rfl

variable {world after : World Memory}

section

variable (noOutputs : drv.outputs = SortedMap.empty) (consistent : Consistent store sha world)

include noOutputs consistent

theorem input_addressed_outputs_valid
    (ran : inputAddressedOutputs store sha depth state drv world = .ok (made, after)) :
    made.name = drv.name ∧ after.readFile = world.readFile ∧ Consistent store sha after ∧
      Valid store sha world.readFile made := by
  obtain ⟨hash, middle, hashed, ran⟩ := bind_ok ran
  obtain ⟨sameFiles, stillConsistent, depth, evaluated⟩ := hash_modulo_ok consistent hashed
  generalize isBefore : setOutputs (fun _ => []) .deferred (sortedValue state.outputs.names) drv =
    before at ran evaluated
  rw [set_outputs_eq, noOutputs] at isBefore
  have assigned := assigned_outputs .deferred (sortedValue state.outputs.names) (fun _ _ => rfl)
    (congrArg Derivation.outputs isBefore).symm
  have nonempty := entries_ne assigned.2
  have sameName : before.name = drv.name := by rw [← isBefore]
  cases kind : hash.kind with
  | deferred =>
    rw [kind] at ran
    cases ran
    rw [defer_outputs_eq]
    refine ⟨sameName, sameFiles, stillConsistent, ?_⟩
    have others : ∀ name, name ∉ sortedValue state.outputs.names →
        before.outputs.get name = none := by
      intro name absent
      rw [← Option.not_isSome_iff_eq_none, is_output_iff]
      exact fun named => absent ((assigned.2 name).mp named)
    have reassigned := assigned_outputs .deferred _ others rfl
    exact valid_pathless rfl (entries_ne reassigned.2) reassigned.1
  | regular =>
    rw [kind] at ran
    obtain ⟨entering, isAfter⟩ := run_lift_ok ran
    have entered := (enter_paths_entered (fun name member => (assigned.2 name).mpr member)
      entering).entered fun name => (assigned.2 name).symm
    have blank : Blank before := by
      intro entry member
      rw [assigned.1 entry member]
      rfl
    have isType := type_same nonempty assigned.1 rfl
    have present : ∀ name ∈ outputNames before, (before.env.get name).isSome = true := by
      intro name named
      rw [← isBefore]
      have blanked := (get_assign_each (fun _ => ([] : Bytes)) _ drv.env name).1
        ((assigned.2 name).mp named)
      exact Option.isSome_iff_exists.mpr ⟨_, blanked⟩
    rw [isAfter]
    refine ⟨entered.shape.name.symm.trans sameName, sameFiles, stillConsistent,
      ⟨_, type_input_addressed (entered.nonempty nonempty) entered.all_input_addressed⟩, ?_, depth,
      entered.outputs_right blank isType nonempty evaluated present⟩
    intro entry member
    obtain ⟨_, path, isOutput, _, _, _, inEnv⟩ := entered.input_addressed member
    obtain ⟨name, output⟩ := entry
    change output = .inputAddressed path at isOutput
    rw [isOutput]
    exact inEnv

theorem make_outputs_valid (ran : makeOutputs store sha depth state drv world = .ok (made, after)) :
    made.name = drv.name ∧ after.readFile = world.readFile ∧ Consistent store sha after ∧
      Valid store sha world.readFile made := by
  rw [makeOutputs] at ran
  cases fixed : state.outputHash with
  | some outputHash =>
    rw [fixed] at ran
    obtain ⟨isMade, isAfter⟩ := run_lift_ok ran
    have valid : made.name = drv.name ∧ Valid store sha world.readFile made :=
      fixed_output_valid noOutputs isMade
    exact ⟨valid.1, by rw [isAfter], isAfter ▸ consistent, valid.2⟩
  | none =>
    rw [fixed] at ran
    dsimp only at ran
    split at ran
    · obtain ⟨isMade, isAfter⟩ := run_lift_ok ran
      have valid : made.name = drv.name ∧ Valid store sha world.readFile made :=
        floating_outputs_valid noOutputs isMade
      exact ⟨valid.1, by rw [isAfter], isAfter ▸ consistent, valid.2⟩
    · exact input_addressed_outputs_valid noOutputs consistent ran

end

end

end Outputs

section

variable {store : StoreDirConfig} {sha : Sha256} {drv : Derivation}

/-- Derivations with the outputs the evaluator makes pass the check in every store that has
the files they were made with. -/
theorem Valid.passes {readFile laterFile : ReadFile}
    (valid : Valid store sha readFile drv) (grown : Extends readFile laterFile)
    (named : nameFromPath drvPath = .ok drv.name) : ∃ bound, ∀ depth, bound ≤ depth → ∀ drvHashes,
      Sound .outOfDepth (pathCalls store sha laterFile) drvHashes →
        (checkInvariants store sha drv drvPath laterFile depth drvHashes).1 = .ok () := by
  obtain ⟨bound, right⟩ := valid.right
  refine ⟨bound, ?_⟩
  intro depth enough drvHashes sound
  apply eval_memo_finds (memo_faithful depth) (memo_finds depth) _ _ sound
  apply check_calls_iff.mpr
  refine ⟨named, valid.hasType, ?_⟩
  rintro ⟨name, output⟩ member
  have isRight := right _ member
  cases output with
  | inputAddressed path =>
    obtain ⟨hashes, hashed, rest⟩ := isRight
    exact ⟨hashes, Calls.eval_mono (fun path hash found =>
      plain_mono enough (extends_plain grown found)) hashed, rest⟩
  | caFixed ca => exact isRight
  | caFloating | deferred | impure => exact trivial

theorem written_path_named {contents : Bytes}
    (made : writtenPath store sha drv contents = .ok drvPath) :
    nameFromPath drvPath = .ok drv.name := by
  rw [writtenPath, makeFixedOutputPathFromCA] at made
  split at made
  · have base := make_store_path_base_name made
    have size : ∀ hash : Hash, (printHash32 (compressHash hash 20) ++ ascii "-").length =
        hashLen + 1 := by
      intro hash
      rw [List.length_append, print_hash32_length, compress_hash_length]
      rfl
    have isName : drvPath.name = drv.name ++ drvExtension := by
      rw [StorePath.name, base, ← List.append_assoc]
      exact List.drop_left' (size _)
    rw [nameFromPath, StorePath.isDerivation, isName, if_pos]
    · rw [List.length_append, List.take_left']
      rfl
    · simp [hasSuffix]
  · cases made

variable {Memory Value Json : Type} {evaluator : Evaluator Memory Value Json} {enabled : Enabled}

theorem add_file_extends (drvPath : StorePath) (contents : Bytes) (world : World Memory) :
    Extends world.readFile (addFile drvPath contents world).readFile := by
  intro path text found
  rw [addFile]
  split
  · exact found
  next failure missing =>
    change (if path = drvPath then _ else _) = _
    rw [if_neg]
    · exact found
    · intro same
      rw [same, missing] at found
      cases found

variable {world after : World Memory}

theorem write_derivation_ok {readOnly : Bool}
    (ran : writeDerivation store sha readOnly drv world = .ok (drvPath, after)) :
    nameFromPath drvPath = .ok drv.name ∧ after.drvHashes = world.drvHashes ∧
      Extends world.readFile after.readFile := by
  obtain ⟨contents, _, ran⟩ := except_bind_ok ran
  obtain ⟨path, made, ran⟩ := except_bind_ok ran
  cases ran
  refine ⟨written_path_named made, ?_⟩
  split
  · exact ⟨rfl, fun _ _ found => found⟩
  · refine ⟨?_, add_file_extends drvPath contents world⟩
    rw [addFile]
    split <;> rfl

section

variable (honest : Honest store sha evaluator) {depth : Nat} {readOnly : Bool} {drvName : Bytes}
  {attrs : SortedMap Bytes Value} {written : Written} (consistent : Consistent store sha world)
  (ran : derivationStrictInternal store sha depth readOnly evaluator enabled drvName attrs world =
    .ok (written, after))

include honest consistent ran

theorem derivation_strict_ok : ∃ (readFile : ReadFile) (drvHashes : DrvHashes) (hash : DrvHash),
    Valid store sha readFile written.drv ∧ Extends readFile after.readFile ∧
      nameFromPath written.drvPath = .ok written.drv.name ∧
      Sound .outOfDepth (pathCalls store sha after.readFile) drvHashes ∧
      HashesTo store sha after.readFile written.drv false hash ∧
      after.drvHashes = drvHashes.assign written.drvPath hash := by
  obtain ⟨_, start, checked, ran⟩ := bind_ok ran
  obtain ⟨_, isStart⟩ := run_lift_ok checked
  obtain ⟨state, forced, attributes, ran⟩ := bind_ok ran
  rw [isStart] at attributes
  have stillConsistent := (honest.attributes attrs world state forced consistent attributes).1
  obtain ⟨inputs, sameWorld, context, ran⟩ := bind_ok ran
  obtain ⟨_, _, isPair⟩ := map_ok_iff.mp context
  cases isPair
  obtain ⟨_, _, complete, ran⟩ := bind_ok ran
  rw [(run_lift_ok complete).2] at ran
  obtain ⟨drv, made, making, ran⟩ := bind_ok ran
  obtain ⟨_, sameFiles, madeConsistent, valid⟩ := make_outputs_valid rfl stillConsistent making
  obtain ⟨drvPath, stored, writing, ran⟩ := bind_ok ran
  obtain ⟨named, sameHashes, grown⟩ := write_derivation_ok writing
  obtain ⟨hash, rehashed, hashing, ran⟩ := bind_ok ran
  obtain ⟨storedFiles, sound, hashed⟩ :=
    hash_modulo_ok (madeConsistent.extends sameHashes grown) hashing
  obtain ⟨_, entered, entering, ran⟩ := bind_ok ran
  cases entering
  obtain ⟨outputs, _, strings, ran⟩ := bind_ok ran
  obtain ⟨_, isAfter⟩ := run_lift_ok strings
  cases ran
  rw [isAfter]
  rw [← storedFiles] at grown hashed
  exact ⟨forced.readFile, rehashed.drvHashes, hash, valid, sameFiles ▸ grown, named, sound, hashed,
    rfl⟩

/-- A run whose file reads back as the derivation keeps the table of hashes in step with the
store, so that the evaluation of a value may run it. The file may be another one where the
path was there before, and missing in read-only mode. -/
theorem derivation_strict_consistent
    (readsBack : readInvalidDerivation store after.readFile written.drvPath = .ok written.drv) :
    Consistent store sha after := by
  obtain ⟨_, drvHashes, hash, _, _, _, sound, hashed, isTable⟩ :=
    derivation_strict_ok honest consistent ran
  rw [Consistent, isTable]
  exact sound.assign (hashed.path readsBack)

end

/-- A derivation the evaluator has written passes the check of the store for its path, in
every later state of the store, and its environment has the paths of its outputs. -/
theorem written_derivation_passes (honest : Honest store sha evaluator) {depth : Nat}
    {readOnly : Bool} {drvName : Bytes} {attrs : SortedMap Bytes Value}
    {world after : World Memory} {written : Written} (consistent : Consistent store sha world)
    (ran : derivationStrictInternal store sha depth readOnly evaluator enabled drvName attrs world =
      .ok (written, after)) :
    (∀ entry ∈ written.drv.outputs.entries, PathInEnv store sha written.drv entry) ∧
      ∀ laterFile, Extends after.readFile laterFile → ∃ bound, ∀ depth, bound ≤ depth → ∀ drvHashes,
          Sound .outOfDepth (pathCalls store sha laterFile) drvHashes →
            (checkInvariants store sha written.drv written.drvPath laterFile depth drvHashes).1 =
              .ok () := by
  obtain ⟨readFile, _, _, valid, grown, named, _⟩ := derivation_strict_ok honest consistent ran
  refine ⟨valid.inEnv, ?_⟩
  intro laterFile later
  apply valid.passes _ named
  intro path text found
  exact later path text (grown path text found)

end

def stringEvaluator : Evaluator Unit Bytes Bytes where
  forceBool := fun value => pure (decide (value = ascii "true"))
  isNull := fun _ => pure false
  forceList := fun value => pure [value]
  coerceToString := fun value => pure (value, [])
  forceString := fun value => pure (value, [])
  forceStringNoCtx := fun value => pure value
  printValueAsJSON := fun value => pure (value, [])
  dump := fun _ => .ok []
  computeFSClosure := fun _ drvPath => .ok [drvPath]

theorem string_evaluator_honest (store : StoreDirConfig) (sha : Sha256) :
    Honest store sha stringEvaluator where
  forceBool := fun _ => keeps_pure trivial
  isNull := fun _ => keeps_pure trivial
  forceList := fun _ => keeps_pure trivial
  coerceToString := fun _ => keeps_pure trivial
  forceString := fun _ => keeps_pure trivial
  forceStringNoCtx := fun _ => keeps_pure trivial
  printValueAsJSON := fun _ => keeps_pure trivial

def shellAttributes : SortedMap Bytes Bytes :=
  SortedMap.emplaceAll
    [(ascii "builder", ascii "/bin/sh"), (ascii "system", ascii "x86_64-linux")]

def emptyWorld : World Unit := ⟨(), noFile, SortedMap.empty⟩

def shellRun : Except Failure (Written × World Unit) :=
  derivationStrictInternal usualStore sumSha 0 false stringEvaluator (fun _ => false)
    (ascii "hello") shellAttributes emptyWorld

theorem written_derivation_passes_shell :
    ∃ written after, shellRun = .ok (written, after) ∧ written.drv.outputs.entries ≠ [] ∧
      ∃ bound, ∀ depth, bound ≤ depth →
        (checkInvariants usualStore sumSha written.drv written.drvPath after.readFile depth
          SortedMap.empty).1 = .ok () := by
  have succeeded : (match shellRun with
      | .ok (written, _) => decide (written.drv.outputs.entries ≠ [])
      | .error _ => false) = true := by
    decide +kernel
  have consistent : Consistent usualStore sumSha emptyWorld := sound_empty
  cases ran : shellRun with
  | error failure =>
    rw [ran] at succeeded
    cases succeeded
  | ok result =>
    obtain ⟨written, after⟩ := result
    rw [ran] at succeeded
    obtain ⟨_, later⟩ := written_derivation_passes
      (string_evaluator_honest usualStore sumSha) consistent ran
    obtain ⟨bound, passes⟩ := later after.readFile fun _ _ found => found
    exact ⟨written, after, rfl, of_decide_eq_true succeeded, bound, fun depth enough =>
      passes depth enough SortedMap.empty sound_empty⟩

end Bsd.Expr.DerivationValidity
