import Bsd.Lib.PrefixCodes
import Bsd.Store.DerivedPaths
import Bsd.Store.ValidPaths
import Bsd.Util.Serialise

/-!
# Derived paths as texts

The worker protocol sends a derived path as a text in which `!` stands before the outputs.
The parser splits at the last separator, over and over. The two printers for nested paths,
with `^` and with `!`, call each other.
-/

namespace Bsd.Store.DerivedPaths

open List Lib.Occurrences Lib.Readers Util.FilePath Util.Serialise Store.Path Store.Derivations
  SingleDerivedPath

def SingleDerivedPath.toStringLegacy (store : StoreDirConfig) : SingleDerivedPath → Bytes
  | .opaquePath path => printStorePath store path
  | .built drvPath output => drvPath.toString store ++ ascii "!" ++ output

def DerivedPath.toStringLegacy (store : StoreDirConfig) : DerivedPath → Bytes
  | .opaquePath path => printStorePath store path
  | .built drvPath outputs => drvPath.toStringLegacy store ++ ascii "!" ++ outputs.toString

/-- `\.\.?(-|$)`, which the lookahead of `nameRegexStr` denies. -/
def deniedStart (text : Bytes) : Bool :=
  text.head? = some 46 && ((text.drop 1).head?.all (· = 45) ||
    (text.drop 1).head? = some 46 && (text.drop 2).head?.all (· = 45))

/-- The match of `regex::list(nameRegexStr)`; a name has no comma. -/
def matchesNames : List Bytes → Bool
  | [] => true
  | name :: rest =>
    name ≠ [] && !deniedStart ([44].intercalate (name :: rest)) && name.all isNameCharacter &&
      matchesNames rest

def OutputsSpec.parse (s : Bytes) : Except Failure OutputsSpec :=
  if s = ascii "*" then .ok .all
  else if matchesNames (s.splitOn 44) then
    if nonempty : (tokenizeString s [44]).toFinset.Nonempty then .ok (.names _ nonempty)
    else .error .assertion
  else .error (.error (ascii "invalid outputs specifier " ++ quoted s))

/-- `rfind`, with what is before and after the separator. -/
def splitLast (separator : Byte) : Bytes → Option (Bytes × Bytes)
  | [] => none
  | byte :: rest =>
    match splitLast separator rest with
    | some (front, back) => some (byte :: front, back)
    | none => if byte = separator then some ([], rest) else none

def drvRequireExperiment (dynamicDerivations : Bool) : SingleDerivedPath → Except Failure Unit
  | .opaquePath _ => .ok ()
  | .built _ _ =>
    if dynamicDerivations then .ok ()
    else .error (.error (ascii ("experimental Bsd feature 'dynamic-derivations' is disabled; " ++
      "add '--extra-experimental-features dynamic-derivations' to enable it")))

variable {separator : Byte} {s : Bytes}

theorem split_last_plain (plain : separator ∉ s) : splitLast separator s = none := by
  induction s with
  | nil => rfl
  | cons byte rest ih =>
    rw [mem_cons, not_or] at plain
    rw [splitLast, ih plain.2]
    exact if_neg (Ne.symm plain.1)

theorem split_last_append (front : Bytes) {back : Bytes} (plain : separator ∉ back) :
    splitLast separator (front ++ separator :: back) = some (front, back) := by
  induction front with
  | nil =>
    rw [nil_append, splitLast, split_last_plain plain]
    exact if_pos rfl
  | cons byte front ih => rw [cons_append, splitLast, ih]

theorem exists_last (member : separator ∈ s) :
    ∃ front back, s = front ++ separator :: back ∧ separator ∉ back := by
  obtain ⟨back, front, same, plain⟩ := eq_append_cons_of_mem (mem_reverse.mpr member)
  refine ⟨front.reverse, back.reverse, ?_, fun inBack => plain (mem_reverse.mp inBack)⟩
  rw [← reverse_reverse s, same, reverse_append, reverse_cons, append_assoc]
  rfl

theorem split_last_some {s front back : Bytes} (found : splitLast separator s = some (front, back)) :
    s = front ++ separator :: back := by
  by_cases member : separator ∈ s
  · obtain ⟨first, last, same, plain⟩ := exists_last member
    rw [same, split_last_append first plain] at found
    cases found
    exact same
  · rw [split_last_plain member] at found
    cases found

section

variable (store : StoreDirConfig) (dynamicDerivations : Bool) (separator : Byte)

def parseWithSingle (s : Bytes) : Except Failure SingleDerivedPath :=
  match _found : splitLast separator s with
  | none => do
      let path ← parseStorePath store s
      pure (.opaquePath path)
  | some (front, output) => do
      let drv ← parseWithSingle front
      drvRequireExperiment dynamicDerivations drv
      pure (.built drv output)
termination_by s.length
decreasing_by
  rw [split_last_some _found, List.length_append, List.length_cons]
  omega

def parseWith (s : Bytes) : Except Failure DerivedPath :=
  match splitLast separator s with
  | none => do
      let path ← parseStorePath store s
      pure (.opaquePath path)
  | some (front, outputs) => do
      let drv ← parseWithSingle store dynamicDerivations separator front
      drvRequireExperiment dynamicDerivations drv
      let outputs ← OutputsSpec.parse outputs
      pure (.built drv outputs)

def parseLegacy : Bytes → Except Failure DerivedPath := parseWith store dynamicDerivations 33

def SingleDerivedPath.parse : Bytes → Except Failure SingleDerivedPath :=
  parseWithSingle store dynamicDerivations 94

def DerivedPath.parse : Bytes → Except Failure DerivedPath := parseWith store dynamicDerivations 94

end

/-- A path with outputs; none stands for all of those of a derivation. -/
structure StorePathWithOutputs where
  path : StorePath
  outputs : Finset Bytes

namespace StorePathWithOutputs

def toString (store : StoreDirConfig) (value : StorePathWithOutputs) : Bytes :=
  if value.outputs = ∅ then printStorePath store value.path
  else printStorePath store value.path ++ ascii "!" ++ [44].intercalate (sortedValue value.outputs)

def toDerivedPath (value : StorePathWithOutputs) : DerivedPath :=
  if nonempty : value.outputs.Nonempty then .built (.opaquePath value.path) (.names _ nonempty)
  else if value.path.isDerivation then .built (.opaquePath value.path) .all
  else .opaquePath value.path

def parse (store : StoreDirConfig) (s : Bytes) : Except Failure StorePathWithOutputs := do
  let path ← parseStorePath store (s.takeWhile (· ≠ 33))
  pure ⟨path, (tokenizeString ((s.dropWhile (· ≠ 33)).drop 1) [44]).toFinset⟩

end StorePathWithOutputs

def protocolMinor (version : Nat) : Nat := version % 256

def protocolMajor (version : Nat) : Nat := version / 256 % 256 * 256

/-- `tryFromDerivedPath`, with what the protocol makes of its failures. -/
def oldDerivedPath (store : StoreDirConfig) (version : Nat) :
    DerivedPath → Except Failure StorePathWithOutputs
  | .opaquePath path =>
    if path.isDerivation then
      .error (.error (ascii "trying to request " ++ quoted (printStorePath store path) ++
        ascii (", but daemon protocol " ++ toString (protocolMajor version) ++ "." ++
          toString (protocolMinor version) ++
          " is too old (< 1.29) to request a derivation file")))
    else .ok ⟨path, ∅⟩
  | .built (.opaquePath path) .all => .ok ⟨path, ∅⟩
  | .built (.opaquePath path) (.names outputNames _) => .ok ⟨path, outputNames⟩
  | .built (.built _ _) _ =>
    .error (.error (ascii ("wanted to build a derivation that is itself a build product, but " ++
      "protocols do not support that. Try upgrading the Bsd on the other end of this connection")))

def writeDerivedPath (store : StoreDirConfig) (version : Nat) (req : DerivedPath) :
    Except Failure Bytes :=
  if 30 ≤ protocolMinor version then .ok (writeString (req.toStringLegacy store))
  else do
    let old ← oldDerivedPath store version req
    pure (writeString (old.toString store))

inductive ProtocolFailure where
  | read (failure : ReadError)
  | failure (failure : Failure)
  deriving DecidableEq

abbrev ProtocolRead (Value : Type) := Reader Source ProtocolFailure Value

def ofRead {Value : Type} (reader : Read Value) : ProtocolRead Value := fun source =>
  (reader source).mapError .read

def ofExcept {Value : Type} (result : Except Failure Value) : ProtocolRead Value :=
  match result with
  | .ok value => pure value
  | .error failure => throw (.failure failure)

def readDerivedPath (store : StoreDirConfig) (dynamicDerivations : Bool) (version : Nat) :
    ProtocolRead DerivedPath := do
  let s ← ofRead (readString (sizeLimit - 1))
  if 30 ≤ protocolMinor version then ofExcept (parseLegacy store dynamicDerivations s)
  else do
    let old ← ofExcept (StorePathWithOutputs.parse store s)
    pure old.toDerivedPath

structure IsName (name : Bytes) : Prop where
  nonempty : name ≠ []
  start : deniedStart name = false
  characters : name.all isNameCharacter = true

theorem IsName.plain {name : Bytes} (valid : IsName name) {byte : Byte}
    (other : isNameCharacter byte = false) : byte ∉ name := by
  intro member
  have good := all_eq_true.mp valid.characters byte member
  rw [other] at good
  cases good

theorem IsName.before_comma {name : Bytes} (valid : IsName name) (more : Bytes) :
    deniedStart (name ++ 44 :: more) = false := by
  have start := valid.start
  match name with
  | [] => exact absurd rfl valid.nonempty
  | [_] => simp_all [deniedStart]
  | [_, _] => simp_all [deniedStart]
  | _ :: _ :: _ :: _ => exact start

theorem matches_valid_names {names : List Bytes} (valid : ∀ name ∈ names, IsName name) :
    matchesNames names = true := by
  induction names with
  | nil => rfl
  | cons name rest ih =>
    have here := valid name mem_cons_self
    have start : deniedStart ([44].intercalate (name :: rest)) = false := by
      cases rest with
      | nil =>
        rw [intercalate_singleton]
        exact here.start
      | cons next rest =>
        exact here.before_comma _
    rw [matchesNames, start, here.characters,
      ih fun name member => valid name (mem_cons_of_mem _ member)]
    simp [here.nonempty]

def OutputsSpec.Valid : OutputsSpec → Prop
  | .all => True
  | .names outputNames _ => ∀ name ∈ outputNames, IsName name

variable {outputs : OutputsSpec}

theorem parse_print_outputs (valid : outputs.Valid) :
    OutputsSpec.parse outputs.toString = .ok outputs := by
  cases outputs with
  | all => rfl
  | names names nonempty =>
    have each : ∀ name ∈ sortedValue names, IsName name :=
      fun name member => valid name ((Finset.mem_sort (· ≤ ·)).mp member)
    have notEmpty : sortedValue names ≠ [] := by
      intro none
      rw [← sorted_value_to_finset names, none] at nonempty
      exact Finset.not_nonempty_empty nonempty
    have pieces : ([44].intercalate (sortedValue names)).splitOn 44 = sortedValue names :=
      splitOn_intercalate 44 (fun name member => (each name member).plain (by decide)) notEmpty
    have tokens :
        tokenizeString ([44].intercalate (sortedValue names)) [44] = sortedValue names := by
      rw [tokenize_single, pieces, filter_eq_self]
      exact fun name member => decide_eq_true (each name member).nonempty
    have notStar : [44].intercalate (sortedValue names) ≠ ascii "*" := by
      intro star
      rw [star] at pieces
      have isName := each (ascii "*") (pieces ▸ mem_singleton_self _)
      exact isName.plain (by decide : isNameCharacter 42 = false) mem_cons_self
    rw [OutputsSpec.toString, OutputsSpec.parse, if_neg notStar, pieces, matches_valid_names each,
      if_pos rfl]
    have same := (congrArg toFinset tokens).trans (sorted_value_to_finset names)
    have some : (tokenizeString ([44].intercalate (sortedValue names)) [44]).toFinset.Nonempty := by
      rw [same]
      exact nonempty
    rw [dif_pos some]
    congr 2

theorem outputs_plain (valid : outputs.Valid) {byte : Byte} (other : isNameCharacter byte = false)
    (listed : byte ∉ ascii "*,") : byte ∉ outputs.toString := by
  cases outputs with
  | all => exact fun member => listed (mem_append_left [44] member)
  | names names nonempty =>
    have each : ∀ name ∈ sortedValue names, byte ∉ name := fun name member =>
      (valid name ((Finset.mem_sort (· ≤ ·)).mp member)).plain other
    rw [OutputsSpec.toString]
    cases sorted : sortedValue names with
    | nil => exact not_mem_nil
    | cons first rest =>
      rw [sorted, forall_mem_cons] at each
      rw [Bsd.Lib.PrefixCodes.intercalate_cons_eq, mem_append, not_or]
      refine ⟨each.1, ?_⟩
      intro member
      obtain ⟨name, inRest, inName⟩ := mem_flatMap.mp member
      rcases mem_append.mp inName with isComma | inside
      · exact listed (mem_append_right [42] isComma)
      · exact each.2 name inRest inside

def PathSurvives (store : StoreDirConfig) (path : StorePath) : Prop :=
  (33 : Byte) ∉ printStorePath store path ∧ path.separator ≠ 47

/-- At most one derivation is itself an output. -/
def DerivedPath.Survives (store : StoreDirConfig) : DerivedPath → Prop
  | .opaquePath path => PathSurvives store path
  | .built (.opaquePath path) _ => PathSurvives store path
  | .built (.built (.opaquePath path) _) _ => PathSurvives store path
  | .built (.built (.built _ _) _) _ => False

def SingleDerivedPath.Valid : SingleDerivedPath → Prop
  | .opaquePath _ => True
  | .built drvPath output => drvPath.Valid ∧ IsName output

def DerivedPath.Valid : DerivedPath → Prop
  | .opaquePath _ => True
  | .built drvPath outputs => drvPath.Valid ∧ outputs.Valid

section Printed

variable {store : StoreDirConfig} {separator : Byte}

theorem require_experiment (drv : SingleDerivedPath) : drvRequireExperiment true drv = .ok () := by
  cases drv with
  | opaquePath | built => rfl

variable {drv : SingleDerivedPath}

theorem parse_single_plain (plain : separator ∉ s) :
    parseWithSingle store true separator s = .ok drv ↔
      ∃ path, parseStorePath store s = .ok path ∧ drv = .opaquePath path := by
  rw [parseWithSingle]
  split
  · constructor
    · intro ran
      obtain ⟨path, parsed, ran⟩ := except_bind_ok ran
      exact ⟨path, parsed, (Except.ok.inj ran).symm⟩
    · rintro ⟨path, parsed, rfl⟩
      rw [parsed]
      rfl
  next found =>
    rw [split_last_plain plain] at found
    cases found

theorem parse_single_snoc (front : Bytes) {output : Bytes} (plain : separator ∉ output) :
    parseWithSingle store true separator (front ++ separator :: output) = .ok drv ↔
      ∃ inner, parseWithSingle store true separator front = .ok inner ∧
        drv = .built inner output := by
  rw [parseWithSingle]
  split
  next found =>
    rw [split_last_append front plain] at found
    cases found
  next found =>
    rw [split_last_append front plain] at found
    cases found
    constructor
    · intro ran
      obtain ⟨inner, parsed, ran⟩ := except_bind_ok ran
      rw [require_experiment] at ran
      exact ⟨inner, parsed, (Except.ok.inj ran).symm⟩
    · rintro ⟨inner, parsed, rfl⟩
      rw [parsed]
      dsimp only [bind, Except.bind]
      rw [require_experiment]
      rfl

theorem parse_single_path (path : StorePath) :
    parseWithSingle store true separator (printStorePath store path) = .ok (.opaquePath path) ↔
      separator ∉ printStorePath store path ∧ path.separator ≠ 47 := by
  by_cases member : separator ∈ printStorePath store path
  · refine iff_of_false ?_ (fun survives => survives.1 member)
    obtain ⟨front, back, same, plain⟩ := exists_last member
    rw [same, parse_single_snoc front plain]
    rintro ⟨inner, _, isBuilt⟩
    cases isBuilt
  rw [parse_single_plain member]
  constructor
  · rintro ⟨other, parsed, same⟩
    cases same
    exact ⟨member, parse_separator parsed⟩
  · intro survives
    exact ⟨path, parse_print_store_path store path survives.2, rfl⟩

/-- Below the outermost derivation the other separator is printed, which the parser does not
look for. -/
theorem parse_single_nested (drvPath : SingleDerivedPath) (output : Bytes) :
    parseWithSingle store true 33 ((built drvPath output).toString store) ≠
      .ok (.built drvPath output) := by
  have text : (built drvPath output).toString store = drvPath.toString store ++ 94 :: output := by
    rw [SingleDerivedPath.toString, append_assoc]
    rfl
  rw [text]
  by_cases member : (33 : Byte) ∈ drvPath.toString store ++ 94 :: output
  · obtain ⟨front, back, same, plain⟩ := exists_last member
    rw [same, Ne, parse_single_snoc front plain]
    rintro ⟨inner, _, isBuilt⟩
    cases isBuilt
    have ends := append_inj_right' same rfl
    exact absurd (cons.inj ends).1 (by decide)
  · rw [Ne, parse_single_plain member]
    rintro ⟨path, _, isPath⟩
    cases isPath

theorem parse_single_legacy {drvPath : SingleDerivedPath} (valid : drvPath.Valid)
    (outputs : OutputsSpec) :
    parseWithSingle store true 33 (drvPath.toStringLegacy store) = .ok drvPath ↔
      (DerivedPath.built drvPath outputs).Survives store := by
  cases drvPath with
  | opaquePath path => exact parse_single_path path
  | built inner output =>
    have text : (built inner output).toStringLegacy store =
        inner.toString store ++ 33 :: output := by
      rw [toStringLegacy, append_assoc]
      rfl
    rw [text, parse_single_snoc _ (valid.2.plain (by decide))]
    cases inner with
    | opaquePath path =>
      rw [DerivedPath.Survives, PathSurvives, ← parse_single_path]
      constructor
      · rintro ⟨other, parsed, same⟩
        cases same
        exact parsed
      · exact fun parsed => ⟨_, parsed, rfl⟩
    | built deeper name =>
      refine iff_of_false ?_ id
      rintro ⟨other, parsed, same⟩
      cases same
      exact parse_single_nested deeper name parsed

theorem parse_with_path (path : StorePath) :
    parseWith store true separator (printStorePath store path) = .ok (.opaquePath path) ↔
      separator ∉ printStorePath store path ∧ path.separator ≠ 47 := by
  rw [parseWith]
  by_cases member : separator ∈ printStorePath store path
  · refine iff_of_false ?_ (fun survives => survives.1 member)
    obtain ⟨front, back, same, plain⟩ := exists_last member
    rw [same, split_last_append front plain]
    intro ran
    obtain ⟨drv, _, ran⟩ := except_bind_ok ran
    obtain ⟨_, _, ran⟩ := except_bind_ok ran
    obtain ⟨outputs, _, ran⟩ := except_bind_ok ran
    cases ran
  · rw [split_last_plain member]
    constructor
    · intro ran
      obtain ⟨other, parsed, ran⟩ := except_bind_ok ran
      cases ran
      exact ⟨member, parse_separator parsed⟩
    · intro survives
      rw [parse_print_store_path store path survives.2]
      rfl

theorem parse_with_built (front : Bytes) (drvPath : SingleDerivedPath) (valid : outputs.Valid)
    (plain : separator ∉ outputs.toString) :
    parseWith store true separator (front ++ separator :: outputs.toString) =
        .ok (.built drvPath outputs) ↔
      parseWithSingle store true separator front = .ok drvPath := by
  rw [parseWith, split_last_append front plain]
  constructor
  · intro ran
    obtain ⟨drv, parsed, ran⟩ := except_bind_ok ran
    obtain ⟨_, _, ran⟩ := except_bind_ok ran
    obtain ⟨other, _, ran⟩ := except_bind_ok ran
    cases ran
    exact parsed
  · intro parsed
    dsimp only [bind, Except.bind]
    rw [parsed]
    dsimp only
    rw [require_experiment, parse_print_outputs valid]
    rfl

theorem parse_legacy_iff {req : DerivedPath} (valid : req.Valid) :
    parseLegacy store true (req.toStringLegacy store) = .ok req ↔ req.Survives store := by
  cases req with
  | opaquePath path => exact parse_with_path path
  | built drvPath outputs =>
    have text : (DerivedPath.built drvPath outputs).toStringLegacy store =
        drvPath.toStringLegacy store ++ 33 :: outputs.toString := by
      rw [DerivedPath.toStringLegacy, append_assoc]
      rfl
    rw [text, ← parse_single_legacy valid.1 outputs]
    exact parse_with_built _ drvPath valid.2 (outputs_plain valid.2 (by decide) (by decide))

end Printed

theorem reads_of_read {Value : Type} {reader : Read Value} {encoded : Bytes} {value : Value}
    (reads : Reads List.flatten reader encoded value) :
    Reads List.flatten (ofRead reader) encoded value := by
  intro source rest input
  obtain ⟨final, ran, remains⟩ := reads source rest input
  refine ⟨final, ?_, remains⟩
  rw [ofRead, ran]
  rfl

variable {store : StoreDirConfig}

theorem read_derived_path_iff {version : Nat} (current : 30 ≤ protocolMinor version) {text : Bytes}
    (small : text.length < sizeLimit) {source : Source} {rest : Bytes}
    (input : source.flatten = writeString text ++ rest) (req : DerivedPath) :
    (∃ final, readDerivedPath store true version source = .ok (req, final) ∧
      final.flatten = rest) ↔ parseLegacy store true text = .ok req := by
  obtain ⟨middle, ran, remains⟩ := reads_of_read (read_string_reads text (sizeLimit - 1)
    (Nat.le_pred_of_lt small) small) source rest input
  rw [readDerivedPath, bind_eq, ran]
  dsimp only
  rw [if_pos current]
  cases result : parseLegacy store true text with
  | error failure => exact iff_of_false nofun nofun
  | ok other =>
    constructor
    · rintro ⟨final, parsed, _⟩
      cases parsed
      rfl
    · intro same
      cases same
      exact ⟨middle, rfl, remains⟩

/-- Reading what the protocol writes for a derived path gives it back exactly if it survives. -/
theorem derived_path_survives_iff (store : StoreDirConfig) (version : Nat)
    (current : 30 ≤ protocolMinor version) (req : DerivedPath) (valid : req.Valid)
    (small : (req.toStringLegacy store).length < sizeLimit) :
    ∃ bytes, writeDerivedPath store version req = .ok bytes ∧
      ∀ (source : Source) (rest : Bytes), source.flatten = bytes ++ rest →
        ((∃ final, readDerivedPath store true version source = .ok (req, final) ∧
          final.flatten = rest) ↔ req.Survives store) := by
  refine ⟨_, if_pos current, ?_⟩
  intro source rest input
  rw [← parse_legacy_iff valid]
  exact read_derived_path_iff current small input req

def chainedDrv : StorePath :=
  ⟨ascii "ffffffffffffffffffffffffffffffff-chained.drv", by decide +kernel⟩

def chainedOutput : SingleDerivedPath := .built (.opaquePath chainedDrv) (ascii "drv")

theorem drv_is_name : IsName (ascii "drv") := ⟨by decide, by decide, by decide⟩

theorem chained_output_survives :
    ∃ bytes, writeDerivedPath usualStore 294 (.built chainedOutput .all) = .ok bytes ∧
      ∃ final, readDerivedPath usualStore true 294 [bytes] = .ok (.built chainedOutput .all, final) ∧
        final.flatten = [] := by
  obtain ⟨bytes, written, reads⟩ := derived_path_survives_iff usualStore 294 (by decide)
    (.built chainedOutput .all) ⟨⟨trivial, drv_is_name⟩, trivial⟩ (by decide +kernel)
  refine ⟨bytes, written, (reads [bytes] [] (by simp)).mpr ?_⟩
  exact ⟨by decide +kernel, by decide +kernel⟩

def deeperOutput : DerivedPath := .built (.built chainedOutput (ascii "drv")) .all

theorem deeper_output_lost : ∃ bytes, writeDerivedPath usualStore 294 deeperOutput = .ok bytes ∧
      ∀ final, final.flatten = [] →
        readDerivedPath usualStore true 294 [bytes] ≠ .ok (deeperOutput, final) := by
  refine ⟨_, if_pos (by decide), ?_⟩
  intro final remains ran
  have small : (deeperOutput.toStringLegacy usualStore).length < sizeLimit := by decide +kernel
  have input : [writeString (deeperOutput.toStringLegacy usualStore)].flatten =
      writeString (deeperOutput.toStringLegacy usualStore) ++ [] := by
    rw [flatten_singleton, append_nil]
  have parsed := (read_derived_path_iff (by decide) small input deeperOutput).mp ⟨final, ran, remains⟩
  have valid : deeperOutput.Valid := ⟨⟨⟨trivial, drv_is_name⟩, drv_is_name⟩, trivial⟩
  exact (parse_legacy_iff valid).mp parsed

def SingleDerivedPath.root : SingleDerivedPath → StorePath
  | .opaquePath path => path
  | .built drvPath _ => drvPath.root

def PathReparsed (store : StoreDirConfig) (path : StorePath) : Prop :=
  (94 : Byte) ∉ printStorePath store path ∧ path.separator ≠ 47

theorem parse_single_printed {drvPath : SingleDerivedPath} (valid : drvPath.Valid) :
    parse store true (drvPath.toString store) = .ok drvPath ↔ PathReparsed store drvPath.root := by
  induction drvPath with
  | opaquePath path => exact parse_single_path path
  | built drvPath output ih =>
    rw [SingleDerivedPath.root, ← ih valid.1, SingleDerivedPath.toString, append_assoc]
    refine (parse_single_snoc _ (valid.2.plain (by decide))).trans ?_
    constructor
    · rintro ⟨inner, parsed, same⟩
      cases same
      exact parsed
    · exact fun parsed => ⟨_, parsed, rfl⟩

/-- Every separator of the syntax is found again, whatever the depth; only the text of the store
path can be taken for something else. -/
theorem derived_path_reparsed_iff (store : StoreDirConfig) (drvPath : SingleDerivedPath)
    (valid : drvPath.Valid) :
    (SingleDerivedPath.parse store true (drvPath.toString store) = .ok drvPath ↔
      PathReparsed store drvPath.root) ∧
    ∀ outputs : OutputsSpec, outputs.Valid →
      (DerivedPath.parse store true ((DerivedPath.built drvPath outputs).toString store) =
          .ok (.built drvPath outputs) ↔
        PathReparsed store drvPath.root) := by
  refine ⟨parse_single_printed valid, ?_⟩
  intro outputs validOutputs
  rw [← parse_single_printed valid, DerivedPath.toString, append_assoc]
  exact parse_with_built _ drvPath validOutputs (outputs_plain validOutputs (by decide) (by decide))

theorem deeper_output_reparsed :
    DerivedPath.parse usualStore true (deeperOutput.toString usualStore) = .ok deeperOutput :=
  ((derived_path_reparsed_iff usualStore (.built chainedOutput (ascii "drv"))
    ⟨⟨trivial, drv_is_name⟩, drv_is_name⟩).2 .all trivial).mpr
      ⟨by decide +kernel, by decide +kernel⟩

/-- A path object whose base name has `^` in the place of the dash, which is not checked. -/
def caretDrv : StorePath :=
  ⟨ascii "ffffffffffffffffffffffffffffffff^chained.drv", by decide +kernel⟩

theorem caret_path_lost : (SingleDerivedPath.built (.opaquePath caretDrv) (ascii "out")).Valid ∧
      SingleDerivedPath.parse usualStore true
          ((SingleDerivedPath.built (.opaquePath caretDrv) (ascii "out")).toString usualStore) ≠
        .ok (.built (.opaquePath caretDrv) (ascii "out")) := by
  have valid : (SingleDerivedPath.built (.opaquePath caretDrv) (ascii "out")).Valid :=
    ⟨trivial, by decide, by decide, by decide⟩
  refine ⟨valid, ?_⟩
  rw [Ne, parse_single_printed valid]
  exact fun reparsed => reparsed.1 (by decide +kernel)

end Bsd.Store.DerivedPaths
