import Mathlib.Data.Prod.Lex
import Bsd.Store.ValidPaths

/-!
# Realisations

The tables `Realisations` and `RealisationsRefs` of the local store. `registerDrvOutput`
writes a realisation, then checks and writes its dependencies one after the other. The
statements are not part of a transaction.
-/

namespace Bsd.Store.Realisations

open Option List Lib.Occurrences Lib.OrdMap Lib.Readers Util.FilePath Util.Hashes Store.Path
open Store.Derivations
open Store.ValidPaths

structure DrvOutput where
  drvHash : Hash
  outputName : Bytes
  deriving DecidableEq

namespace DrvOutput

def strHash (output : DrvOutput) : Bytes := output.drvHash.printWithAlgo

def toString (output : DrvOutput) : Bytes := output.strHash ++ ascii "!" ++ output.outputName

def algoIndex : HashAlgorithm → Nat
  | .md5 => 42
  | .sha1 => 43
  | .sha256 => 44
  | .sha512 => 45
  | .blake3 => 46

def key (output : DrvOutput) : Nat ×ₗ Bytes ×ₗ Nat ×ₗ Bytes :=
  toLex (output.drvHash.hash.length, toLex (output.drvHash.hash,
    toLex (algoIndex output.drvHash.algo, output.outputName)))

theorem algo_index_injective : Function.Injective algoIndex := by
  intro left right
  cases left <;> cases right <;> first | exact fun _ => rfl | exact nofun

theorem key_injective : Function.Injective key := by
  intro left right same
  obtain ⟨⟨leftAlgo, leftHash, leftSize⟩, leftName⟩ := left
  have parts := Prod.mk.inj (toLex.injective same)
  have later := Prod.mk.inj (toLex.injective parts.2)
  have last := Prod.mk.inj (toLex.injective later.2)
  cases algo_index_injective last.1
  cases later.1
  cases last.2
  rfl

instance : LinearOrder DrvOutput := LinearOrder.lift' key key_injective

end DrvOutput

structure Realisation where
  id : DrvOutput
  outPath : StorePath
  signatures : Finset Bytes
  dependentRealisations : SortedMap DrvOutput StorePath

/-- A realisation without dependencies is compatible with one that has some. -/
def Realisation.isCompatibleWith (info other : Realisation) : Bool :=
  decide (info.outPath = other.outPath) &&
    (info.dependentRealisations.entries.isEmpty != other.dependentRealisations.entries.isEmpty ||
      decide (info.dependentRealisations.entries = other.dependentRealisations.entries))

def joinSignatures (signatures : Finset Bytes) : Bytes :=
  cString ([32].intercalate (sortedValue signatures))

structure RealisationRow where
  id : Nat
  drvPath : Bytes
  outputName : Bytes
  outputPath : Nat
  signatures : Bytes
  deriving DecidableEq

/-- A row of `RealisationsRefs` is a referrer and what it refers to, which may be null. -/
structure CaTables where
  valid : Db
  realisations : List RealisationRow
  realisationsRefs : List (Nat × Option Nat)
  sequence : Nat
  deriving DecidableEq

def RealisationRow.isFor (output : DrvOutput) (row : RealisationRow) : Bool :=
  decide (row.drvPath = cString output.strHash ∧ row.outputName = cString output.outputName)

namespace CaTables

variable (tables : CaTables)

def outputOf (row : RealisationRow) : Option Row :=
  tables.valid.validPaths.find? fun path => path.id = row.outputPath

def queryRealisedOutput (output : DrvOutput) : Option (Nat × Bytes × Bytes) :=
  tables.realisations.findSome? fun row =>
    if row.isFor output then (tables.outputOf row).map fun path => (row.id, path.path, row.signatures)
    else none

def realisationId (output : DrvOutput) : Option Nat :=
  (tables.realisations.find? fun row => row.isFor output).map RealisationRow.id

def queryRealisationReferences (referrer : Nat) : List (Bytes × Bytes) :=
  tables.realisationsRefs.filterMap fun ref =>
    if ref.1 = referrer then
      (tables.realisations.find? fun row => ref.2 = some row.id).map fun row =>
        (row.drvPath, row.outputName)
    else none

def updateRealisedOutput (output : DrvOutput) (signatures : Bytes) : CaTables :=
  { tables with realisations := tables.realisations.map fun row =>
      if row.isFor output then { row with signatures } else row }

def registerRealisedOutput (output : DrvOutput) (outputPath : Nat) (signatures : Bytes) : CaTables :=
  { tables with
    realisations := tables.realisations ++ [{
      id := tables.sequence + 1
      drvPath := cString output.strHash
      outputName := cString output.outputName
      outputPath
      signatures }]
    sequence := tables.sequence + 1 }

def addRealisationReference (referrer : Nat) (dependency : DrvOutput) : CaTables :=
  { tables with
    realisationsRefs := tables.realisationsRefs ++ [(referrer, tables.realisationId dependency)] }

end CaTables

section

variable (config : StoreDirConfig)

def queryRealisationCore (tables : CaTables) (output : DrvOutput) :
    Except Failure (Option (Nat × Realisation)) :=
  match tables.queryRealisedOutput output with
  | none => .ok none
  | some (id, path, signatures) => do
      let outPath ← parseStorePath config path
      pure (some (id, {
        id := output
        outPath
        signatures := (tokenizeString signatures whitespace).toFinset
        dependentRealisations := SortedMap.empty }))

def readDependency (tables : CaTables) (known : SortedMap DrvOutput StorePath)
    (reference : Bytes × Bytes) : Except Failure (SortedMap DrvOutput StorePath) := do
  let drvHash ← parseAnyPrefixed reference.1
  let dependency ← queryRealisationCore config tables ⟨drvHash, reference.2⟩
  match dependency with
  | none => throw .assertion
  | some (_, realisation) => pure (known.emplaceAt ⟨drvHash, reference.2⟩ realisation.outPath)

def queryRealisation (tables : CaTables) (output : DrvOutput) :
    Except Failure (Option Realisation) := do
  let core ← queryRealisationCore config tables output
  match core with
  | none => pure none
  | some (id, realisation) => do
      let dependentRealisations ← (tables.queryRealisationReferences id).foldlM
        (readDependency config tables) SortedMap.empty
      pure (some { realisation with dependentRealisations })

def incompatible (info old : Realisation) : Failure :=
  .error (ascii "Trying to register a realisation of " ++ quoted info.id.toString ++
    ascii ", but we already have another one locally.\nLocal:  " ++
    printStorePath config old.outPath ++ ascii "\nRemote: " ++ printStorePath config info.outPath)

def nonExistent (info : Realisation) (dependency : DrvOutput) : Failure :=
  .error (ascii "unable to register the derivation " ++ quoted info.id.toString ++
    ascii " as it depends on the non existent " ++ quoted dependency.toString)

def mismatch (info : Realisation) (dependency : DrvOutput) : Failure :=
  .error (ascii "unable to register the derivation " ++ quoted info.id.toString ++
    ascii " as it depends on a realisation of " ++ quoted dependency.toString ++
    ascii " that doesn" ++ [226, 128, 153] ++ ascii "tmatch what we have locally")

def notNullFailed : Failure :=
  .error (ascii "executing SQLite statement: constraint failed, NOT NULL constraint failed")

def writeRealisation (tables : CaTables) (info : Realisation) : Except Failure CaTables := do
  let known ← queryRealisation config tables info.id
  match known with
  | some old =>
    if info.isCompatibleWith old then
      pure (tables.updateRealisedOutput info.id (joinSignatures (old.signatures ∪ info.signatures)))
    else throw (incompatible config info old)
  | none =>
    match tables.valid.row (pathColumn config info.outPath) with
    | none => throw notNullFailed
    | some path =>
      pure (tables.registerRealisedOutput info.id path.id (joinSignatures info.signatures))

def addDependencies (info : Realisation) :
    List (DrvOutput × StorePath) → CaTables → Except Failure Unit × CaTables
  | [], tables => (.ok (), tables)
  | (dependency, path) :: rest, tables =>
    match queryRealisationCore config tables dependency with
    | .error failure => (.error failure, tables)
    | .ok none => (.error (nonExistent info dependency), tables)
    | .ok (some (_, realisation)) =>
      if realisation.outPath ≠ path then (.error (mismatch info dependency), tables)
      else
        match tables.realisationId info.id with
        | none => (.error notNullFailed, tables)
        | some referrer =>
          addDependencies info rest (tables.addRealisationReference referrer dependency)

def registerDrvOutput (tables : CaTables) (info : Realisation) : Except Failure Unit × CaTables :=
  match writeRealisation config tables info with
  | .error failure => (.error failure, tables)
  | .ok written => addDependencies config info info.dependentRealisations.entries written

end

/-- The foreign key of `Realisations`. -/
def CaTables.Linked (tables : CaTables) : Prop :=
  ∀ row ∈ tables.realisations, (tables.outputOf row).isSome

/-- The state of the tables, with the constraints of the schema. -/
structure LocalDb where
  tables : CaTables
  linked : tables.Linked
  ids : (tables.valid.validPaths.map Row.id).Nodup

variable {output : DrvOutput} {id : Nat}

section Found

variable (config : StoreDirConfig)

def found (tables : CaTables) (output : DrvOutput) : Except Failure (Option (Nat × StorePath)) :=
  match tables.queryRealisedOutput output with
  | none => .ok none
  | some (id, path, _) => do
      let outPath ← parseStorePath config path
      pure (some (id, outPath))

variable {config}

theorem found_eq (tables : CaTables) (output : DrvOutput) :
    found config tables output = (queryRealisationCore config tables output).map
      (Option.map fun core => (core.1, core.2.outPath)) := by
  unfold found queryRealisationCore
  cases tables.queryRealisedOutput output with
  | none => rfl
  | some row =>
    obtain ⟨id, path, signatures⟩ := row
    cases parsed : parseStorePath config path with
    | error | ok => simp [parsed]; rfl

variable {tables : CaTables}

theorem found_congr {before after : CaTables}
    (same : (after.queryRealisedOutput output).map (fun row => (row.1, row.2.1)) =
      (before.queryRealisedOutput output).map fun row => (row.1, row.2.1)) :
    found config after output = found config before output := by
  unfold found
  cases old : before.queryRealisedOutput output with
  | none =>
    rw [old, map_none, map_eq_none_iff] at same
    rw [same]
  | some row =>
    rw [old, map_some, map_eq_some_iff] at same
    obtain ⟨other, new, agree⟩ := same
    obtain ⟨id, path, signatures⟩ := row
    cases agree
    rw [new]

end Found

def SameKey (left right : DrvOutput) : Prop :=
  cString left.strHash = cString right.strHash ∧
    cString left.outputName = cString right.outputName

instance (left right : DrvOutput) : Decidable (SameKey left right) :=
  inferInstanceAs (Decidable (_ ∧ _))

variable {left right : DrvOutput}

theorem is_for_iff_same_key {row : RealisationRow}
    (isLeft : row.isFor left = true) : row.isFor right = true ↔ SameKey left right := by
  obtain ⟨hash, name⟩ := of_decide_eq_true isLeft
  rw [RealisationRow.isFor, decide_eq_true_iff, hash, name]
  rfl

variable {path : Row}

namespace CaTables

variable {tables : CaTables}

theorem query_same_key (same : SameKey left right) :
    tables.queryRealisedOutput left = tables.queryRealisedOutput right := by
  unfold queryRealisedOutput RealisationRow.isFor
  rw [same.1, same.2]

theorem realisation_id_eq (linked : tables.Linked) (output : DrvOutput) :
    tables.realisationId output = (tables.queryRealisedOutput output).map Prod.fst := by
  unfold realisationId queryRealisedOutput
  have each := linked
  unfold Linked at each
  generalize tables.realisations = rows at each
  induction rows with
  | nil => rfl
  | cons row rest ih =>
    have later := ih fun other member => each other (mem_cons_of_mem _ member)
    by_cases isFor : row.isFor output = true
    · obtain ⟨path, output⟩ := isSome_iff_exists.mp (each row mem_cons_self)
      simp [isFor, output]
    · simpa [isFor] using later

theorem query_update (output dependency : DrvOutput) (signatures : Bytes) :
    (tables.updateRealisedOutput output signatures).queryRealisedOutput dependency =
      (tables.queryRealisedOutput dependency).map fun row =>
        if SameKey dependency output then (row.1, row.2.1, signatures) else row := by
  unfold queryRealisedOutput updateRealisedOutput
  rw [findSome?_map, map_findSome?]
  congr 1
  funext row
  dsimp only [Function.comp]
  by_cases isDependency : row.isFor dependency = true
  · by_cases isOutput : row.isFor output = true
    · have same := (is_for_iff_same_key isDependency).mp isOutput
      have still : RealisationRow.isFor dependency { row with signatures } = true := isDependency
      simp only [isOutput, still, isDependency, same, if_true, Option.map_map]
      rfl
    · have differ : ¬ SameKey dependency output := fun same =>
        isOutput ((is_for_iff_same_key isDependency).mpr same)
      simp only [isOutput, Bool.false_eq_true, isDependency, differ, if_true, if_false,
        Option.map_map]
      rfl
  · have still : ¬ RealisationRow.isFor dependency
        (if row.isFor output = true then { row with signatures } else row) = true := by
      split
      · exact isDependency
      · exact isDependency
    rw [if_neg still, if_neg isDependency]
    rfl

variable {signatures : Bytes}

theorem query_register {dependency : DrvOutput}
    (outputOf : tables.valid.validPaths.find? (fun row => row.id = path.id) = some path) :
    (tables.registerRealisedOutput output path.id signatures).queryRealisedOutput dependency =
      (tables.queryRealisedOutput dependency).or
        (if SameKey output dependency then some (tables.sequence + 1, path.path, signatures)
        else none) := by
  unfold queryRealisedOutput registerRealisedOutput
  rw [findSome?_append]
  congr 1
  simp only [findSome?_cons, findSome?_nil]
  by_cases same : SameKey output dependency
  · have isFor : RealisationRow.isFor dependency ⟨tables.sequence + 1, cString output.strHash,
        cString output.outputName, path.id, signatures⟩ = true := decide_eq_true same
    rw [if_pos isFor, if_pos same, CaTables.outputOf, outputOf]
    rfl
  · have isOther : ¬ RealisationRow.isFor dependency ⟨tables.sequence + 1, cString output.strHash,
        cString output.outputName, path.id, signatures⟩ = true := fun isFor =>
      same (of_decide_eq_true isFor)
    rw [if_neg isOther, if_neg same]

end CaTables

theorem find_by_id {rows : List Row} (ids : (rows.map Row.id).Nodup) (member : path ∈ rows) :
    rows.find? (fun row => row.id = path.id) = some path := by
  induction rows with
  | nil => cases member
  | cons row rest ih =>
    obtain ⟨fresh, later⟩ := nodup_cons.mp ids
    obtain rfl | inRest := mem_cons.mp member
    · exact find?_cons_of_pos (decide_eq_true rfl)
    have differ : row.id ≠ path.id := fun same =>
      fresh (same ▸ mem_map_of_mem inRest)
    rw [find?_cons_of_neg (by simpa using differ)]
    exact ih later inRest

section

variable (config : StoreDirConfig)

def Accepted (tables : CaTables) (info : Realisation) : Prop :=
  match queryRealisation config tables info.id with
  | .error _ => False
  | .ok none => tables.valid.has (pathColumn config info.outPath) = true
  | .ok (some old) => info.isCompatibleWith old = true

/-- What an output is realised as once the realisation itself is there. The output path
of a new realisation is read from the table. -/
def localOutPath (tables : CaTables) (info : Realisation) (dependency : DrvOutput) :
    Except Failure (Option StorePath) :=
  match found config tables dependency with
  | .error failure => .error failure
  | .ok (some (_, path)) => .ok (some path)
  | .ok none =>
    if SameKey info.id dependency then
      (parseStorePath config (pathColumn config info.outPath)).map some
    else .ok none

/-- The signatures of a realisation that is there are the ones that would be written. -/
def KeepsSignatures (tables : CaTables) (info : Realisation) : Prop :=
  ∃ old, queryRealisation config tables info.id = .ok (some old) ∧
    ∀ row ∈ tables.realisations, row.isFor info.id = true →
      row.signatures = joinSignatures (old.signatures ∪ info.signatures)

structure Written (tables written : CaTables) (info : Realisation) : Prop where
  refs : written.realisationsRefs = tables.realisationsRefs
  linked : written.Linked
  met : ∀ dependency path, (∃ id, found config written dependency = .ok (some (id, path))) ↔
    localOutPath config tables info dependency = .ok (some path)
  itself : ∃ id path signatures,
    written.queryRealisedOutput info.id = some (id, path, joinSignatures signatures) ∧
      info.signatures ⊆ signatures
  same : written.realisations = tables.realisations ↔ KeepsSignatures config tables info

variable {config} {tables : CaTables} {old : Realisation}

theorem query_realisation_some (known : queryRealisation config tables output = .ok (some old)) :
    ∃ row, tables.queryRealisedOutput output = some row := by
  obtain ⟨core, query, rest⟩ := except_bind_ok known
  cases core with
  | none => cases rest
  | some pair =>
    unfold queryRealisationCore at query
    cases row : tables.queryRealisedOutput output with
    | none =>
      rw [row] at query
      cases query
    | some found => exact ⟨found, rfl⟩

theorem query_realisation_none (missing : queryRealisation config tables output = .ok none) :
    tables.queryRealisedOutput output = none := by
  obtain ⟨core, query, rest⟩ := except_bind_ok missing
  cases core with
  | some pair =>
    obtain ⟨dependencies, _, same⟩ := except_bind_ok rest
    cases same
  | none =>
    unfold queryRealisationCore at query
    cases row : tables.queryRealisedOutput output with
    | none => rfl
    | some found =>
      rw [row] at query
      obtain ⟨outPath, _, same⟩ := except_bind_ok query
      cases same

variable {info : Realisation}

theorem met_of_local {before after : CaTables} {dependency : DrvOutput} (path : StorePath)
    (same : localOutPath config before info dependency =
      (found config after dependency).map (Option.map Prod.snd)) :
    (∃ id, found config after dependency = .ok (some (id, path))) ↔
      localOutPath config before info dependency = .ok (some path) := by
  rw [same]
  rcases found config after dependency with failure | _ | ⟨id, other⟩
  · exact ⟨nofun, nofun⟩
  · exact ⟨nofun, nofun⟩
  · constructor
    · rintro ⟨_, isPath⟩
      cases isPath
      rfl
    · intro isPath
      cases isPath
      exact ⟨id, rfl⟩

theorem written_update (linked : tables.Linked)
    (known : queryRealisation config tables info.id = .ok (some old)) :
    Written config tables (tables.updateRealisedOutput info.id
      (joinSignatures (old.signatures ∪ info.signatures))) info := by
  obtain ⟨⟨id, path, signatures⟩, row⟩ := query_realisation_some known
  refine ⟨rfl, ?linked, ?met, ?itself, ?same⟩
  case linked =>
    intro row member
    obtain ⟨old, oldMember, rfl⟩ := mem_map.mp member
    have known := linked old oldMember
    split
    · exact known
    · exact known
  case met =>
    intro dependency outPath
    have sameFound : found config (tables.updateRealisedOutput info.id
        (joinSignatures (old.signatures ∪ info.signatures))) dependency =
          found config tables dependency := by
      apply found_congr
      rw [CaTables.query_update, Option.map_map]
      split
      · rfl
      · rfl
    apply met_of_local
    rw [sameFound, localOutPath]
    cases look : found config tables dependency with
    | error failure => rfl
    | ok result =>
      cases result with
      | some pair => rfl
      | none =>
        -- the realisation itself is there, so the output is another one
        have differ : ¬ SameKey info.id dependency := by
          intro same
          rw [found, ← CaTables.query_same_key same, row] at look
          obtain ⟨_, _, ends⟩ := except_bind_ok look
          cases ends
        exact if_neg differ
  case itself =>
    refine ⟨id, path, old.signatures ∪ info.signatures, ?_, Finset.subset_union_right⟩
    rw [CaTables.query_update, row, Option.map_some, if_pos ⟨rfl, rfl⟩]
  case same =>
    constructor
    · intro same
      refine ⟨old, known, fun row member isFor => ?_⟩
      have kept := map_inj_left.mp (same.trans (map_id _).symm) row member
      rw [if_pos isFor] at kept
      exact (congrArg RealisationRow.signatures kept).symm
    rintro ⟨other, otherKnown, kept⟩
    cases known.symm.trans otherKnown
    refine Eq.trans (map_inj_left.mpr fun row member => ?_) (map_id _)
    split
    next isFor =>
      rw [← kept row member isFor]
      rfl
    · rfl

theorem written_register (linked : tables.Linked)
    (missing : queryRealisation config tables info.id = .ok none)
    (outputOf : tables.valid.validPaths.find? (fun row => row.id = path.id) = some path)
    (column : path.path = pathColumn config info.outPath) :
    Written config tables (tables.registerRealisedOutput info.id path.id
      (joinSignatures info.signatures)) info := by
  have absent := query_realisation_none missing
  refine ⟨rfl, ?linked, ?met, ?itself, ?same⟩
  case linked =>
    intro row member
    obtain old | new := mem_append.mp member
    · exact linked row old
    · cases mem_singleton.mp new
      exact isSome_iff_exists.mpr ⟨path, outputOf⟩
  case met =>
    intro dependency outPath
    apply met_of_local
    unfold localOutPath found
    rw [CaTables.query_register outputOf]
    cases old : tables.queryRealisedOutput dependency with
    | some row =>
      rw [some_or]
      dsimp only
      cases parseStorePath config row.2.1 with
      | error | ok => rfl
    | none =>
      rw [none_or]
      by_cases same : SameKey info.id dependency
      · simp only [if_pos same, column]
        cases parseStorePath config (pathColumn config info.outPath) with
        | error | ok => rfl
      · simp only [if_neg same]
        rfl
  case itself =>
    refine ⟨tables.sequence + 1, path.path, info.signatures, ?_, subset_rfl⟩
    rw [CaTables.query_register outputOf, absent, none_or, if_pos ⟨rfl, rfl⟩]
  case same =>
    constructor
    · intro same
      cases append_right_eq_self.mp same
    · rintro ⟨old, known, _⟩
      cases missing.symm.trans known

theorem write_accepted (db : LocalDb) (accepted : Accepted config db.tables info) :
    ∃ written, writeRealisation config db.tables info = .ok written ∧
      Written config db.tables written info := by
  unfold Accepted at accepted
  unfold writeRealisation
  cases known : queryRealisation config db.tables info.id with
  | error failure =>
    rw [known] at accepted
    cases accepted
  | ok result =>
    rw [known] at accepted
    cases result with
    | some old =>
      exact ⟨_, if_pos accepted, written_update db.linked known⟩
    | none =>
      obtain ⟨path, row⟩ := isSome_iff_exists.mp accepted
      have member := mem_of_find?_eq_some row
      have column : path.path = pathColumn config info.outPath :=
        of_decide_eq_true (find?_some (p := fun row : Row =>
          decide (row.path = pathColumn config info.outPath)) row)
      refine ⟨_, ?_, written_register db.linked known (find_by_id db.ids member) column⟩
      rw [row]
      rfl

theorem write_refused (refused : ¬ Accepted config tables info) :
    ∃ failure, writeRealisation config tables info = .error failure := by
  unfold Accepted at refused
  unfold writeRealisation
  cases known : queryRealisation config tables info.id with
  | error failure => exact ⟨failure, rfl⟩
  | ok result =>
    rw [known] at refused
    cases result with
    | some old => exact ⟨incompatible config info old, if_neg refused⟩
    | none =>
      have missing : tables.valid.row (pathColumn config info.outPath) = none :=
        not_isSome_iff_eq_none.mp refused
      refine ⟨notNullFailed, ?_⟩
      rw [missing]
      rfl

variable (config) in
def IsMet (tables : CaTables) (entry : DrvOutput × StorePath) : Prop :=
  ∃ id, found config tables entry.1 = .ok (some (id, entry.2))

variable {referrer : Nat} {entry : DrvOutput × StorePath}

theorem add_dependency
    (rest : List (DrvOutput × StorePath)) (itself : tables.realisationId info.id = some referrer)
    (met : IsMet config tables entry) : addDependencies config info (entry :: rest) tables =
      addDependencies config info rest (tables.addRealisationReference referrer entry.1) := by
  obtain ⟨id, there⟩ := met
  rw [found_eq] at there
  obtain ⟨output, path⟩ := entry
  rcases core : queryRealisationCore config tables output with failure | _ | pair <;>
    rw [core] at there <;> cases there
  rw [addDependencies, core]
  dsimp only
  rw [if_neg (not_not_intro rfl), itself]

theorem add_dependency_fails (info : Realisation) (rest : List (DrvOutput × StorePath))
    (unmet : ¬ IsMet config tables entry) :
    ∃ failure, addDependencies config info (entry :: rest) tables = (.error failure, tables) := by
  rw [addDependencies]
  cases core : queryRealisationCore config tables entry.1 with
  | error failure => exact ⟨failure, rfl⟩
  | ok result =>
    cases result with
    | none => exact ⟨nonExistent info entry.1, rfl⟩
    | some pair =>
      have differs : pair.2.outPath ≠ entry.2 := by
        intro same
        apply unmet
        unfold IsMet
        rw [← same]
        exact ⟨pair.1, by rw [found_eq, core]; rfl⟩
      exact ⟨mismatch info entry.1, if_pos differs⟩

theorem add_dependencies_met (dependencies : List (DrvOutput × StorePath)) (tables : CaTables)
    (itself : tables.realisationId info.id = some referrer)
    (met : ∀ entry ∈ dependencies, IsMet config tables entry) :
    addDependencies config info dependencies tables = (.ok (), { tables with
      realisationsRefs := tables.realisationsRefs ++
        dependencies.map fun entry => (referrer, tables.realisationId entry.1) }) := by
  induction dependencies generalizing tables with
  | nil =>
    rw [map_nil, append_nil]
    rfl
  | cons entry rest ih =>
    have later := ih (tables.addRealisationReference referrer entry.1) itself
      fun other member => met other (mem_cons_of_mem _ member)
    rw [add_dependency rest itself (met entry mem_cons_self), later]
    unfold CaTables.addRealisationReference
    rw [append_assoc]
    rfl

theorem add_dependencies_unmet (dependencies : List (DrvOutput × StorePath)) (tables : CaTables)
    (itself : tables.realisationId info.id = some referrer)
    (unmet : ¬ ∀ entry ∈ dependencies, IsMet config tables entry) :
    ∃ failure added, addDependencies config info dependencies tables = (.error failure,
      { tables with realisationsRefs := tables.realisationsRefs ++ added }) ∧
      (added = [] ↔ ∃ first rest, dependencies = first :: rest ∧ ¬ IsMet config tables first) := by
  induction dependencies generalizing tables with
  | nil => exact absurd nofun unmet
  | cons entry rest ih =>
    by_cases isMet : IsMet config tables entry
    · have later : ¬ ∀ other ∈ rest, IsMet config
          (tables.addRealisationReference referrer entry.1) other := by
        intro all
        exact unmet (forall_mem_cons.mpr ⟨isMet, all⟩)
      obtain ⟨failure, added, run, _⟩ := ih (tables.addRealisationReference referrer entry.1)
        itself later
      refine ⟨failure, (referrer, tables.realisationId entry.1) :: added, ?_, ?_⟩
      · rw [add_dependency rest itself isMet, run]
        unfold CaTables.addRealisationReference
        rw [append_assoc]
        rfl
      · constructor
        · nofun
        · rintro ⟨first, others, same, isUnmet⟩
          cases same
          exact absurd isMet isUnmet
    · obtain ⟨failure, run⟩ := add_dependency_fails info rest isMet
      refine ⟨failure, [], ?_, fun _ => ⟨entry, rest, rfl, isMet⟩, fun _ => rfl⟩
      rw [run, append_nil]

variable (config)

def Registered (tables : CaTables) (info : Realisation) : Prop :=
  ∃ id path signatures,
    tables.queryRealisedOutput info.id = some (id, path, joinSignatures signatures) ∧
      parseStorePath config path = .ok info.outPath ∧ info.signatures ⊆ signatures ∧
      ∀ entry ∈ info.dependentRealisations.entries, ∃ other,
        found config tables entry.1 = .ok (some (other, entry.2)) ∧
          (id, some other) ∈ tables.realisationsRefs

def AllOrNothing (tables : CaTables) (info : Realisation) : Prop :=
  match registerDrvOutput config tables info with
  | (.error _, after) => after.realisations = tables.realisations ∧
      after.realisationsRefs = tables.realisationsRefs
  | (.ok _, after) => Registered config after info

/-- The realisation and every dependency are realised as the realisation says, or already
the first dependency is not and there is nothing to write before it. -/
def DependenciesAllow (tables : CaTables) (info : Realisation) : Prop :=
  (localOutPath config tables info info.id = .ok (some info.outPath) ∧
    ∀ entry ∈ info.dependentRealisations.entries,
      localOutPath config tables info entry.1 = .ok (some entry.2)) ∨
  (KeepsSignatures config tables info ∧ ∃ first rest,
    info.dependentRealisations.entries = first :: rest ∧
      localOutPath config tables info first.1 ≠ .ok (some first.2))

variable {config}

theorem found_id {path : StorePath} (linked : tables.Linked)
    (there : found config tables output = .ok (some (id, path))) :
    tables.realisationId output = some id := by
  rw [CaTables.realisation_id_eq linked]
  unfold found at there
  cases query : tables.queryRealisedOutput output with
  | none =>
    rw [query] at there
    cases there
  | some row =>
    rw [query] at there
    obtain ⟨_, _, same⟩ := except_bind_ok there
    cases same
    rfl

theorem registered_of_met {tables written : CaTables} (stage : Written config tables written info)
    (itself : written.realisationId info.id = some referrer)
    (met : ∀ entry ∈ info.dependentRealisations.entries, IsMet config written entry) :
    Registered config { written with
      realisationsRefs := written.realisationsRefs ++ info.dependentRealisations.entries.map
        fun entry => (referrer, written.realisationId entry.1) } info ↔
      IsMet config written (info.id, info.outPath) := by
  constructor
  · rintro ⟨id, path, signatures, row, parsed, _⟩
    have sameRow : written.queryRealisedOutput info.id =
      some (id, path, joinSignatures signatures) := row
    refine ⟨id, ?_⟩
    rw [found, sameRow]
    dsimp only
    rw [parsed]
    rfl
  · rintro ⟨id, there⟩
    obtain ⟨other, path, signatures, row, within⟩ := stage.itself
    have parsed := there
    rw [found, row] at parsed
    obtain ⟨outPath, parsed, same⟩ := except_bind_ok parsed
    cases same
    refine ⟨id, path, signatures, row, parsed, within, ?_⟩
    intro entry member
    obtain ⟨other, dependencyThere⟩ := met entry member
    refine ⟨other, dependencyThere, mem_append_right _ (mem_map.mpr ⟨entry, member, ?_⟩)⟩
    rw [found_id stage.linked dependencyThere]
    cases itself.symm.trans (found_id stage.linked there)
    rfl

/-- Registering a realisation is all or nothing exactly when it is refused before it is
written, or its dependencies cannot make it fail after something was written. -/
theorem register_all_or_nothing_iff (db : LocalDb) (info : Realisation) :
    AllOrNothing config db.tables info ↔
      (Accepted config db.tables info → DependenciesAllow config db.tables info) := by
  by_cases accepted : Accepted config db.tables info
  · obtain ⟨written, write, stage⟩ := write_accepted db accepted
    have run : registerDrvOutput config db.tables info =
        addDependencies config info info.dependentRealisations.entries written := by
      rw [registerDrvOutput, write]
    have metIff : ∀ entry : DrvOutput × StorePath, IsMet config written entry ↔
        localOutPath config db.tables info entry.1 = .ok (some entry.2) := fun entry =>
      stage.met entry.1 entry.2
    obtain ⟨referrer, path, signatures, row, _⟩ := stage.itself
    have itself : written.realisationId info.id = some referrer := by
      rw [CaTables.realisation_id_eq stage.linked, row]
      rfl
    rw [AllOrNothing, run]
    by_cases met : ∀ entry ∈ info.dependentRealisations.entries, IsMet config written entry
    · rw [add_dependencies_met _ written itself met]
      dsimp only
      rw [registered_of_met stage itself met, metIff]
      constructor
      · intro there _
        exact .inl ⟨there, fun entry member => (metIff entry).mp (met entry member)⟩
      intro allow
      obtain ⟨there, _⟩ | ⟨_, first, rest, entries, unmet⟩ := allow accepted
      · exact there
      · have isFirst : first ∈ info.dependentRealisations.entries :=
          entries ▸ mem_cons_self
        exact absurd ((metIff first).mp (met first isFirst)) unmet
    · obtain ⟨failure, added, loop, nothing⟩ := add_dependencies_unmet _ written itself met
      rw [loop]
      dsimp only
      rw [stage.same, stage.refs, append_right_eq_self, nothing]
      constructor
      · rintro ⟨keeps, first, rest, entries, unmet⟩ _
        exact .inr ⟨keeps, first, rest, entries, fun same => unmet ((metIff first).mpr same)⟩
      intro allow
      obtain ⟨_, all⟩ | ⟨keeps, first, rest, entries, unmet⟩ := allow accepted
      · exact absurd (fun entry member => (metIff entry).mpr (all entry member)) met
      · exact ⟨keeps, first, rest, entries, fun same => unmet ((metIff first).mp same)⟩
  · obtain ⟨failure, write⟩ := write_refused accepted
    rw [AllOrNothing, registerDrvOutput, write]
    exact ⟨fun _ isAccepted => absurd isAccepted accepted, fun _ => ⟨rfl, rfl⟩⟩

end

def builtPath : StorePath := ⟨List.replicate 32 48 ++ ascii "-built", by decide +kernel⟩

def outOf (byte : Byte) : DrvOutput :=
  ⟨⟨.sha256, List.replicate 32 byte, List.length_replicate⟩, ascii "out"⟩

def builtDb : LocalDb where
  tables := {
    valid := {
      validPaths := [{
        id := 1
        path := printStorePath usualStore builtPath
        hash := []
        narSize := none
        ultimate := none
        sigs := none
        ca := none
        registrationTime := 0
        deriver := none }]
      refs := []
      derivationOutputs := []
      sequence := 1 }
    realisations := []
    realisationsRefs := []
    sequence := 0 }
  linked := nofun
  ids := List.nodup_singleton 1

def danglingRealisation : Realisation where
  id := outOf 0
  outPath := builtPath
  signatures := ∅
  dependentRealisations := SortedMap.empty.assign (outOf 1) builtPath

/-- The call throws because of the dependency, and the realisation stays. -/
theorem dangling_realisation_stays :
    (registerDrvOutput usualStore builtDb.tables danglingRealisation).1 =
        .error (nonExistent danglingRealisation (outOf 1)) ∧
      builtDb.tables.realisations = [] ∧
      (registerDrvOutput usualStore builtDb.tables danglingRealisation).2.realisations =
        [⟨1, (outOf 0).strHash, ascii "out", 1, []⟩] ∧
      ¬ AllOrNothing usualStore builtDb.tables danglingRealisation := by
  have run : registerDrvOutput usualStore builtDb.tables danglingRealisation =
      (.error (nonExistent danglingRealisation (outOf 1)), { builtDb.tables with
        realisations := [⟨1, (outOf 0).strHash, ascii "out", 1, []⟩]
        sequence := 1 }) := by
    decide +kernel
  rw [run]
  exact ⟨rfl, rfl, rfl, fun same => nomatch same.1⟩

end Bsd.Store.Realisations
