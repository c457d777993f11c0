import Bsd.Store.ContentAddressText
import Bsd.Store.Derivations
import Bsd.Store.PathInfoCache

/-!
# The table of valid paths

The rows of `ValidPaths`, `Refs` and `DerivationOutputs` as the local store writes
and reads them. A text is bound as a C string, so that it ends before its first NUL
character.
-/

namespace Bsd.Store.ValidPaths

open Lib.Occurrences Lib.Readers Util.FilePath Util.Hashes Store.Path Store.ContentAddresses List
open Store.ContentAddressText Store.Derivations Store.PathInfoCache
open Bsd.Store.LocalStore (invalidPath)

def pathColumn (config : StoreDirConfig) (path : StorePath) : Bytes :=
  cString (printStorePath config path)

/-- The columns that are written both for a new path and for one that is valid. -/
structure Columns where
  hash : Bytes
  narSize : Option Nat
  ultimate : Option Nat
  sigs : Option Bytes
  ca : Option Bytes
  deriving DecidableEq

structure Row extends Columns where
  id : Nat
  path : Bytes
  registrationTime : Int
  deriver : Option Bytes
  deriving DecidableEq

def writeSigs (sigs : Finset Bytes) : Option Bytes :=
  if sigs = ∅ then none else some (cString ([32].intercalate (sortedValue sigs)))

def readSigs (sigs : Option Bytes) : Finset Bytes :=
  match sigs with
  | none => ∅
  | some text => (tokenizeString text [32]).toFinset

def readContentAddress (ca : Option Bytes) : Except Failure (Option ContentAddress) :=
  match ca with
  | none => .ok none
  | some text => ContentAddress.parseOpt text

def writtenColumns (info : ValidPathInfo) : Columns where
  hash := cString info.narHash.printWithAlgo
  narSize := if info.narSize = 0 then none else some info.narSize
  ultimate := if info.ultimate then some 1 else none
  sigs := writeSigs info.sigs
  ca := info.ca.map fun ca => cString (ContentAddress.render ca)

structure Describes (columns : Columns) (info : ValidPathInfo) : Prop where
  narHash : parseAnyPrefixed columns.hash = .ok info.narHash
  narSize : columns.narSize.getD 0 = info.narSize
  ultimate : decide (columns.ultimate = some 1) = info.ultimate
  sigs : readSigs columns.sigs = info.sigs
  ca : readContentAddress columns.ca = .ok info.ca

def storedSigs (sigs : Finset Bytes) : Finset Bytes := readSigs (writeSigs sigs)

/-- What is read of a path after `written` has been written for it. -/
structure Recorded (written info : ValidPathInfo) : Prop where
  narHash : info.narHash = written.narHash
  narSize : info.narSize = written.narSize
  ultimate : info.ultimate = written.ultimate
  sigs : info.sigs = storedSigs written.sigs
  ca : info.ca = written.ca

theorem zero_not_printed (hash : Hash) : (0 : Byte) ∉ hash.printWithAlgo := by
  intro member
  rcases mem_append.mp member with front | digits
  · rcases mem_append.mp front with inAlgo | isColon
    · revert inAlgo
      cases hash.algo <;> decide
    · revert isColon
      decide
  · exact absurd (print_hash16_character digits) (by decide)

section

variable (info : ValidPathInfo)

include info

theorem written_hash : parseAnyPrefixed (writtenColumns info).hash = .ok info.narHash := by
  change parseAnyPrefixed (cString info.narHash.printWithAlgo) = _
  rw [c_string_plain (zero_not_printed info.narHash)]
  exact parse_any_prefixed_print info.narHash

theorem written_nar_size : (writtenColumns info).narSize.getD 0 = info.narSize := by
  change (if info.narSize = 0 then none else some info.narSize).getD 0 = _
  by_cases zero : info.narSize = 0
  · rw [zero]
    rfl
  · rw [if_neg zero]
    rfl

theorem written_ultimate : decide ((writtenColumns info).ultimate = some 1) = info.ultimate := by
  rw [writtenColumns]
  cases ultimate : info.ultimate with
  | false | true => rfl

theorem written_ca : readContentAddress (writtenColumns info).ca = .ok info.ca := by
  change readContentAddress (info.ca.map _) = _
  cases info.ca with
  | none => rfl
  | some ca =>
    change ContentAddress.parseOpt (cString (ContentAddress.render ca)) = _
    rw [c_string_plain (zero_not_rendered ca), parse_opt_render]

end

/-- The columns give back what was written, apart from signatures that do not survive
being joined by blanks. -/
theorem written_describes_iff (written info : ValidPathInfo) :
    Describes (writtenColumns written) info ↔ Recorded written info := by
  constructor
  · intro describes
    refine ⟨?_, ?_, ?_, ?_, ?_⟩
    · exact Except.ok.inj (describes.narHash.symm.trans (written_hash written))
    · exact describes.narSize.symm.trans (written_nar_size written)
    · exact describes.ultimate.symm.trans (written_ultimate written)
    · exact describes.sigs.symm
    · exact Except.ok.inj (describes.ca.symm.trans (written_ca written))
  · intro recorded
    refine ⟨?_, ?_, ?_, ?_, ?_⟩
    · rw [recorded.narHash, written_hash]
    · rw [recorded.narSize, written_nar_size]
    · rw [recorded.ultimate, written_ultimate]
    · rw [recorded.sigs]
      rfl
    · rw [recorded.ca, written_ca]

/-- `sequence` is the largest id that has been given out. -/
structure Db where
  validPaths : List Row
  refs : List (Nat × Nat)
  derivationOutputs : List (Nat × Bytes × Bytes)
  sequence : Nat
  deriving DecidableEq

def Db.row (db : Db) (column : Bytes) : Option Row :=
  db.validPaths.find? fun row => row.path = column

def Db.has (db : Db) (column : Bytes) : Bool := (db.row column).isSome

def Db.references (db : Db) (id : Nat) : List Bytes :=
  db.refs.filterMap fun ref =>
    if ref.1 = id then (db.validPaths.find? fun row => row.id = ref.2).map Row.path else none

def Db.insertRow (db : Db) (row : Row) : Db :=
  { db with validPaths := db.validPaths ++ [row], sequence := row.id }

def Db.updateRow (db : Db) (column : Bytes) (columns : Columns) : Db :=
  { db with validPaths := db.validPaths.map fun row =>
      if row.path = column then { row with toColumns := columns } else row }

def Db.addReference (db : Db) (referrer reference : Nat) : Db :=
  { db with refs := db.refs.filter (· ≠ (referrer, reference)) ++ [(referrer, reference)] }

def Db.addDerivationOutput (db : Db) (drv : Nat) (id path : Bytes) : Db :=
  { db with derivationOutputs :=
      db.derivationOutputs.filter (fun row => ¬(row.1 = drv ∧ row.2.1 = id)) ++ [(drv, id, path)] }

def constraintFailed : Failure :=
  .error (ascii "executing SQLite statement: constraint failed, FOREIGN KEY constraint failed")

/-- Statement `InvalidatePath`. References of a path to itself are deleted before it,
other references to it forbid it, and what hangs on its id is deleted with it. -/
def Db.deleteRow (db : Db) (column : Bytes) : Except Failure Db :=
  let ids := (db.validPaths.filter fun row => row.path = column).map Row.id
  let refs := db.refs.filter fun ref => ¬(ref.1 = ref.2 ∧ ref.2 ∈ ids)
  if refs.any fun ref => ref.2 ∈ ids then .error constraintFailed
  else .ok { db with
    validPaths := db.validPaths.filter fun row => row.path ≠ column
    refs := refs.filter fun ref => ref.1 ∉ ids
    derivationOutputs := db.derivationOutputs.filter fun row => row.1 ∉ ids }

section

variable (config : StoreDirConfig)

def readNarHash (path : StorePath) (hash : Bytes) : Except Failure Hash :=
  match parseAnyPrefixed hash with
  | .error (.badHash message) =>
    .error (.error (ascii "invalid-path entry for " ++ quoted (printStorePath config path) ++
      ascii ": error: " ++ message))
  | outcome => outcome

def readDeriver (deriver : Option Bytes) : Except Failure (Option StorePath) :=
  match deriver with
  | none => .ok none
  | some text => do
      let path ← parseStorePath config text
      pure (some path)

def readRow (db : Db) (path : StorePath) (row : Row) : Except Failure ValidPathInfo := do
  let narHash ← readNarHash config path row.hash
  let deriver ← readDeriver config row.deriver
  let ca ← readContentAddress row.ca
  let references ← (db.references row.id).mapM (parseStorePath config)
  pure {
    path := path
    deriver := deriver
    narHash := narHash
    references := references.toFinset
    registrationTime := row.registrationTime
    narSize := row.narSize.getD 0
    id := row.id
    ultimate := decide (row.ultimate = some 1)
    sigs := readSigs row.sigs
    ca := ca }

def queryPathInfoInternal (db : Db) (path : StorePath) : Except Failure (Option ValidPathInfo) :=
  match db.row (pathColumn config path) with
  | none => .ok none
  | some row => do
      let info ← readRow config db path row
      pure (some info)

def queryValidPathId (db : Db) (path : StorePath) : Except Failure Nat :=
  match db.row (pathColumn config path) with
  | none => .error (invalidPath config path)
  | some row => .ok row.id

end

variable {db : Db}

theorem has_iff {column : Bytes} :
    db.has column = true ↔ ∃ row ∈ db.validPaths, row.path = column := by
  rw [Db.has, Db.row]
  simp

theorem row_insert {row : Row} (new : db.has row.path = false) (column : Bytes) :
    (db.insertRow row).row column = if column = row.path then some row else db.row column := by
  change (db.validPaths ++ [row]).find? _ = _
  rw [find?_append]
  by_cases same : column = row.path
  · have absent : db.row column = none := by
      rw [same]
      exact Option.isSome_eq_false_iff.mp new |> Option.isNone_iff_eq_none.mp
    change (db.row column).or _ = _
    rw [absent, if_pos same, Option.none_or, find?_cons_of_pos]
    exact decide_eq_true same.symm
  · change (db.row column).or _ = _
    rw [if_neg same, find?_cons_of_neg, find?_nil, Option.or_none]
    intro isPath
    exact same (of_decide_eq_true isPath).symm

theorem row_update (db : Db) (written : Bytes) (columns : Columns) (column : Bytes) :
    (db.updateRow written columns).row column =
      if column = written then (db.row column).map fun row => { row with toColumns := columns }
      else db.row column := by
  change (db.validPaths.map _).find? _ = if _ then Option.map _ (db.validPaths.find? _) else _
  rw [find?_map]
  have samePaths : ((fun row : Row => decide (row.path = column)) ∘ fun row =>
      if row.path = written then { row with toColumns := columns } else row) =
        fun row => decide (row.path = column) := by
    funext row
    rw [Function.comp_apply]
    split <;> rfl
  rw [samePaths]
  cases found : db.validPaths.find? fun row => decide (row.path = column) with
  | none =>
    rw [Db.row, found]
    split <;> rfl
  | some row =>
    have isPath : row.path = column := by
      have passed := find?_some found
      rwa [decide_eq_true_eq] at passed
    rw [Db.row, found, Option.map_some, ← isPath]
    split <;> rfl

theorem row_delete {db after : Db} {deleted : Bytes} (ran : db.deleteRow deleted = .ok after)
    (column : Bytes) :
    after.row column = if column = deleted then none else db.row column := by
  rw [Db.deleteRow] at ran
  split at ran
  · cases ran
  rw [← Except.ok.inj ran]
  change (db.validPaths.filter _).find? _ = _
  rw [find?_filter]
  by_cases same : column = deleted
  · rw [if_pos same, find?_eq_none]
    intro row _ both
    simp only [decide_eq_true_eq] at both
    exact both.1 (both.2.trans same)
  rw [if_neg same]
  congr 1
  funext row
  simp only [decide_eq_true_eq, decide_eq_decide, and_iff_right_iff_imp]
  intro isPath
  rw [isPath]
  exact same

variable {config : StoreDirConfig} {path : StorePath}

theorem query_internal_none_iff :
    queryPathInfoInternal config db path = .ok none ↔ db.row (pathColumn config path) = none := by
  rw [queryPathInfoInternal]
  cases db.row (pathColumn config path) with
  | none => exact iff_of_true rfl rfl
  | some row =>
    apply iff_of_false _ nofun
    intro ran
    obtain ⟨info, _, impossible⟩ := except_bind_ok ran
    cases impossible

theorem query_internal_some {info : ValidPathInfo}
    (ran : queryPathInfoInternal config db path = .ok (some info)) :
    info.path = path ∧
      ∃ row, db.row (pathColumn config path) = some row ∧ Describes row.toColumns info := by
  rw [queryPathInfoInternal] at ran
  cases found : db.row (pathColumn config path) with
  | none =>
    rw [found] at ran
    cases ran
  | some row =>
    rw [found] at ran
    obtain ⟨other, ran, same⟩ := except_bind_ok ran
    obtain ⟨narHash, isHash, ran⟩ := except_bind_ok ran
    obtain ⟨deriver, _, ran⟩ := except_bind_ok ran
    obtain ⟨ca, isAddress, ran⟩ := except_bind_ok ran
    obtain ⟨references, _, ran⟩ := except_bind_ok ran
    rw [← Option.some.inj (Except.ok.inj same), ← Except.ok.inj ran]
    rw [readNarHash] at isHash
    split at isHash
    · cases isHash
    · exact ⟨rfl, row, rfl, isHash, rfl, rfl, rfl, isAddress⟩

end Bsd.Store.ValidPaths
