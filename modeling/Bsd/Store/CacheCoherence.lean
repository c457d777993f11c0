import Bsd.Lib.Machines
import Bsd.Store.Registration

/-!
# The cache of path infos and the database

A process registers, signs, invalidates and queries paths. The cache is written when a
path is added or asked for and forgets a path that is invalidated; it is not written
when the row of a valid path changes.
-/

namespace Bsd.Store.CacheCoherence

open Lib.Occurrences Lib.OrdMap Lib.Machines Lib.Outcomes Lib.Readers Util.FilePath Util.Hashes List
  Function Meets
open Store.Path Store.ContentAddresses Store.ContentAddressText Store.PathInfoCache Store.ValidPaths
open Store.Registration Store.DerivationReread
open Bsd.Store.LocalStore (invalidPath)

section

variable (config : StoreDirConfig)

/-- A path that is not valid makes `queryPathInfoInternal` return a null pointer. -/
def addSignatures (storePath : StorePath) (sigs : Finset Bytes) (registry : Registry) :
    Except Failure Unit × Registry :=
  match queryPathInfoInternal config registry.db storePath with
  | .error failure => (.error failure, registry)
  | .ok none => (.error .undefinedBehaviour, registry)
  | .ok (some info) =>
    (.ok (), { registry with
      db := updatePathInfo config { info with sigs := info.sigs ∪ sigs } registry.db })

def invalidatePath (path : StorePath) (registry : Registry) : Except Failure Unit × Registry :=
  match registry.db.deleteRow (pathColumn config path) with
  | .error failure => (.error failure, registry)
  | .ok db =>
    (.ok (), { registry with
      db
      pathInfoCache := Function.update registry.pathInfoCache path.baseName none })

inductive Event where
  | registerValidPaths (now : Int) (readFile : ReadFile) (depth : Nat)
      (infos : ValidPathInfos)
  | addSignatures (storePath : StorePath) (sigs : Finset Bytes)
  | invalidatePath (path : StorePath)
  | queryPathInfo (path : StorePath)

variable (sha : Sha256)

/-- A query that finds the path invalid has done its work. -/
def perform (registry : Registry) : Event → Except Failure Unit × Registry
  | .registerValidPaths now readFile depth infos =>
    Registration.registerValidPaths config sha readFile depth now infos registry
  | .addSignatures storePath sigs => addSignatures config storePath sigs registry
  | .invalidatePath path => invalidatePath config path registry
  | .queryPathInfo path =>
    match registry.queryPathInfo config path with
    | (after, .ok _) => (.ok (), after)
    | (after, .error failure) =>
      (if failure = invalidPath config path then .ok () else .error failure, after)

def act (registry : Registry) (event : Event) : Registry := (perform config sha registry event).2

def Succeeds (registry : Registry) (event : Event) : Prop :=
  (perform config sha registry event).1 = .ok ()

end

section

variable (config : StoreDirConfig)

/-- Every query says what the row of the path says, and that the path is invalid exactly
if there is no row. -/
def Coherent (registry : Registry) : Prop :=
  ∀ path, (∀ info, (registry.queryPathInfo config path).2 = .ok info →
      ∃ row, registry.db.row (pathColumn config path) = some row ∧ Describes row.toColumns info) ∧
    ((registry.queryPathInfo config path).2 = .error (invalidPath config path) ↔
      registry.db.row (pathColumn config path) = none)

def Agrees : Option Row → Option ValidPathInfo → Prop
  | some row, some info => Describes row.toColumns info
  | none, none => True
  | _, _ => False

def CacheAgrees (registry : Registry) : Prop :=
  ∀ (path : StorePath) value, registry.pathInfoCache path.baseName = some value →
    Agrees (registry.db.row (pathColumn config path)) value

variable {config} {value : Option ValidPathInfo}

theorem agrees_some_row {row : Row} :
    Agrees (some row) value ↔ ∃ info, value = some info ∧ Describes row.toColumns info := by
  cases value with
  | none => exact iff_of_false id nofun
  | some info =>
    constructor
    · intro describes
      exact ⟨info, rfl, describes⟩
    intro found
    obtain ⟨other, same, describes⟩ := found
    rw [Option.some.inj same]
    exact describes

theorem agrees_no_row : Agrees none value ↔ value = none := by
  cases value with
  | none => exact iff_of_true trivial rfl
  | some info => exact iff_of_false id nofun

end

abbrev Reads {Value : Type} (run : Except Failure Value) : Prop :=
  Meets (fun _ => True) (fun failure => ∀ message, failure ≠ .invalidPath message) run

theorem reads_bind {Value Result : Type} {run : Except Failure Value}
    {next : Value → Except Failure Result} (first : Reads run) (second : ∀ value, Reads (next value)) :
    Reads (run >>= next) :=
  meets_bind first fun value _ => second value

theorem reads_map {Item Value : Type} {read : Item → Except Failure Value}
    (each : ∀ item, Reads (read item)) (items : List Item) : Reads (items.mapM read) := by
  induction items with
  | nil => exact ok trivial
  | cons item items ih =>
    rw [mapM_cons]
    apply reads_bind (each item)
    intro value
    exact reads_bind ih fun values => ok trivial

theorem check_name_reads (name : Bytes) : Reads (checkName name) := by
  rw [checkName]
  split
  · exact error (by simp)
  split
  · exact error (by simp)
  apply reads_bind
  · unfold checkDots
    split
    · split
      all_goals first | exact error (by simp [notValid, dashedComponent]) | exact ok trivial
    · exact ok trivial
  · intro done
    rw [checkCharacters]
    split
    · exact error (by simp)
    · exact ok trivial

theorem of_base_name_reads (baseName : Bytes) : Reads (StorePath.ofBaseName baseName) := by
  have checks : Reads (checkBaseName baseName) := by
    rw [checkBaseName]
    split
    · exact error (by simp)
    split
    · exact error (by simp)
    have named := check_name_reads (nameOf baseName)
    rw [checkPathName]
    split
    · exact ok trivial
    · exact error (by simp)
    next failure _ failed =>
      rw [failed] at named
      cases named with
      | error allowed => exact error allowed
  rw [StorePath.ofBaseName]
  split
  · exact ok trivial
  next failure failed =>
    rw [failed] at checks
    cases checks with
    | error allowed => exact error allowed

theorem parse_store_path_reads (config : StoreDirConfig) (text : Bytes) :
    Reads (parseStorePath config text) := by
  apply reads_bind
  · unfold canonPath
    split
    · exact error nofun
    · split
      · exact ok trivial
      · exact error nofun
  · intro clean
    split
    · exact of_base_name_reads _
    · exact error nofun

theorem parse_hash_algo_reads (text : Bytes) : Reads (parseHashAlgo text) := by
  rw [parseHashAlgo]
  split
  · exact ok trivial
  · exact error nofun

theorem parse_hash_reads (text : Bytes) (algo : HashAlgorithm) : Reads (parseHash text algo) := by
  rw [parseHash]
  split
  · split
    · exact ok trivial
    · exact error (by simp)
  · exact error (by simp)

theorem parse_any_prefixed_reads (text : Bytes) : Reads (parseAnyPrefixed text) := by
  rw [parseAnyPrefixed]
  split
  · exact reads_bind (parse_hash_algo_reads _) fun algo => parse_hash_reads _ algo
  split
  · apply reads_bind (parse_hash_algo_reads _)
    intro algo
    rw [parseHashSRI]
    split
    · exact ok trivial
    · exact error (by simp)
  · exact error (by simp)

theorem parse_content_address_reads (text : Bytes) : Reads (ContentAddress.parse text) := by
  have algoPart : ∀ wholeInput rest, Reads (parseAlgoPart wholeInput rest) := by
    intro wholeInput rest
    rw [parseAlgoPart]
    split
    · exact error (by simp)
    · exact reads_bind (parse_hash_algo_reads _) fun algo => ok trivial
  apply reads_bind
  · rw [parseContentAddressMethodPrefix]
    split
    · exact error (by simp)
    split
    · exact reads_bind (algoPart _ _) fun parts => ok trivial
    · split
      · exact reads_bind (algoPart _ _) fun parts => ok trivial
      · exact error (by simp)
  · intro parts
    exact reads_bind (parse_hash_reads _ _) fun hash => ok trivial

theorem query_internal_reads (config : StoreDirConfig) (db : Db) (path : StorePath) :
    Reads (queryPathInfoInternal config db path) := by
  rw [queryPathInfoInternal]
  split
  · exact ok trivial
  next row _ =>
    refine reads_bind ?_ fun info => ok trivial
    apply reads_bind
    · have parses := parse_any_prefixed_reads row.hash
      rw [readNarHash]
      split
      · exact error (by simp)
      · exact parses
    intro narHash
    apply reads_bind
    · unfold readDeriver
      split
      · exact ok trivial
      · exact reads_bind (parse_store_path_reads _ _) fun deriver => ok trivial
    intro deriver
    apply reads_bind
    · unfold readContentAddress
      split
      · exact ok trivial
      rw [ContentAddress.parseOpt]
      split
      · exact ok trivial
      · exact reads_bind (parse_content_address_reads _) fun ca => ok trivial
    · intro ca
      exact reads_bind (reads_map (parse_store_path_reads config) _)
        fun references => ok trivial

variable {path : StorePath}

section

variable {config : StoreDirConfig} {registry : Registry}

theorem coherent_iff : Coherent config registry ↔ CacheAgrees config registry := by
  constructor
  · intro coherent path value cached
    obtain ⟨describes, invalid⟩ := coherent path
    rw [query_path_info_eq, cached] at describes invalid
    cases value with
    | none =>
      rw [invalid.mp rfl]
      exact trivial
    | some info =>
      obtain ⟨row, found, described⟩ := describes info rfl
      rw [found]
      exact described
  · intro agrees path
    rw [query_path_info_eq]
    cases cached : registry.pathInfoCache path.baseName with
    | some value =>
      have same := agrees path value cached
      cases found : registry.db.row (pathColumn config path) with
      | none =>
        rw [found, agrees_no_row] at same
        rw [same]
        exact ⟨fun _ => nofun, iff_of_true rfl rfl⟩
      | some row =>
        rw [found, agrees_some_row] at same
        obtain ⟨info, isInfo, described⟩ := same
        rw [isInfo]
        refine ⟨?_, iff_of_false nofun nofun⟩
        intro other answer
        rw [← Except.ok.inj answer]
        exact ⟨row, rfl, described⟩
    | none =>
      cases internal : queryPathInfoInternal config registry.db path with
      | error failure =>
        refine ⟨fun _ => nofun, iff_of_false ?_ ?_⟩
        · intro answer
          have reads := query_internal_reads config registry.db path
          rw [internal] at reads
          cases reads with
          | error allowed => exact allowed _ (Except.error.inj answer)
        · intro absent
          rw [query_internal_none_iff.mpr absent] at internal
          cases internal
      | ok value =>
        cases value with
        | none => exact ⟨fun _ => nofun, iff_of_true rfl (query_internal_none_iff.mp internal)⟩
        | some info =>
          obtain ⟨_, row, found, described⟩ := query_internal_some internal
          refine ⟨?_, iff_of_false nofun (by rw [found]; nofun)⟩
          intro other answer
          rw [← Except.ok.inj answer]
          exact ⟨row, found, described⟩

end

variable {infos : List ValidPathInfo} {info : ValidPathInfo}

section Batches

variable {config : StoreDirConfig} {sha : Sha256} {readFile : ReadFile}
  {depth : Nat} {now : Int}

def isFor (config : StoreDirConfig) (column : Bytes) (info : ValidPathInfo) : Bool :=
  pathColumn config info.path = column

theorem is_for_iff {column : Bytes} :
    isFor config column info = true ↔ pathColumn config info.path = column := decide_eq_true_iff

structure Round (config : StoreDirConfig) (sha : Sha256)
    (readFile : ReadFile) (info : ValidPathInfo) (before after : Registry) :
    Prop where
  admitted : pathColumn config info.path ∈ Db.columns before.db ∨
    accept config sha readFile info = .ok ()
  columns : Db.columns after.db = insert (pathColumn config info.path) (Db.columns before.db)
  written : ∃ row, after.db.row (pathColumn config info.path) = some row ∧
    row.toColumns = writtenColumns info
  others : ∀ column ≠ pathColumn config info.path, after.db.row column = before.db.row column

variable {registry : Registry}

theorem register_entries_cons {rest : List ValidPathInfo}
    (ran : (registerEntries config sha readFile depth now (info :: rest) registry).1 = .ok ()) :
    info.narHash.algo = .sha256 ∧ ∃ after, Round config sha readFile info registry after ∧
      registerEntries config sha readFile depth now (info :: rest) registry =
        registerEntries config sha readFile depth now rest after := by
  rw [registerEntries] at ran ⊢
  by_cases isSha256 : info.narHash.algo = .sha256
  · rw [if_pos isSha256] at ran ⊢
    refine ⟨isSha256, ?_⟩
    by_cases valid : registry.db.has (pathColumn config info.path) = true
    · rw [if_pos valid]
      refine ⟨_, ⟨.inl (mem_columns.mpr valid), ?_, ?_, ?_⟩, rfl⟩
      · rw [Finset.insert_eq_of_mem (mem_columns.mpr valid)]
        exact columns_update _ _ _
      · obtain ⟨row, found⟩ := Option.isSome_iff_exists.mp valid
        refine ⟨{ row with toColumns := writtenColumns info }, ?_, rfl⟩
        rw [updatePathInfo, row_update, if_pos rfl, found]
        rfl
      · intro column other
        rw [updatePathInfo, row_update, if_neg other]
    · rw [if_neg valid] at ran ⊢
      cases admitted : accept config sha readFile info with
      | error failure =>
        obtain ⟨db, refused⟩ := add_valid_path_error depth now registry admitted
        rw [refused] at ran
        cases ran
      | ok done =>
        obtain ⟨db, added, rows⟩ := add_valid_path_ok depth now registry admitted
        rw [added]
        have inserted : ∀ column, db.row column =
            (registry.db.insertRow (newRow config now registry.db info)).row column := by
          intro column
          rw [Db.row, rows]
          rfl
        have new : registry.db.has (newRow config now registry.db info).path = false :=
          Bool.eq_false_iff.mpr valid
        refine ⟨_, ⟨.inr admitted, columns_insert rows, ?_, ?_⟩, rfl⟩
        · refine ⟨newRow config now registry.db info, ?_, rfl⟩
          change db.row _ = _
          rw [inserted, row_insert new]
          exact if_pos rfl
        · intro column other
          change db.row column = _
          rw [inserted, row_insert new]
          exact if_neg other
  · rw [if_neg isSha256] at ran
    cases ran

section

variable (ran : (registerEntries config sha readFile depth now infos registry).1 = .ok ())

include ran

theorem register_entries_rows
    (column : Bytes) : match infos.reverse.find? (isFor config column) with
    | none => (registerEntries config sha readFile depth now infos registry).2.db.row column =
        registry.db.row column
    | some last => ∃ row,
        (registerEntries config sha readFile depth now infos registry).2.db.row column = some row ∧
          row.toColumns = writtenColumns last := by
  induction infos generalizing registry with
  | nil => rfl
  | cons info rest ih =>
    obtain ⟨_, after, round, same⟩ := register_entries_cons ran
    rw [same] at ran ⊢
    have later := ih ran
    rw [reverse_cons, find?_append]
    cases found : rest.reverse.find? (isFor config column) with
    | some last =>
      rw [found] at later
      exact later
    | none =>
      rw [found] at later
      by_cases isColumn : pathColumn config info.path = column
      · rw [find?_cons_of_pos (is_for_iff.mpr isColumn)]
        obtain ⟨row, written, isWritten⟩ := round.written
        rw [isColumn] at written
        exact ⟨row, later.trans written, isWritten⟩
      · rw [find?_cons_of_neg (fun isFor => isColumn (is_for_iff.mp isFor))]
        exact later.trans (round.others column fun equal => isColumn equal.symm)

theorem mem_added_iff
    (info : ValidPathInfo) : info ∈ added config sha readFile (Db.columns registry.db) infos ↔
      pathColumn config info.path ∉ Db.columns registry.db ∧
        infos.find? (isFor config (pathColumn config info.path)) = some info := by
  induction infos generalizing registry with
  | nil => exact iff_of_false nofun nofun
  | cons first rest ih =>
    obtain ⟨isSha256, after, round, same⟩ := register_entries_cons ran
    rw [same] at ran
    have later := ih ran
    rw [round.columns] at later
    rw [added, if_pos isSha256]
    by_cases valid : pathColumn config first.path ∈ Db.columns registry.db
    · rw [Finset.insert_eq_of_mem valid] at later
      rw [if_pos valid, later]
      apply and_congr_right
      intro new
      rw [find?_cons_of_neg]
      intro isSame
      rw [is_for_iff.mp isSame] at valid
      exact new valid
    · have admitted := round.admitted.resolve_left valid
      rw [if_neg valid, admitted]
      rw [mem_cons, later, Finset.mem_insert, not_or]
      by_cases isSame : pathColumn config first.path = pathColumn config info.path
      · rw [find?_cons_of_pos (is_for_iff.mpr isSame), Option.some.injEq, ← isSame,
          and_iff_right valid, eq_comm]
        exact or_iff_left fun inRest => inRest.1.1 rfl
      rw [find?_cons_of_neg fun equal => isSame (is_for_iff.mp equal),
        and_iff_right (Ne.symm isSame)]
      refine or_iff_right ?_
      rintro rfl
      exact isSame rfl

end

end Batches

section

variable (config : StoreDirConfig)

/-- What is cached of a path after a batch, if `first` is the first info of it: a new path
is cached with that info. -/
def cachedAfter (registry : Registry) (path : StorePath) (first : ValidPathInfo) :
    Option (Option ValidPathInfo) :=
  if registry.db.has (pathColumn config path) = false ∧ first.path = path then some (some first)
  else registry.pathInfoCache path.baseName

/-- Where a row is written, what is cached of its path must be what is written; signing
a cached path must add nothing to its signatures. Paths that are the same up to a NUL
character share a row. -/
def Allowed (registry : Registry) : Event → Prop
  | .registerValidPaths _ _ _ infos =>
    ∀ (path : StorePath) first last,
      infos.values.find? (isFor config (pathColumn config path)) = some first →
      infos.values.reverse.find? (isFor config (pathColumn config path)) = some last →
      ∀ value, cachedAfter config registry path first = some value →
        ∃ info, value = some info ∧ Recorded last info
  | .addSignatures storePath sigs =>
    ∀ (path : StorePath) info, pathColumn config path = pathColumn config storePath →
      registry.pathInfoCache path.baseName = some (some info) →
      storedSigs (info.sigs ∪ sigs) = info.sigs
  | .invalidatePath invalidated =>
    ∀ (path : StorePath) info, pathColumn config path = pathColumn config invalidated →
      path ≠ invalidated → registry.pathInfoCache path.baseName ≠ some (some info)
  | .queryPathInfo _ => True

variable {config} {sha : Sha256} {registry : Registry} {readFile : ReadFile}
  {depth : Nat} {now : Int}

section

variable (ran : (registerEntries config sha readFile depth now infos registry).1 = .ok ())

include ran

theorem cached_after_eq {first : ValidPathInfo}
    (isFirst : infos.find? (isFor config (pathColumn config path)) = some first) :
    rememberAll registry.pathInfoCache
        (added config sha readFile (Db.columns registry.db) infos) path.baseName =
      cachedAfter config registry path first := by
  have distinct := added_distinct config sha readFile (Db.columns registry.db) infos
  rw [cachedAfter]
  by_cases isNew : registry.db.has (pathColumn config path) = false ∧ first.path = path
  · have member : first ∈ added config sha readFile (Db.columns registry.db) infos := by
      rw [mem_added_iff ran, isNew.2, mem_columns, Bool.not_eq_true]
      exact ⟨isNew.1, isFirst⟩
    rw [if_pos isNew, ← isNew.2, remember_all_mem distinct member]
  rw [if_neg isNew, remember_all_other]
  intro info member names
  have samePath := base_name_injective names
  rw [mem_added_iff ran, samePath, isFirst, mem_columns, Bool.not_eq_true,
    Option.some.injEq] at member
  apply isNew
  rw [member.2]
  exact ⟨member.1, samePath⟩

theorem not_cached_after (absent : infos.find? (isFor config (pathColumn config path)) = none) :
    rememberAll registry.pathInfoCache
        (added config sha readFile (Db.columns registry.db) infos) path.baseName =
      registry.pathInfoCache path.baseName := by
  apply remember_all_other
  intro info member names
  rw [mem_added_iff ran, base_name_injective names, absent] at member
  cases member.2

end

theorem find_none_reverse {wanted : ValidPathInfo → Bool} :
    infos.find? wanted = none ↔ infos.reverse.find? wanted = none := by
  simp

theorem register_exact {infos : ValidPathInfos} (agrees : CacheAgrees config registry)
    (ran : (registerValidPaths config sha readFile depth now infos registry).1 = .ok ()) :
    CacheAgrees config (registerValidPaths config sha readFile depth now infos registry).2 ↔
      Allowed config registry (.registerValidPaths now readFile depth infos) := by
  obtain ⟨cache, _, written⟩ := register_valid_paths_spec depth now registry infos
  obtain ⟨entries, sameRows⟩ := written ran
  rw [register_entries_cache] at cache
  have rows : ∀ column,
      (registerValidPaths config sha readFile depth now infos registry).2.db.row column =
        (registerEntries config sha readFile depth now infos.values registry).2.db.row column := by
    intro column
    rw [Db.row, Db.row, sameRows]
  constructor
  · intro after path first last isFirst isLast value cached
    have written := register_entries_rows entries (pathColumn config path)
    rw [isLast] at written
    obtain ⟨row, found, isWritten⟩ := written
    rw [← cached_after_eq entries isFirst, ← cache] at cached
    have same := after path value cached
    rw [rows, found, agrees_some_row, isWritten] at same
    obtain ⟨info, isInfo, described⟩ := same
    exact ⟨info, isInfo, (written_describes_iff last info).mp described⟩
  · intro allowed path value cached
    have written := register_entries_rows entries (pathColumn config path)
    rw [rows]
    rw [cache] at cached
    cases isFirst : infos.values.find? (isFor config (pathColumn config path)) with
    | none =>
      rw [find_none_reverse.mp isFirst] at written
      rw [not_cached_after entries isFirst] at cached
      rw [written]
      exact agrees path value cached
    | some first =>
      cases isLast : infos.values.reverse.find? (isFor config (pathColumn config path)) with
      | none =>
        rw [find_none_reverse.mpr isLast] at isFirst
        cases isFirst
      | some last =>
        rw [isLast] at written
        obtain ⟨row, found, isWritten⟩ := written
        rw [cached_after_eq entries isFirst] at cached
        obtain ⟨info, isInfo, recorded⟩ :=
          allowed path first last isFirst isLast value cached
        rw [found, isInfo, agrees_some_row]
        refine ⟨info, rfl, ?_⟩
        rw [isWritten]
        exact (written_describes_iff last info).mpr recorded

theorem describes_recorded {columns : Columns} {other : ValidPathInfo} (sigs : Finset Bytes)
    (first : Describes columns info) (second : Describes columns other) :
    Recorded { other with sigs := other.sigs ∪ sigs } info ↔
      storedSigs (info.sigs ∪ sigs) = info.sigs := by
  have sameSigs : info.sigs = other.sigs := first.sigs.symm.trans second.sigs
  rw [sameSigs]
  constructor
  · intro recorded
    exact recorded.sigs.symm.trans sameSigs
  intro stored
  exact ⟨Except.ok.inj (first.narHash.symm.trans second.narHash),
    first.narSize.symm.trans second.narSize, first.ultimate.symm.trans second.ultimate,
    sameSigs.trans stored.symm, Except.ok.inj (first.ca.symm.trans second.ca)⟩

section

variable (agrees : CacheAgrees config registry)

include agrees

theorem add_signatures_exact {storePath : StorePath} {sigs : Finset Bytes}
    (ran : (addSignatures config storePath sigs registry).1 = .ok ()) :
    CacheAgrees config (addSignatures config storePath sigs registry).2 ↔
      Allowed config registry (.addSignatures storePath sigs) := by
  rw [addSignatures] at ran ⊢
  cases internal : queryPathInfoInternal config registry.db storePath with
  | error failure =>
    rw [internal] at ran
    cases ran
  | ok value =>
    rw [internal] at ran
    cases value with
    | none => cases ran
    | some signed =>
      obtain ⟨isPath, row, found, described⟩ := query_internal_some internal
      have rows : ∀ path : StorePath,
          (updatePathInfo config { signed with sigs := signed.sigs ∪ sigs } registry.db).row
            (pathColumn config path) =
          if pathColumn config path = pathColumn config storePath then
            some { row with toColumns :=
              writtenColumns { signed with sigs := signed.sigs ∪ sigs } }
          else registry.db.row (pathColumn config path) := by
        intro path
        rw [updatePathInfo, row_update]
        rw [isPath]
        by_cases same : pathColumn config path = pathColumn config storePath
        · rw [if_pos same, if_pos same, same, found]
          rfl
        · rw [if_neg same, if_neg same]
      constructor
      · intro after path info same cached
        have before := agrees path (some info) cached
        rw [same, found] at before
        have now := after path (some info) cached
        rw [rows, if_pos same] at now
        exact (describes_recorded sigs before described).mp
          ((written_describes_iff _ _).mp now)
      · intro allowed path value cached
        have before := agrees path value cached
        rw [rows]
        by_cases same : pathColumn config path = pathColumn config storePath
        · rw [same, found, agrees_some_row] at before
          obtain ⟨info, isInfo, describes⟩ := before
          rw [isInfo] at cached ⊢
          rw [if_pos same]
          exact (written_describes_iff _ _).mpr
            ((describes_recorded sigs describes described).mpr (allowed path info same cached))
        · rw [if_neg same]
          exact before

theorem invalidate_exact {invalidated : StorePath}
    (ran : (invalidatePath config invalidated registry).1 = .ok ()) :
    CacheAgrees config (invalidatePath config invalidated registry).2 ↔
      Allowed config registry (.invalidatePath invalidated) := by
  rw [invalidatePath] at ran ⊢
  cases deleted : registry.db.deleteRow (pathColumn config invalidated) with
  | error failure =>
    rw [deleted] at ran
    cases ran
  | ok db =>
    have cache : ∀ path ≠ invalidated,
        update registry.pathInfoCache invalidated.baseName none path.baseName =
          registry.pathInfoCache path.baseName := by
      intro path other
      exact update_of_ne (fun names => other (base_name_injective names)) _ _
    constructor
    · intro after path info same other cached
      have now := after path (some info) (by
        change update registry.pathInfoCache invalidated.baseName none path.baseName = _
        rw [cache path other]
        exact cached)
      rw [row_delete deleted, if_pos same] at now
      exact now
    · intro allowed path value cached
      change update registry.pathInfoCache invalidated.baseName none path.baseName = _
        at cached
      rw [row_delete deleted]
      by_cases other : path = invalidated
      · rw [other, update_self] at cached
        cases cached
      rw [cache path other] at cached
      by_cases same : pathColumn config path = pathColumn config invalidated
      · rw [if_pos same, agrees_no_row]
        cases value with
        | none => rfl
        | some info => exact absurd cached (allowed path info same other)
      · rw [if_neg same]
        exact agrees path value cached

theorem query_agrees (asked : StorePath) :
    CacheAgrees config (registry.queryPathInfo config asked).1 := by
  rw [query_path_info_eq]
  cases registry.pathInfoCache asked.baseName with
  | some value => exact agrees
  | none =>
    cases internal : queryPathInfoInternal config registry.db asked with
    | error failure => exact agrees
    | ok found =>
      intro path value cached
      change PathInfoCache.upsert registry.pathInfoCache asked.baseName found path.baseName = _
        at cached
      by_cases same : path = asked
      · rw [same, PathInfoCache.upsert, update_self] at cached
        rw [same, ← Option.some.inj cached]
        cases found with
        | none =>
          rw [query_internal_none_iff.mp internal]
          exact trivial
        | some info =>
          obtain ⟨_, row, isRow, described⟩ := query_internal_some internal
          rw [isRow]
          exact described
      · rw [PathInfoCache.upsert,
          update_of_ne fun names => same (base_name_injective names)] at cached
        exact agrees path value cached

end

theorem step_exact (registry : Registry) (event : Event) (coherent : Coherent config registry)
    (succeeds : Succeeds config sha registry event) :
    Coherent config (act config sha registry event) ↔ Allowed config registry event := by
  rw [coherent_iff] at coherent ⊢
  cases event with
  | registerValidPaths now readFile depth infos => exact register_exact coherent succeeds
  | addSignatures storePath sigs => exact add_signatures_exact coherent succeeds
  | invalidatePath path => exact invalidate_exact coherent succeeds
  | queryPathInfo path =>
    apply iff_of_true _ trivial
    have after := query_agrees coherent path
    rw [act, perform]
    cases asked : registry.queryPathInfo config path with
    | mk later outcome =>
      rw [asked] at after
      cases outcome <;> exact after

/-- In a run of successful calls every state is coherent exactly if every call meets the
condition `Allowed`. -/
theorem cache_coherent_iff {start : Registry} (coherent : Coherent config start)
    {events : List Event} (succeed : AllSteps (act config sha) (Succeeds config sha) start events) :
    AllSteps (act config sha)
        (fun registry event => Coherent config (act config sha registry event)) start events ↔
      AllSteps (act config sha) (Allowed config) start events :=
  all_steps_kept_iff (Coherent config) step_exact coherent succeed

theorem fresh_coherent {start : Registry}
    (fresh : ∀ path : StorePath, start.pathInfoCache path.baseName = none) :
    Coherent config start := by
  rw [coherent_iff]
  intro path value cached
  rw [fresh path] at cached
  cases cached

end

def registerHello : Event := .registerValidPaths 0 noFiles 0 (batchOf helloInfo)

def signingRun : List Event :=
  [registerHello, .addSignatures helloPath {ascii "cache.example.org-1:c2lnbmF0dXJl"}]

/-- The row has the signature, and the answer to a query does not. -/
theorem signed_path_stale :
    AllSteps (act usualStore zeroSha) (Succeeds usualStore zeroSha) emptyRegistry signingRun ∧
      ((signingRun.foldl (act usualStore zeroSha) emptyRegistry).db.row
          (pathColumn usualStore helloPath)).map (fun row => row.sigs) =
        some (some (ascii "cache.example.org-1:c2lnbmF0dXJl")) ∧
      ((signingRun.foldl (act usualStore zeroSha) emptyRegistry).queryPathInfo
          usualStore helloPath).2 = .ok helloInfo ∧ helloInfo.sigs = ∅ := by
  refine ⟨⟨?_, ?_, trivial⟩, ?_, ?_, rfl⟩
  · change (perform usualStore zeroSha _ _).1 = .ok ()
    decide +kernel
  · change (perform usualStore zeroSha _ _).1 = .ok ()
    decide +kernel
  · decide +kernel
  · decide +kernel

def askingRun : List Event := [registerHello, .queryPathInfo helloPath]

theorem cache_coherent_asking : AllSteps (act usualStore zeroSha)
      (fun registry event => Coherent usualStore (act usualStore zeroSha registry event))
      emptyRegistry askingRun := by
  have succeed : AllSteps (act usualStore zeroSha) (Succeeds usualStore zeroSha) emptyRegistry
      askingRun := by
    refine ⟨?_, ?_, trivial⟩
    · change (perform usualStore zeroSha _ _).1 = .ok ()
      decide +kernel
    · change (perform usualStore zeroSha _ _).1 = .ok ()
      decide +kernel
  apply (cache_coherent_iff (fresh_coherent fun _ => rfl) succeed).mpr
  refine ⟨?_, trivial, trivial⟩
  intro path first last isFirst isLast value cached
  have firstHello : first = helloInfo := List.mem_singleton.mp (List.mem_of_find?_eq_some isFirst)
  have lastHello : last = helloInfo := by
    have member := List.mem_reverse.mp (List.mem_of_find?_eq_some isLast)
    exact List.mem_singleton.mp member
  rw [cachedAfter] at cached
  split at cached
  · rw [firstHello] at cached
    rw [lastHello, ← Option.some.inj cached]
    exact ⟨helloInfo, rfl, rfl, rfl, rfl, rfl, rfl⟩
  · cases cached

end Bsd.Store.CacheCoherence
