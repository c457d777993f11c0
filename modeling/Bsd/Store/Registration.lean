import Bsd.Store.CheckInvariants
import Bsd.Store.DerivationReread
import Bsd.Store.ValidPaths

/-!
# Registering valid paths

`registerValidPaths` writes a batch of paths in one transaction. Paths that are new
are also put into the cache of path infos, which the transaction does not cover.
-/

namespace Bsd.Store.Registration

open Lib.Occurrences Lib.OrdMap Lib.Readers Util.FilePath Util.Hashes Util.TopoSort Store.Path List
open Store.ContentAddresses Store.Derivations Store.HashModulo Store.CheckInvariants
open Store.PathInfoCache Store.ValidPaths Store.DerivationReread
open Bsd.Store.LocalStore (invalidPath)

structure Registry where
  db : Db
  pathInfoCache : Entries
  drvHashes : DrvHashes

section

variable (config : StoreDirConfig)

def Registry.isValidPath (registry : Registry) (path : StorePath) : Bool :=
  match registry.pathInfoCache path.baseName with
  | some value => value.isSome
  | none => registry.db.has (pathColumn config path)

def Registry.queryPathInfo (registry : Registry) (path : StorePath) :
    Registry × Except Failure ValidPathInfo :=
  match PathInfoCache.queryPathInfo config (queryPathInfoInternal config registry.db)
    ⟨registry.pathInfoCache, none⟩ path with
  | (caches, outcome) => ({ registry with pathInfoCache := caches.pathInfoCache }, outcome)

end

section

variable (config : StoreDirConfig) (sha : Sha256)

def contentAddressWithReferences (info : ValidPathInfo) :
    Except Failure (Option ContentAddressWithReferences) :=
  match info.ca with
  | none => .ok none
  | some ca =>
    match ca.method with
    | .text =>
      if info.path ∈ info.references then .error .assertion
      else .ok (some (.textInfo ca.hash info.references))
    | method =>
      .ok (some (.fixedOutputInfo method.getFileIngestionMethod ca.hash
        ⟨info.references.erase info.path, decide (info.path ∈ info.references)⟩))

def isContentAddressed (info : ValidPathInfo) : Except Failure Bool := do
  let fullCaOpt ← contentAddressWithReferences info
  match fullCaOpt with
  | none => pure false
  | some fullCa => do
      let caPath ← makeFixedOutputPathFromCA config sha info.path.name fullCa
      pure (decide (caPath = info.path))

/-- A path with a content address must have been made from it. -/
def checkClaim (info : ValidPathInfo) : Except Failure Unit :=
  if info.ca.isSome then do
    let addressed ← isContentAddressed config sha info
    if addressed then pure ()
    else throw (.error (ascii "cannot add path " ++ quoted (printStorePath config info.path) ++
      ascii " to the Bsd store because it claims to be content-addressed but isn't"))
  else pure ()

def outputsAndOptPaths (drv : Derivation) : Except Failure (List (Bytes × Option StorePath)) :=
  drv.outputs.entries.mapM fun entry => do
    let path ← outputPath config sha drv.name entry.1 entry.2
    pure (entry.1, path)

def cacheDrvOutputs (id : Nat) (outputs : List (Bytes × Option StorePath)) (db : Db) : Db :=
  outputs.foldl
    (fun db output =>
      match output.2 with
      | some path => db.addDerivationOutput id (cString output.1) (pathColumn config path)
      | none => db)
    db

variable (readFile : ReadFile) (depth : Nat) (now : Int)

def newRow (db : Db) (info : ValidPathInfo) : Row where
  toColumns := writtenColumns info
  id := db.sequence + 1
  path := pathColumn config info.path
  registrationTime := if info.registrationTime = 0 then now else info.registrationTime
  deriver := info.deriver.map (pathColumn config)

def Registry.remember (registry : Registry) (info : ValidPathInfo) : Registry :=
  { registry with
    pathInfoCache := upsert registry.pathInfoCache info.path.baseName (some info) }

def checkIfAsked (checkOutputs : Bool) (drv : Derivation) (path : StorePath)
    (drvHashes : DrvHashes) : Except Failure Unit × DrvHashes :=
  if checkOutputs then checkInvariants config sha drv path readFile depth drvHashes
  else (.ok (), drvHashes)

def addValidPath (info : ValidPathInfo) (checkOutputs : Bool) (registry : Registry) :
    Except Failure Nat × Registry :=
  match checkClaim config sha info with
  | .error failure => (.error failure, registry)
  | .ok _ =>
    let row := newRow config now registry.db info
    let registered := { registry with db := registry.db.insertRow row }
    if info.path.isDerivation then
      match readInvalidDerivation config readFile info.path with
      | .error failure => (.error failure, registered)
      | .ok drv =>
        match checkIfAsked config sha readFile depth checkOutputs drv info.path
          registered.drvHashes with
        | (.error failure, drvHashes) => (.error failure, { registered with drvHashes })
        | (.ok _, drvHashes) =>
          match outputsAndOptPaths config sha drv with
          | .error failure => (.error failure, { registered with drvHashes })
          | .ok outputs =>
            (.ok row.id, Registry.remember
              { registered with
                drvHashes
                db := cacheDrvOutputs config row.id outputs registered.db } info)
    else (.ok row.id, registered.remember info)

def updatePathInfo (info : ValidPathInfo) (db : Db) : Db :=
  db.updateRow (pathColumn config info.path) (writtenColumns info)

def registerEntries : List ValidPathInfo → Registry → Except Failure Unit × Registry
  | [], registry => (.ok (), registry)
  | info :: rest, registry =>
    if info.narHash.algo = .sha256 then
      if registry.db.has (pathColumn config info.path) then
        registerEntries rest { registry with db := updatePathInfo config info registry.db }
      else
        match addValidPath config sha readFile depth now info false registry with
        | (.ok _, after) => registerEntries rest after
        | (.error failure, after) => (.error failure, after)
    else (.error .assertion, registry)

def addReferencesOf (info : ValidPathInfo) (db : Db) : Except Failure Db := do
  let referrer ← queryValidPathId config db info.path
  info.references.sort.foldlM
    (fun db path => do
      let reference ← queryValidPathId config db path
      pure (db.addReference referrer reference))
    db

def addReferences (infos : List ValidPathInfo) (db : Db) : Except Failure Db :=
  infos.foldlM (fun db info => addReferencesOf config info db) db

def checkDerivations : List ValidPathInfo → DrvHashes → Except Failure Unit × DrvHashes
  | [], drvHashes => (.ok (), drvHashes)
  | info :: rest, drvHashes =>
    if info.path.isDerivation then
      match readInvalidDerivation config readFile info.path with
      | .error failure => (.error failure, drvHashes)
      | .ok drv =>
        match checkInvariants config sha drv info.path readFile depth drvHashes with
        | (.error failure, after) => (.error failure, after)
        | (.ok _, after) => checkDerivations rest after
    else checkDerivations rest drvHashes

abbrev ValidPathInfos := SortedMap StorePath ValidPathInfo

def ValidPathInfos.values (infos : ValidPathInfos) : List ValidPathInfo := infos.entries.map Prod.snd

def sortBatch (infos : ValidPathInfos) : Except Failure (List StorePath) :=
  topoSort (infos.values.map ValidPathInfo.path).toFinset
    (fun path =>
      match infos.get path with
      | some info => info.references
      | none => ∅)
    fun path parent =>
      .buildError (ascii "cycle detected in the references of " ++
        quoted (printStorePath config path) ++ ascii " from " ++
        quoted (printStorePath config parent))

/-- A failure rolls the transaction back. -/
def registerValidPaths (infos : ValidPathInfos) (registry : Registry) :
    Except Failure Unit × Registry :=
  match registerEntries config sha readFile depth now infos.values registry with
  | (.error failure, after) => (.error failure, { after with db := registry.db })
  | (.ok _, after) =>
    match addReferences config infos.values after.db with
    | .error failure => (.error failure, { after with db := registry.db })
    | .ok db =>
      match checkDerivations config sha readFile depth infos.values after.drvHashes with
      | (.error failure, drvHashes) => (.error failure, { after with db := registry.db, drvHashes })
      | (.ok _, drvHashes) =>
        match sortBatch config infos with
        | .error failure => (.error failure, { after with db := registry.db, drvHashes })
        | .ok _ => (.ok (), { after with db, drvHashes })

def accept (info : ValidPathInfo) : Except Failure Unit := do
  checkClaim config sha info
  if info.path.isDerivation then do
    let drv ← readInvalidDerivation config readFile info.path
    let _ ← outputsAndOptPaths config sha drv
    pure ()
  else pure ()

def added (valid : Finset Bytes) : List ValidPathInfo → List ValidPathInfo
  | [] => []
  | info :: rest =>
    if info.narHash.algo = .sha256 then
      if pathColumn config info.path ∈ valid then added valid rest
      else
        match accept config sha readFile info with
        | .ok _ => info :: added (insert (pathColumn config info.path) valid) rest
        | .error _ => []
    else []

end

def Db.columns (db : Db) : Finset Bytes := (db.validPaths.map Row.path).toFinset

theorem mem_columns {db : Db} {column : Bytes} : column ∈ Db.columns db ↔ db.has column = true := by
  rw [Db.columns, mem_toFinset, mem_map, has_iff]

section Steps

variable {config : StoreDirConfig} {sha : Sha256} {readFile : ReadFile}
  (depth : Nat) (now : Int) {info : ValidPathInfo} (registry : Registry)

theorem cache_drv_outputs_keeps (id : Nat) (outputs : List (Bytes × Option StorePath)) (db : Db) :
    (cacheDrvOutputs config id outputs db).validPaths = db.validPaths ∧
      (cacheDrvOutputs config id outputs db).refs = db.refs := by
  induction outputs generalizing db with
  | nil => exact ⟨rfl, rfl⟩
  | cons output rest ih =>
    obtain ⟨name, path⟩ := output
    cases path with
    | none => exact ih db
    | some path => exact ih _

theorem add_valid_path_ok (admitted : accept config sha readFile info = .ok ()) :
    ∃ db, addValidPath config sha readFile depth now info false registry =
        (.ok (registry.db.sequence + 1), Registry.remember { registry with db } info) ∧
      db.validPaths = registry.db.validPaths ++ [newRow config now registry.db info] := by
  obtain ⟨_, claim, admitted⟩ := except_bind_ok admitted
  rw [addValidPath, claim]
  by_cases isDrv : info.path.isDerivation = true
  · rw [if_pos isDrv] at admitted ⊢
    obtain ⟨drv, read, admitted⟩ := except_bind_ok admitted
    obtain ⟨outputs, found, _⟩ := except_bind_ok admitted
    rw [read]
    dsimp only
    rw [found]
    refine ⟨_, rfl, ?_⟩
    rw [(cache_drv_outputs_keeps ..).1]
    rfl
  · rw [if_neg isDrv]
    exact ⟨_, rfl, rfl⟩

theorem add_valid_path_error {failure : Failure}
    (refused : accept config sha readFile info = .error failure) :
    ∃ db, addValidPath config sha readFile depth now info false registry =
      (.error failure, { registry with db }) := by
  rw [accept] at refused
  rw [addValidPath]
  cases claim : checkClaim config sha info with
  | error other =>
    rw [claim] at refused
    cases refused
    exact ⟨registry.db, rfl⟩
  | ok done =>
    rw [claim] at refused
    by_cases isDrv : info.path.isDerivation = true
    · rw [if_pos isDrv] at refused ⊢
      cases read : readInvalidDerivation config readFile info.path with
      | error other =>
        rw [read] at refused
        cases refused
        exact ⟨_, rfl⟩
      | ok drv =>
        rw [read] at refused
        dsimp only
        change (outputsAndOptPaths config sha drv >>= _) = _ at refused
        cases found : outputsAndOptPaths config sha drv <;> rw [found] at refused <;> cases refused
        exact ⟨_, rfl⟩
    · rw [if_neg isDrv] at refused
      cases refused

theorem columns_update (column : Bytes) (columns : Columns) (db : Db) :
    Db.columns (db.updateRow column columns) = Db.columns db := by
  rw [Db.columns, Db.updateRow, map_map]
  congr 2
  funext row
  rw [Function.comp_apply]
  split <;> rfl

variable {db after : Db}

theorem columns_insert {row : Row} (rows : after.validPaths = db.validPaths ++ [row]) :
    Db.columns after = insert row.path (Db.columns db) := by
  rw [Db.columns, rows, map_append, toFinset_append, Finset.union_comm]
  rfl

def rememberAll (cache : Entries) (infos : List ValidPathInfo) : Entries :=
  infos.foldl (fun cache info => upsert cache info.path.baseName (some info)) cache

theorem register_entries_cache (config : StoreDirConfig) (sha : Sha256)
    (readFile : ReadFile) (infos : List ValidPathInfo) (registry : Registry) :
    (registerEntries config sha readFile depth now infos registry).2.pathInfoCache =
      rememberAll registry.pathInfoCache
        (added config sha readFile (Db.columns registry.db) infos) := by
  induction infos generalizing registry with
  | nil => rfl
  | cons info rest ih =>
    rw [registerEntries, added]
    by_cases isSha256 : info.narHash.algo = .sha256
    · rw [if_pos isSha256, if_pos isSha256]
      by_cases valid : registry.db.has (pathColumn config info.path) = true
      · rw [if_pos valid, if_pos (mem_columns.mpr valid), ih]
        change rememberAll _ (added _ _ _ (Db.columns (Db.updateRow _ _ _)) rest) = _
        rw [columns_update]
      rw [if_neg valid, if_neg fun member => valid (mem_columns.mp member)]
      cases admitted : accept config sha readFile info with
      | error failure =>
        obtain ⟨db, ran⟩ := add_valid_path_error depth now registry admitted
        rw [ran]
        rfl
      | ok done =>
        obtain ⟨db, ran, rows⟩ := add_valid_path_ok depth now registry admitted
        rw [ran]
        rw [ih]
        change rememberAll _ (added _ _ _ (Db.columns db) rest) = _
        rw [columns_insert rows]
        rfl
    · rw [if_neg isSha256, if_neg isSha256]
      rfl

variable {infos : List ValidPathInfo}

theorem added_new {valid : Finset Bytes} (member : info ∈ added config sha readFile valid infos) :
    pathColumn config info.path ∉ valid := by
  fun_induction added config sha readFile valid infos with
  | case2 valid first rest isSha256 old ih => exact ih member
  | case3 valid first rest isSha256 new _ admitted ih =>
    rcases mem_cons.mp member with same | later
    · rw [same]
      exact new
    · exact fun valid => ih later (Finset.mem_insert_of_mem valid)
  | case1 | case4 | case5 => cases member

theorem added_distinct (config : StoreDirConfig) (sha : Sha256)
    (readFile : ReadFile) (valid : Finset Bytes)
    (infos : List ValidPathInfo) :
    (added config sha readFile valid infos).Pairwise fun left right => left.path ≠ right.path := by
  fun_induction added config sha readFile valid infos with
  | case2 valid first rest isSha256 old ih => exact ih
  | case3 valid first rest isSha256 new _ admitted ih =>
    refine List.Pairwise.cons ?_ ih
    intro other later same
    apply added_new later
    rw [same]
    exact Finset.mem_insert_self _ _
  | case1 | case4 | case5 => exact List.Pairwise.nil

theorem remember_all_other {key : Bytes} (other : ∀ info ∈ infos, info.path.baseName ≠ key)
    (cache : Entries) : rememberAll cache infos key = cache key := by
  induction infos generalizing cache with
  | nil => rfl
  | cons info rest ih =>
    rw [forall_mem_cons] at other
    change rememberAll (upsert cache _ _) rest key = _
    rw [ih other.2, PathInfoCache.upsert, Function.update_of_ne other.1.symm]

theorem remember_all_mem
    (distinct : infos.Pairwise fun left right => left.path ≠ right.path) (member : info ∈ infos)
    (cache : Entries) : rememberAll cache infos info.path.baseName = some (some info) := by
  induction infos generalizing cache with
  | nil => cases member
  | cons first rest ih =>
    rw [pairwise_cons] at distinct
    change rememberAll (upsert cache _ _) rest _ = _
    rcases mem_cons.mp member with same | later
    · rw [same, remember_all_other, PathInfoCache.upsert, Function.update_self]
      intro other inRest names
      exact distinct.1 other inRest (base_name_injective names).symm
    · exact ih distinct.2 later _

theorem add_references_rows
    (ran : addReferences config infos db = .ok after) : after.validPaths = db.validPaths := by
  have inner : ∀ (paths : List StorePath) (referrer : Nat) (db after : Db),
      paths.foldlM (fun db path => do
        let reference ← queryValidPathId config db path
        pure (db.addReference referrer reference)) db = .ok after →
        after.validPaths = db.validPaths := by
    intro paths referrer
    induction paths with
    | nil =>
      intro db after ran
      rw [Except.ok.inj ran]
    | cons path paths ih =>
      intro db after ran
      obtain ⟨between, added, ran⟩ := except_bind_ok ran
      obtain ⟨reference, _, added⟩ := except_bind_ok added
      rw [ih between after ran, ← Except.ok.inj added]
      rfl
  induction infos generalizing db with
  | nil => rw [Except.ok.inj ran]
  | cons info rest ih =>
    obtain ⟨between, added, ran⟩ := except_bind_ok ran
    obtain ⟨referrer, _, added⟩ := except_bind_ok added
    rw [ih ran, inner _ _ _ _ added]

/-- The cache is that of the first loop. After a failure the rows are as they were before. -/
theorem register_valid_paths_spec (infos : ValidPathInfos) :
    (registerValidPaths config sha readFile depth now infos registry).2.pathInfoCache =
        (registerEntries config sha readFile depth now infos.values registry).2.pathInfoCache ∧
      (∀ failure,
        (registerValidPaths config sha readFile depth now infos registry).1 = .error failure →
        (registerValidPaths config sha readFile depth now infos registry).2.db = registry.db) ∧
      ((registerValidPaths config sha readFile depth now infos registry).1 = .ok () →
        (registerEntries config sha readFile depth now infos.values registry).1 = .ok () ∧
        (registerValidPaths config sha readFile depth now infos registry).2.db.validPaths =
          (registerEntries config sha readFile depth now infos.values registry).2.db.validPaths) := by
  rw [registerValidPaths]
  cases first : registerEntries config sha readFile depth now infos.values registry with
  | mk outcome after =>
    cases outcome with
    | error failure => exact ⟨rfl, fun _ _ => rfl, nofun⟩
    | ok done =>
      dsimp only
      cases second : addReferences config infos.values after.db with
      | error failure => exact ⟨rfl, fun _ _ => rfl, nofun⟩
      | ok db =>
        cases third : checkDerivations config sha readFile depth infos.values after.drvHashes with
        | mk checked drvHashes =>
          cases checked with
          | error failure => exact ⟨rfl, fun _ _ => rfl, nofun⟩
          | ok passed =>
            cases sorted : sortBatch config infos with
            | error failure => exact ⟨rfl, fun _ _ => rfl, nofun⟩
            | ok order => exact ⟨rfl, nofun, fun _ => ⟨rfl, add_references_rows second⟩⟩

def answerOf (config : StoreDirConfig) (path : StorePath) :
    Option ValidPathInfo → Except Failure ValidPathInfo
  | some info => .ok info
  | none => .error (invalidPath config path)

theorem good_store_path_self (path : StorePath) : goodStorePath path path = true := by
  simp [goodStorePath]

theorem query_path_info_eq (config : StoreDirConfig) (registry : Registry) (path : StorePath) :
    registry.queryPathInfo config path = match registry.pathInfoCache path.baseName with
      | some value => (registry, answerOf config path value)
      | none =>
        match queryPathInfoInternal config registry.db path with
        | .error failure => (registry, .error failure)
        | .ok value => ({ registry with
              pathInfoCache := PathInfoCache.upsert registry.pathInfoCache path.baseName value },
            answerOf config path value) := by
  rw [Registry.queryPathInfo, PathInfoCache.queryPathInfo, queryPathInfoFromClientCache]
  dsimp only
  cases registry.pathInfoCache path.baseName with
  | some value => cases value <;> rfl
  | none =>
    cases found : queryPathInfoInternal config registry.db path with
    | error failure => rfl
    | ok value =>
      cases value with
      | none => rfl
      | some info =>
        have isPath := (query_internal_some found).1
        dsimp only
        rw [isPath, good_store_path_self]
        rfl

variable {path : StorePath}

theorem query_cached {value : Option ValidPathInfo}
    (cached : registry.pathInfoCache path.baseName = some value) :
    (registry.queryPathInfo config path).2 = answerOf config path value := by
  rw [query_path_info_eq, cached]

def SameAnswers (config : StoreDirConfig) (left right : Registry) : Prop :=
  ∀ path, left.isValidPath config path = right.isValidPath config path ∧
    (left.queryPathInfo config path).2 = (right.queryPathInfo config path).2

theorem same_answers_of_cache {left right : Registry} (sameDb : left.db = right.db)
    (sameCache : ∀ path : StorePath,
      left.pathInfoCache path.baseName = right.pathInfoCache path.baseName) :
    SameAnswers config left right := by
  intro path
  rw [Registry.isValidPath, query_path_info_eq, query_path_info_eq, sameDb, sameCache path]
  refine ⟨rfl, ?_⟩
  cases right.pathInfoCache path.baseName with
  | some value => rfl
  | none => cases queryPathInfoInternal config right.db path <;> rfl

/-- A call that fails goes unnoticed exactly if each path that its first loop adds was
in the cache before, with the same info. -/
theorem failed_registration_unnoticed_iff {infos : ValidPathInfos} {failure : Failure}
    (failed : (registerValidPaths config sha readFile depth now infos registry).1 = .error failure) :
    SameAnswers config (registerValidPaths config sha readFile depth now infos registry).2 registry ↔
      ∀ info ∈ added config sha readFile (Db.columns registry.db) infos.values,
        registry.pathInfoCache info.path.baseName = some (some info) := by
  obtain ⟨cache, rolledBack, _⟩ := register_valid_paths_spec depth now registry infos
  rw [register_entries_cache] at cache
  have distinct := added_distinct config sha readFile (Db.columns registry.db) infos.values
  constructor
  · intro same info member
    have after : (registerValidPaths config sha readFile depth now infos registry).2.pathInfoCache
        info.path.baseName = some (some info) := by
      rw [cache]
      exact remember_all_mem distinct member _
    have answer := (same info.path).2
    rw [query_cached _ after] at answer
    cases cached : registry.pathInfoCache info.path.baseName with
    | none =>
      have absent : registry.db.row (pathColumn config info.path) = none := by
        have new := added_new member
        rw [mem_columns, Bool.not_eq_true, Db.has, Option.isSome_eq_false_iff,
          Option.isNone_iff_eq_none] at new
        exact new
      rw [query_path_info_eq, cached, query_internal_none_iff.mpr absent] at answer
      cases answer
    | some value =>
      rw [query_cached registry cached] at answer
      cases value with
      | none => cases answer
      | some known => rw [Except.ok.inj answer]
  · intro known
    apply same_answers_of_cache (rolledBack failure failed)
    intro path
    rw [cache]
    by_cases isAdded : ∃ info ∈ added config sha readFile (Db.columns registry.db) infos.values,
        info.path.baseName = path.baseName
    · obtain ⟨info, member, names⟩ := isAdded
      rw [← names, remember_all_mem distinct member, known info member]
    · apply remember_all_other
      intro info member names
      exact isAdded ⟨info, member, names⟩

end Steps

def missingPath : StorePath := ⟨List.replicate 32 49 ++ ascii "-missing", by decide +kernel⟩

def noFiles (_ : StorePath) : Except Failure Bytes := .error (.error (ascii "No such file or directory"))

def emptyRegistry : Registry := ⟨⟨[], [], [], 0⟩, fun _ => none, SortedMap.empty⟩

def batchOf (info : ValidPathInfo) : ValidPathInfos := SortedMap.assignAll [(info.path, info)]

def danglingInfo : ValidPathInfo := { helloInfo with references := {missingPath} }

/-- The call fails, and afterwards the path is said to be valid. -/
theorem dangling_reference_noticed :
    (registerValidPaths usualStore zeroSha noFiles 0 0 (batchOf danglingInfo) emptyRegistry).1 =
        .error (invalidPath usualStore missingPath) ∧
      emptyRegistry.isValidPath usualStore helloPath = false ∧
      (registerValidPaths usualStore zeroSha noFiles 0 0 (batchOf danglingInfo)
        emptyRegistry).2.isValidPath usualStore helloPath = true := by
  decide +kernel

def claimingInfo : ValidPathInfo :=
  { helloInfo with path := missingPath, ca := some ⟨.flat, helloInfo.narHash⟩ }

theorem failed_registration_unnoticed_claim : SameAnswers usualStore
      (registerValidPaths usualStore zeroSha noFiles 0 0 (batchOf claimingInfo) emptyRegistry).2
      emptyRegistry := by
  have refused : (registerValidPaths usualStore zeroSha noFiles 0 0 (batchOf claimingInfo)
      emptyRegistry).1 = .error (.error (ascii "cannot add path " ++
        quoted (printStorePath usualStore missingPath) ++
        ascii " to the Bsd store because it claims to be content-addressed but isn't")) := by
    decide +kernel
  have none : added usualStore zeroSha noFiles (Db.columns emptyRegistry.db)
      (batchOf claimingInfo).values = [] := by
    decide +kernel
  apply (failed_registration_unnoticed_iff 0 0 emptyRegistry refused).mpr
  rw [none]
  exact nofun

end Bsd.Store.Registration
