import Bsd.Store.OverlayStore

/-!
# Copies of paths of the lower store

One path is registered with the info that the lower store has of it. This succeeds
exactly if the paths it refers to are in the upper database by then.
-/

namespace Bsd.Store.OverlayStore

open Lib.Occurrences Lib.OrdMap Lib.Memo Util.FilePath Util.Hashes Util.TopoSort Store.Path List
  SortedMap
open Store.HashModulo Store.CheckInvariants Store.PathInfoCache Store.ValidPaths Store.Registration
open Bsd.Store.LocalStore (invalidPath)

variable {config : StoreDirConfig} {column : Bytes} {db : Db}

theorem has_row (present : db.has column = true) :
    ∃ row, db.row column = some row := Option.isSome_iff_exists.mp present

variable {row : Row}

theorem row_has (found : db.row column = some row) : db.has column = true := by
  rw [Db.has, found]
  rfl

theorem row_has_id (found : db.row column = some row) :
    HasId db row.id := ⟨row, mem_of_find?_eq_some found, rfl⟩

section

def link (config : StoreDirConfig) (referrer : Nat) (paths : List StorePath) (db : Db) :
    Except Failure Db :=
  paths.foldlM
    (fun db path => do
      let reference ← queryValidPathId config db path
      pure (db.addReference referrer reference))
    db

variable {paths : List StorePath} {referrer : Nat}

theorem link_cons {path : StorePath} (found : db.row (pathColumn config path) = some row) :
    link config referrer (path :: paths) db =
      link config referrer paths (db.addReference referrer row.id) := by
  rw [link, foldlM_cons, queryValidPathId, found]
  rfl

theorem mem_add_reference {reference : Nat} {ref : Nat × Nat} :
    ref ∈ (db.addReference referrer reference).refs ↔
      ref ∈ db.refs ∨ ref = (referrer, reference) := by
  rw [Db.addReference, mem_append, mem_filter, mem_singleton, decide_eq_true_eq]
  by_cases same : ref = (referrer, reference)
  · exact iff_of_true (.inr same) (.inr same)
  · rw [and_iff_left same]

theorem link_ok (present : ∀ path ∈ paths, db.has (pathColumn config path) = true) :
    ∃ refs, link config referrer paths db = .ok { db with refs } ∧
      ∀ ref, ref ∈ refs ↔ ref ∈ db.refs ∨ ∃ path ∈ paths, ∃ row,
        db.row (pathColumn config path) = some row ∧ ref = (referrer, row.id) := by
  induction paths generalizing db with
  | nil =>
    refine ⟨db.refs, rfl, ?_⟩
    intro ref
    rw [or_iff_left]
    exact nofun
  | cons path paths ih =>
    rw [forall_mem_cons] at present
    obtain ⟨row, found⟩ := has_row present.1
    obtain ⟨refs, linked, members⟩ := @ih (db.addReference referrer row.id) present.2
    refine ⟨refs, (link_cons found).trans linked, ?_⟩
    intro ref
    rw [members, mem_add_reference, or_assoc]
    apply or_congr_right
    constructor
    · intro either
      rcases either with isNew | later
      · exact ⟨path, mem_cons_self, row, found, isNew⟩
      · obtain ⟨other, member, further⟩ := later
        exact ⟨other, mem_cons_of_mem path member, further⟩
    intro some
    obtain ⟨other, member, target, foundTarget, isRef⟩ := some
    rcases mem_cons.mp member with same | later
    · rw [same, found] at foundTarget
      rw [Option.some.inj foundTarget]
      exact .inl isRef
    · exact .inr ⟨other, later, target, foundTarget, isRef⟩

theorem link_fails (referrer : Nat) {missing : StorePath} (member : missing ∈ paths)
    (absent : db.has (pathColumn config missing) = false) :
    ∃ failure, link config referrer paths db = .error failure := by
  induction paths generalizing db with
  | nil => cases member
  | cons path paths ih =>
    cases found : db.row (pathColumn config path) with
    | none =>
      refine ⟨invalidPath config path, ?_⟩
      rw [link, foldlM_cons, queryValidPathId, found]
      rfl
    | some row =>
      rw [link_cons found]
      rcases mem_cons.mp member with same | later
      · rw [same, Db.has, found] at absent
        cases absent
      · exact ih later absent

theorem add_references_one {info : ValidPathInfo}
    (found : db.row (pathColumn config info.path) = some row) :
    addReferences config [info] db = link config row.id info.references.sort db := by
  rw [addReferences, foldlM_cons, addReferencesOf, queryValidPathId, found]
  change (link config row.id info.references.sort db >>= pure) = _
  rw [bind_pure]

end

section

variable {sha : Sha256} {readFile : ReadFile} {nesting : Nat}
  {drvHashes : DrvHashes}

theorem eval_memo_filled {Result : Type} (calls : Hashing Result)
    (filled : Filled config sha readFile drvHashes) :
    Filled config sha readFile
      (calls.evalMemo (pathDerivationModulo config sha readFile nesting) drvHashes).2 := by
  induction calls generalizing drvHashes with
  | done | fail => exact filled
  | call key next ih =>
    have looked := Filled.looked nesting key filled
    rw [Calls.evalMemo]
    cases asked : pathDerivationModulo config sha readFile nesting key drvHashes with
    | mk outcome after =>
      rw [asked] at looked
      cases outcome with
      | error failure => exact looked
      | ok answer => exact ih answer looked

theorem check_derivations_filled (nesting : Nat) (infos : List ValidPathInfo)
    (filled : Filled config sha readFile drvHashes) :
    Filled config sha readFile (checkDerivations config sha readFile nesting infos drvHashes).2 := by
  induction infos generalizing drvHashes with
  | nil => exact filled
  | cons info rest ih =>
    rw [checkDerivations]
    split
    · cases readInvalidDerivation config readFile info.path with
      | error failure => exact filled
      | ok drv =>
        have checked : Filled config sha readFile
            (checkInvariants config sha drv info.path readFile nesting drvHashes).2 :=
          eval_memo_filled (checkCalls config sha drv info.path) filled
        dsimp only
        cases ran : checkInvariants config sha drv info.path readFile nesting drvHashes with
        | mk outcome after =>
          rw [ran] at checked
          cases outcome with
          | error failure => exact checked
          | ok passed => exact ih checked
    · exact ih filled

end

section

theorem sort_batch_one {infos : ValidPathInfos} (path : StorePath)
    (one : ∀ info ∈ infos.values, info.path = path) :
    ∃ order, sortBatch config infos = .ok order := by
  have same : ∀ item ∈ (infos.values.map ValidPathInfo.path).toFinset, item = path := by
    intro item member
    obtain ⟨info, inBatch, isPath⟩ := mem_map.mp (mem_toFinset.mp member)
    rw [← isPath]
    exact one info inBatch
  refine (topo_sort_acyclic _ fun item cycle => ?_).imp fun _ both => both.1
  obtain ⟨child, first, _⟩ := Relation.TransGen.head'_iff.mp cycle
  obtain ⟨_, _, last⟩ := Relation.TransGen.tail'_iff.mp cycle
  apply first.2.1
  rw [same child first.2.2, same item last.2.2]

theorem batch_of_values (info : ValidPathInfo) : (batchOf info).values = [info] := rfl

variable {sha : Sha256} {readFile : ReadFile} {nesting : Nat} {now : Int}

theorem register_none (registry : Registry) :
    Registration.registerValidPaths config sha readFile nesting now empty registry =
      (.ok (), registry) := by
  have nothing : ValidPathInfos.values empty = [] := rfl
  obtain ⟨order, sorted⟩ : ∃ order, sortBatch config empty = .ok order :=
    sort_batch_one helloPath (by simp [nothing])
  have linked : addReferences config [] registry.db = .ok registry.db := rfl
  simp [Registration.registerValidPaths, nothing, registerEntries, linked, checkDerivations, sorted]

variable (config sha readFile nesting now) in
theorem add_valid_path_refs (info : ValidPathInfo) (registry : Registry) :
    (addValidPath config sha readFile nesting now info false registry).2.db.refs =
      registry.db.refs := by
  rw [addValidPath]
  cases checkClaim config sha info with
  | error failure => rfl
  | ok done =>
    dsimp only
    split
    · cases readInvalidDerivation config readFile info.path with
      | error failure => rfl
      | ok drv =>
        dsimp only
        cases outputsAndOptPaths config sha drv with
        | error failure => rfl
        | ok outputs => exact (cache_drv_outputs_keeps _ outputs _).2
    · rfl

structure Entered (config : StoreDirConfig) (info : ValidPathInfo) (before after : Registry) :
    Prop where
  rows : ∀ column row, before.db.row column = some row →
    ∃ later, after.db.row column = some later ∧ later.id = row.id
  ids : ∀ id, HasId before.db id → HasId after.db id
  refs : after.db.refs = before.db.refs
  has : ∀ column, after.db.has column = true ↔
    column = pathColumn config info.path ∨ before.db.has column = true
  cache : after.pathInfoCache =
    if before.db.has (pathColumn config info.path) then before.pathInfoCache
    else PathInfoCache.upsert before.pathInfoCache info.path.baseName (some info)
  drvHashes : after.drvHashes = before.drvHashes

variable {info : ValidPathInfo} {registry : Registry}

theorem enter_again (isSha256 : info.narHash.algo = .sha256)
    (valid : registry.db.has (pathColumn config info.path) = true) :
    ∃ after, registerEntries config sha readFile nesting now [info] registry = (.ok (), after) ∧
      Entered config info registry after := by
  refine ⟨{ registry with db := updatePathInfo config info registry.db }, ?_, ?_, ?_, rfl, ?_, ?_, rfl⟩
  · rw [registerEntries, if_pos isSha256, if_pos valid]
    rfl
  · intro column row found
    rw [updatePathInfo, row_update, found]
    split
    · exact ⟨_, rfl, rfl⟩
    · exact ⟨row, rfl, rfl⟩
  · rintro id ⟨row, member, isId⟩
    refine ⟨_, mem_map_of_mem member, ?_⟩
    split
    · exact isId
    · exact isId
  · intro column
    rw [← mem_columns]
    rw [updatePathInfo, columns_update, mem_columns]
    constructor
    · exact .inr
    intro either
    rcases either with same | has
    · rw [same]
      exact valid
    · exact has
  · rw [if_pos valid]

theorem enter_new (isSha256 : info.narHash.algo = .sha256)
    (new : registry.db.has (pathColumn config info.path) = false)
    (admitted : accept config sha readFile info = .ok ()) :
    ∃ after, registerEntries config sha readFile nesting now [info] registry = (.ok (), after) ∧
      Entered config info registry after := by
  obtain ⟨db, ran, rows⟩ := add_valid_path_ok nesting now registry admitted
  have refs : db.refs = registry.db.refs := by
    have kept := add_valid_path_refs config sha readFile nesting now info registry
    rw [ran] at kept
    exact kept
  have inserted : ∀ column, db.row column =
      (registry.db.insertRow (newRow config now registry.db info)).row column := by
    intro column
    rw [Db.row, rows]
    rfl
  refine ⟨Registry.remember { registry with db } info, ?_, ?_, ?_, refs, ?_, ?_, rfl⟩
  · rw [registerEntries, if_pos isSha256, if_neg (Bool.eq_false_iff.mp new), ran]
    rfl
  · intro column row found
    refine ⟨row, ?_, rfl⟩
    change db.row column = _
    rw [inserted, row_insert new, if_neg, found]
    intro same
    have present := row_has found
    rw [same] at present
    exact absurd present (Bool.eq_false_iff.mp new)
  · intro id has
    obtain ⟨row, member, isId⟩ := has
    refine ⟨row, ?_, isId⟩
    change row ∈ db.validPaths
    rw [rows]
    exact mem_append_left _ member
  · intro column
    rw [← mem_columns]
    change column ∈ Db.columns db ↔ _
    rw [columns_insert rows, Finset.mem_insert, mem_columns]
    rfl
  · rw [if_neg (Bool.eq_false_iff.mp new)]
    rfl

structure Registered (config : StoreDirConfig) (sha : Sha256)
    (readFile : ReadFile) (info : ValidPathInfo) (before after : Registry) :
    Prop where
  grows : Grows before.db after.db
  refsValid : RefsValid before.db → RefsValid after.db
  copied : Copied config after.db info
  has : ∀ column, after.db.has column = true ↔
    column = pathColumn config info.path ∨ before.db.has column = true
  cache : after.pathInfoCache =
    if before.db.has (pathColumn config info.path) then before.pathInfoCache
    else PathInfoCache.upsert before.pathInfoCache info.path.baseName (some info)
  filled : Filled config sha readFile after.drvHashes

theorem enter_one (registrable : Registrable config sha readFile nesting info)
    (registry : Registry) :
    ∃ after, registerEntries config sha readFile nesting now [info] registry = (.ok (), after) ∧
      Entered config info registry after := by
  cases valid : registry.db.has (pathColumn config info.path) with
  | true => exact enter_again registrable.isSha256 valid
  | false => exact enter_new registrable.isSha256 valid registrable.admitted

variable {before : Registry}

section

variable (registrable : Registrable config sha readFile nesting info)

include registrable

theorem register_one (linked : ∀ reference ∈ info.references, reference ≠ info.path →
      before.db.has (pathColumn config reference) = true)
    (filled : Filled config sha readFile before.drvHashes) :
    ∃ after, Registration.registerValidPaths config sha readFile nesting now (batchOf info) before =
        (.ok (), after) ∧ Registered config sha readFile info before after := by
  obtain ⟨entered, ran, enters⟩ := enter_one registrable before
  obtain ⟨row, found⟩ := has_row ((enters.has _).mpr (.inl rfl))
  have filledEntered : Filled config sha readFile entered.drvHashes := enters.drvHashes ▸ filled
  have present : ∀ reference ∈ info.references.sort,
      entered.db.has (pathColumn config reference) = true := by
    intro reference member
    rw [enters.has]
    by_cases itself : reference = info.path
    · rw [itself]
      exact .inl rfl
    · exact .inr (linked reference ((Finset.mem_sort _).mp member) itself)
  obtain ⟨refs, linkedAll, members⟩ := link_ok present
  rw [← add_references_one found] at linkedAll
  have checked := registrable.checked entered.drvHashes filledEntered
  have filledAfter := check_derivations_filled nesting [info] filledEntered
  obtain ⟨order, sorted⟩ : ∃ order, sortBatch config (batchOf info) = .ok order := by
    apply sort_batch_one info.path
    intro other member
    rw [batch_of_values, mem_singleton] at member
    rw [member]
  cases tables : checkDerivations config sha readFile nesting [info] entered.drvHashes with
  | mk outcome drvHashes =>
    rw [tables] at checked filledAfter
    dsimp only at checked filledAfter
    refine ⟨{ entered with db := { entered.db with refs }, drvHashes }, ?_, ?_⟩
    · rw [Registration.registerValidPaths, batch_of_values, ran]
      dsimp only
      rw [linkedAll]
      rw [tables, checked]
      rw [sorted]
    refine ⟨⟨enters.rows, enters.ids, ?_⟩, ?_, ?_, enters.has, enters.cache, filledAfter⟩
    · intro ref member
      rw [← enters.refs] at member
      exact (members ref).mpr (.inl member)
    · intro valid ref member
      rcases (members ref).mp member with old | isNew
      · rw [enters.refs] at old
        exact ⟨enters.ids _ (valid ref old).1, enters.ids _ (valid ref old).2⟩
      · obtain ⟨reference, _, target, foundTarget, isRef⟩ := isNew
        rw [isRef]
        exact ⟨row_has_id found, row_has_id foundTarget⟩
    · refine ⟨row, found, ?_⟩
      intro reference member
      have sortedMember := (Finset.mem_sort (· ≤ ·)).mpr member
      obtain ⟨target, foundTarget⟩ := has_row (present reference sortedMember)
      exact ⟨target, foundTarget,
        (members _).mpr (.inr ⟨reference, sortedMember, target, foundTarget, rfl⟩)⟩

theorem register_dangling {reference : StorePath} (member : reference ∈ info.references)
    (other : pathColumn config reference ≠ pathColumn config info.path)
    (absent : before.db.has (pathColumn config reference) = false) :
    ∃ failure after, Registration.registerValidPaths config sha readFile nesting now (batchOf info)
      before = (.error failure, after) := by
  obtain ⟨entered, ran, enters⟩ := enter_one registrable before
  obtain ⟨row, found⟩ := has_row ((enters.has _).mpr (.inl rfl))
  have stillAbsent : entered.db.has (pathColumn config reference) = false := by
    rw [Bool.eq_false_iff, ne_eq, enters.has, not_or, Bool.not_eq_true]
    exact ⟨other, absent⟩
  obtain ⟨failure, fails⟩ :=
    link_fails row.id ((Finset.mem_sort (· ≤ ·)).mpr member) stillAbsent
  refine ⟨failure, { entered with db := before.db }, ?_⟩
  rw [Registration.registerValidPaths, batch_of_values, ran]
  dsimp only
  rw [add_references_one found, fails]

end

theorem Registered.again {between after : Registry}
    (first : Registered config sha readFile info before between)
    (second : Registered config sha readFile info between after) :
    Registered config sha readFile info before after := by
  refine ⟨first.grows.trans second.grows, fun valid => second.refsValid (first.refsValid valid),
    second.copied, ?_, ?_, second.filled⟩
  · intro column
    rw [second.has, first.has, or_self_left]
  · rw [second.cache, if_pos ((first.has _).mpr (.inl rfl)), first.cache]

end

section

variable {lower : LowerStore} {sha : Sha256} {readFile : ReadFile}
  {nesting : Nat} {now : Int} {info : ValidPathInfo} {before : Registry}

section

variable (isLower : lower.infos.get info.path = some info)

include isLower

theorem in_lower_one (db : Db) : inLower config lower (batchOf info) db =
      if db.has (pathColumn config info.path) then empty else batchOf info := by
  change assignAll ([(info.path, info)].filterMap _) = _
  rw [filterMap_cons, isLower]
  cases db.has (pathColumn config info.path) with
  | true | false => rfl

section

variable (registrable : Registrable config sha readFile nesting info)

include registrable

theorem copy_ok (linked : ∀ reference ∈ info.references, reference ≠ info.path →
      before.db.has (pathColumn config reference) = true)
    (filled : Filled config sha readFile before.drvHashes) :
    ∃ after, registerValidPath config lower sha readFile nesting now info before = (.ok (), after) ∧
      Registered config sha readFile info before after := by
  rw [registerValidPath, registerValidPaths, in_lower_one isLower]
  cases before.db.has (pathColumn config info.path) with
  | true =>
    rw [if_pos rfl, register_none]
    exact register_one registrable linked filled
  | false =>
    obtain ⟨between, ran, first⟩ := register_one registrable linked filled
    obtain ⟨after, ranAgain, second⟩ := register_one registrable
      (fun reference member other => first.grows.has (linked reference member other)) first.filled
    rw [if_neg Bool.false_ne_true, ran]
    exact ⟨after, ranAgain, first.again second⟩

theorem copy_dangling {reference : StorePath} (member : reference ∈ info.references)
    (other : pathColumn config reference ≠ pathColumn config info.path)
    (absent : before.db.has (pathColumn config reference) = false) :
    ∃ failure after, registerValidPath config lower sha readFile nesting now info before =
      (.error failure, after) := by
  obtain ⟨failure, after, ran⟩ := register_dangling registrable member other absent
  refine ⟨failure, after, ?_⟩
  rw [registerValidPath, registerValidPaths, in_lower_one isLower]
  cases before.db.has (pathColumn config info.path) with
  | true =>
    rw [if_pos rfl, register_none]
    exact ran
  | false => rw [if_neg Bool.false_ne_true, ran]

end

end

end

end Bsd.Store.OverlayStore
