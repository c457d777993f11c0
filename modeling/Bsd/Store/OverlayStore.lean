import Bsd.Lib.Machines
import Bsd.Store.Registration

/-!
# The overlay store

An overlay store has a database of its own, the upper one, over a lower store that it
only reads. A path that is valid in the lower store only is copied into the upper
database, with its closure, when its validity is asked for; its info is cached when its
info is asked for.
-/

namespace Bsd.Store.OverlayStore

open Lib.Occurrences Lib.OrdMap Util.FilePath Util.Hashes Store.Path Store.HashModulo
open Store.PathInfoCache Store.ValidPaths Store.Registration
open Bsd.Store.LocalStore (invalidPath)

/-- A store that does not change, as its queries show it. -/
structure LowerStore where
  infos : ValidPathInfos
  named : ∀ path info, infos.get path = some info → info.path = path

namespace LowerStore

variable (lower : LowerStore)

def isValidPath (path : StorePath) : Bool := (lower.infos.get path).isSome

def queryPathInfo (config : StoreDirConfig) (path : StorePath) : Except Failure ValidPathInfo :=
  answerOf config path (lower.infos.get path)

def Refers (path reference : StorePath) : Prop :=
  ∃ info, lower.infos.get path = some info ∧ reference ∈ info.references ∧ reference ≠ path

def Closed : Prop :=
  ∀ path info, lower.infos.get path = some info →
    ∀ reference ∈ info.references, lower.isValidPath reference = true

/-- References of a path to itself are not counted. -/
def Acyclic : Prop := ∀ path, ¬Relation.TransGen lower.Refers path path

/-- The texts under which the paths are registered are not cut to the same. -/
def Distinct (config : StoreDirConfig) : Prop :=
  ∀ left right, lower.isValidPath left = true → lower.isValidPath right = true →
    pathColumn config left = pathColumn config right → left = right

end LowerStore

section

variable (config : StoreDirConfig) (lower : LowerStore)

/-- The lower store throws where it does not have the path. -/
def queryPathInfoUncached (db : Db) (path : StorePath) : Except Failure (Option ValidPathInfo) :=
  match queryPathInfoInternal config db path with
  | .error failure => .error failure
  | .ok (some info) => .ok (some info)
  | .ok none => (lower.queryPathInfo config path).map some

def queryPathInfo (path : StorePath) (registry : Registry) :
    Except Failure ValidPathInfo × Registry :=
  match PathInfoCache.queryPathInfo config (queryPathInfoUncached config lower registry.db)
    ⟨registry.pathInfoCache, none⟩ path with
  | (caches, outcome) => (outcome, { registry with pathInfoCache := caches.pathInfoCache })

variable (sha : Sha256) (readFile : ReadFile) (nesting : Nat)

def inLower (infos : ValidPathInfos) (db : Db) : ValidPathInfos :=
  SortedMap.assignAll (infos.entries.filterMap fun entry =>
    if db.has (pathColumn config entry.1) then none
    else (lower.infos.get entry.1).map fun info => (entry.1, info))

def registerValidPaths (now : Int) (infos : ValidPathInfos) (registry : Registry) :
    Except Failure Unit × Registry :=
  match Registration.registerValidPaths config sha readFile nesting now
    (inLower config lower infos registry.db) registry with
  | (.error failure, after) => (.error failure, after)
  | (.ok _, after) => Registration.registerValidPaths config sha readFile nesting now infos after

def registerValidPath (now : Int) (info : ValidPathInfo) (registry : Registry) :
    Except Failure Unit × Registry :=
  registerValidPaths config lower sha readFile nesting now (batchOf info) registry

section

variable (isValid : StorePath → Registry → Except Failure Bool × Registry)

def syncReferences (path : StorePath) : List StorePath → Registry → Except Failure Unit × Registry
  | [], registry => (.ok (), registry)
  | reference :: rest, registry =>
    if reference = path then syncReferences path rest registry
    else
      match isValid reference registry with
      | (.error failure, after) => (.error failure, after)
      | (.ok _, after) => syncReferences path rest after

/-- `now` is the time at which a path is registered. -/
def isValidPathUncached (now : StorePath → Int) (path : StorePath) (registry : Registry) :
    Except Failure Bool × Registry :=
  if registry.db.has (pathColumn config path) then (.ok true, registry)
  else
    match lower.infos.get path with
    | none => (.ok false, registry)
    | some info =>
      match syncReferences isValid path info.references.sort registry with
      | (.error failure, after) => (.error failure, after)
      | (.ok _, synced) =>
        match registerValidPath config lower sha readFile nesting (now path) info synced with
        | (.error failure, after) => (.error failure, after)
        | (.ok _, after) => (.ok true, after)

end

/-- `Store::isValidPath` of a store without a cache on disk, which does not remember the
answer. -/
def throughCache (isValidUncached : StorePath → Registry → Except Failure Bool × Registry)
    (path : StorePath) (registry : Registry) : Except Failure Bool × Registry :=
  match registry.pathInfoCache path.baseName with
  | some value => (.ok value.isSome, registry)
  | none => isValidUncached path registry

/-- The first argument bounds the recursion over references. -/
def isValidPath (now : StorePath → Int) : Nat → StorePath → Registry → Except Failure Bool × Registry
  | 0 => throughCache fun _ registry => (.error .outOfDepth, registry)
  | depth + 1 => throughCache
      (isValidPathUncached config lower sha readFile nesting (isValidPath now depth) now)

inductive Event where
  | queryPathInfo (path : StorePath)
  | isValidPath (now : StorePath → Int) (path : StorePath)

def act (depth : Nat) (registry : Registry) : Event → Registry
  | .queryPathInfo path => (queryPathInfo config lower path registry).2
  | .isValidPath now path =>
    (isValidPath config lower sha readFile nesting now depth path registry).2

end

/-- What a path must meet to be registered once its references are valid. -/
structure Registrable (config : StoreDirConfig) (sha : Sha256)
    (readFile : ReadFile) (nesting : Nat) (info : ValidPathInfo) : Prop where
  isSha256 : info.narHash.algo = .sha256
  admitted : accept config sha readFile info = .ok ()
  checked : ∀ drvHashes, Filled config sha readFile drvHashes →
    (checkDerivations config sha readFile nesting [info] drvHashes).1 = .ok ()

def HasId (db : Db) (id : Nat) : Prop := ∃ row ∈ db.validPaths, row.id = id

def RefsValid (db : Db) : Prop := ∀ ref ∈ db.refs, HasId db ref.1 ∧ HasId db ref.2

section

variable (config : StoreDirConfig) (lower : LowerStore)

def Copied (db : Db) (info : ValidPathInfo) : Prop :=
  ∃ row, db.row (pathColumn config info.path) = some row ∧ ∀ reference ∈ info.references,
    ∃ target, db.row (pathColumn config reference) = some target ∧ (row.id, target.id) ∈ db.refs

/-- The upper database is closed under references, also under those that paths which
were not in it at the start have in the lower store. -/
structure UpperClosed (start db : Db) : Prop where
  refs : RefsValid db
  copied : ∀ path info, lower.infos.get path = some info →
    db.has (pathColumn config path) = true → start.has (pathColumn config path) = false →
      Copied config db info

theorem upper_closed_start {start : Db} (refs : RefsValid start) :
    UpperClosed config lower start start := by
  refine ⟨refs, ?_⟩
  intro path info _ has absent
  rw [has] at absent
  cases absent

end

section

variable (config : StoreDirConfig) (lower : LowerStore)

structure Pending (registry : Registry) (path : StorePath) : Prop where
  uncached : registry.pathInfoCache path.baseName = none
  absent : registry.db.has (pathColumn config path) = false
  valid : lower.isValidPath path = true

structure Stale (registry : Registry) (path : StorePath) : Prop where
  cached : registry.pathInfoCache path.baseName ≠ none
  absent : registry.db.has (pathColumn config path) = false

def Syncs (registry : Registry) (path reference : StorePath) : Prop :=
  Pending config lower registry path ∧ lower.Refers path reference

/-- No query for the validity of `path` comes across a stale reference. -/
def Unobstructed (registry : Registry) (path : StorePath) : Prop :=
  ∀ reference, Relation.TransGen (Syncs config lower registry) path reference →
    ¬Stale config registry reference

def Allowed (registry : Registry) : Event → Prop
  | .queryPathInfo _ => True
  | .isValidPath _ path => Unobstructed config lower registry path

/-- The answer for the union of both layers, and an upper database that stays closed. -/
def PresentsUnion (sha : Sha256) (readFile : ReadFile) (nesting depth : Nat)
    (start : Db) (registry : Registry) (event : Event) : Prop :=
  UpperClosed config lower start (act config lower sha readFile nesting depth registry event).db ∧
    ∀ now path, event = .isValidPath now path →
      (isValidPath config lower sha readFile nesting now depth path registry).1 =
        .ok (registry.db.has (pathColumn config path) || lower.isValidPath path)

end

structure Grows (before after : Db) : Prop where
  rows : ∀ column row, before.row column = some row →
    ∃ later, after.row column = some later ∧ later.id = row.id
  ids : ∀ id, HasId before id → HasId after id
  refs : ∀ ref ∈ before.refs, ref ∈ after.refs

theorem grows_refl (db : Db) : Grows db db :=
  ⟨fun _ row found => ⟨row, found, rfl⟩, fun _ has => has, fun _ member => member⟩

namespace Grows

variable {first second third : Db}

theorem trans (earlier : Grows first second) (later : Grows second third) : Grows first third := by
  refine ⟨?_, fun id has => later.ids id (earlier.ids id has),
    fun ref member => later.refs ref (earlier.refs ref member)⟩
  intro column row found
  obtain ⟨between, foundBetween, sameBetween⟩ := earlier.rows column row found
  obtain ⟨last, foundLast, sameLast⟩ := later.rows column between foundBetween
  exact ⟨last, foundLast, sameLast.trans sameBetween⟩

theorem has {column : Bytes} (grows : Grows first second) (present : first.has column = true) :
    second.has column = true := by
  obtain ⟨row, found⟩ := Option.isSome_iff_exists.mp present
  obtain ⟨later, foundLater, _⟩ := grows.rows column row found
  rw [Db.has, foundLater]
  rfl

theorem copied {config : StoreDirConfig} {info : ValidPathInfo} (grows : Grows first second)
    (copied : Copied config first info) : Copied config second info := by
  obtain ⟨row, found, all⟩ := copied
  obtain ⟨later, foundLater, sameId⟩ := grows.rows _ row found
  refine ⟨later, foundLater, ?_⟩
  intro reference member
  obtain ⟨target, foundTarget, recorded⟩ := all reference member
  obtain ⟨laterTarget, foundLaterTarget, sameTarget⟩ := grows.rows _ target foundTarget
  rw [sameId]
  refine ⟨laterTarget, foundLaterTarget, ?_⟩
  rw [sameTarget]
  exact grows.refs _ recorded

end Grows

end Bsd.Store.OverlayStore
