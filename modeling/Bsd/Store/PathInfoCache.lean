import Bsd.Store.ContentAddresses
import Bsd.Store.LocalStore

/-!
# The cache of path infos

A store keeps the answers of `queryPathInfo` in memory under the base name of the
path that was asked for, and may keep them on disk under its hash part. Entries do
not expire and are not evicted.
-/

namespace Bsd.Store.PathInfoCache

open List Lib.Occurrences Util.FilePath Util.Hashes Store.Path Store.ContentAddresses Function
open Bsd.Store.LocalStore (invalidPath)

structure ValidPathInfo extends LocalStore.PathLinks where
  path : StorePath
  narHash : Hash
  registrationTime : Int
  narSize : Nat
  id : Nat
  ultimate : Bool
  sigs : Finset Bytes
  ca : Option ContentAddress
  deriving DecidableEq

/-- The entries of a cache: a path with its info, or one that is known to be invalid. -/
abbrev Entries := Bytes → Option (Option ValidPathInfo)

structure Caches where
  pathInfoCache : Entries
  diskCache : Option Entries

def missingName : Bytes := ascii "x"

def goodStorePath (expected actual : StorePath) : Bool :=
  expected.hashPart = actual.hashPart &&
    (expected.name = missingName || expected.name = actual.name)

def upsert (entries : Entries) (key : Bytes) (value : Option ValidPathInfo) : Entries :=
  update entries key (some value)

def Caches.remember (caches : Caches) (path : StorePath) (value : Option ValidPathInfo) : Caches :=
  { caches with pathInfoCache := upsert caches.pathInfoCache path.baseName value }

def Caches.store (caches : Caches) (path : StorePath) (value : Option ValidPathInfo) : Caches :=
  { caches with diskCache := caches.diskCache.map fun disk => upsert disk path.hashPart value }

def queryPathInfoFromClientCache (caches : Caches) (path : StorePath) :
    Caches × Option (Option ValidPathInfo) :=
  match caches.pathInfoCache path.baseName with
  | some value => (caches, some value)
  | none =>
    match caches.diskCache.bind fun disk => disk path.hashPart with
    | none => (caches, none)
    | some none => (caches.remember path none, some none)
    | some (some info) =>
      (caches.remember path (some info),
        some (if goodStorePath path info.path then some info else none))

section

variable (config : StoreDirConfig)
  (queryPathInfoUncached : StorePath → Except Failure (Option ValidPathInfo))

def queryPathInfo (caches : Caches) (path : StorePath) : Caches × Except Failure ValidPathInfo :=
  match queryPathInfoFromClientCache caches path with
  | (caches, some (some info)) => (caches, .ok info)
  | (caches, some none) => (caches, .error (invalidPath config path))
  | (caches, none) =>
    match queryPathInfoUncached path with
    | .error failure => (caches, .error failure)
    | .ok none => ((caches.store path none).remember path none, .error (invalidPath config path))
    | .ok (some info) =>
      ((caches.store path (some info)).remember path (some info),
        if goodStorePath path info.path then .ok info
        else .error (invalidPath config path))

def answers : Caches → List StorePath → List (Except Failure ValidPathInfo)
  | _, [] => []
  | caches, path :: paths =>
    (queryPathInfo config queryPathInfoUncached caches path).2 ::
      answers (queryPathInfo config queryPathInfoUncached caches path).1 paths

end

/-- The caches of a store that has not been asked for anything, with or without a cache
on disk. -/
def emptyCaches (onDisk : Bool) : Caches where
  pathInfoCache := fun _ => none
  diskCache := if onDisk then some fun _ => none else none

section

variable (config : StoreDirConfig) (lookup : Bytes → Option ValidPathInfo)

def byHashPart (path : StorePath) : Except Failure (Option ValidPathInfo) :=
  .ok (lookup path.hashPart)

def freshAnswer (onDisk : Bool) (path : StorePath) : Except Failure ValidPathInfo :=
  (queryPathInfo config (byHashPart lookup) (emptyCaches onDisk) path).2

/-- The path found under the hash part of a path has another name. -/
def Misnamed (path : StorePath) : Prop :=
  ∃ info, lookup path.hashPart = some info ∧ goodStorePath path info.path = false

def unchecked (path : StorePath) : Except Failure ValidPathInfo :=
  match lookup path.hashPart with
  | some info => .ok info
  | none => .error (invalidPath config path)

def checked (path : StorePath) : Except Failure ValidPathInfo :=
  match lookup path.hashPart with
  | some info => if goodStorePath path info.path then .ok info else .error (invalidPath config path)
  | none => .error (invalidPath config path)

/-- After queries for the paths `past`: they are in memory, and what is on disk is true. -/
structure Knows (past : List StorePath) (caches : Caches) : Prop where
  memory : ∀ path, caches.pathInfoCache path.baseName =
    if path ∈ past then some (lookup path.hashPart) else none
  disk : ∀ entries, caches.diskCache = some entries →
    ∀ hashPart value, entries hashPart = some value → value = lookup hashPart

theorem knows_empty (onDisk : Bool) : Knows lookup [] (emptyCaches onDisk) := by
  constructor
  · intro path
    rfl
  intro entries present hashPart value known
  cases onDisk with
  | false => cases present
  | true =>
    cases present
    cases known

end

section Steps

variable {config : StoreDirConfig} {lookup : Bytes → Option ValidPathInfo}
  {past : List StorePath} {caches : Caches}

theorem checked_eq_iff (path : StorePath) :
    unchecked config lookup path = checked config lookup path ↔ ¬Misnamed lookup path := by
  cases found : lookup path.hashPart with
  | none => simp [unchecked, checked, Misnamed, found]
  | some info =>
    cases good : goodStorePath path info.path with
    | true | false => simp [unchecked, checked, Misnamed, found]

theorem knows_remember (knows : Knows lookup past caches) (path : StorePath) :
    Knows lookup (path :: past) (caches.remember path (lookup path.hashPart)) := by
  refine ⟨?_, knows.disk⟩
  intro other
  simp only [Caches.remember, upsert]
  by_cases same : other = path
  · rw [same, update_self, if_pos mem_cons_self]
  rw [update_of_ne fun names => same (base_name_injective names), knows.memory]
  by_cases member : other ∈ past
  · rw [if_pos member, if_pos (mem_cons_of_mem path member)]
  · rw [if_neg member, if_neg fun listed => (mem_cons.mp listed).elim same member]

theorem knows_store (knows : Knows lookup past caches) (path : StorePath) :
    Knows lookup past (caches.store path (lookup path.hashPart)) := by
  refine ⟨knows.memory, ?_⟩
  intro entries present hashPart value known
  rw [Caches.store, Option.map_eq_some_iff] at present
  obtain ⟨disk, wasPresent, updated⟩ := present
  rw [← updated, upsert] at known
  by_cases same : hashPart = path.hashPart
  · rw [same, update_self] at known
    rw [same, Option.some.inj known]
  · rw [update_of_ne same] at known
    exact knows.disk disk wasPresent hashPart value known

variable {path : StorePath}

section

variable (knows : Knows lookup past caches)

include knows

theorem knows_again (member : path ∈ past) : Knows lookup (path :: past) caches := by
  refine ⟨?_, knows.disk⟩
  intro other
  rw [knows.memory]
  by_cases listed : other ∈ past
  · rw [if_pos listed, if_pos (mem_cons_of_mem path listed)]
  have differs : other ≠ path := by
    intro same
    rw [same] at listed
    exact listed member
  rw [if_neg listed, if_neg fun either => (mem_cons.mp either).elim differs listed]

theorem query_known (member : path ∈ past) : queryPathInfo config (byHashPart lookup) caches path =
      (caches, unchecked config lookup path) := by
  rw [queryPathInfo, queryPathInfoFromClientCache, knows.memory, if_pos member, unchecked]
  cases lookup path.hashPart <;> rfl

theorem query_on_disk (new : path ∉ past) {value : Option ValidPathInfo}
    (found : (caches.diskCache.bind fun disk => disk path.hashPart) = some value) :
    queryPathInfo config (byHashPart lookup) caches path =
      (caches.remember path (lookup path.hashPart), checked config lookup path) := by
  obtain ⟨entries, present, known⟩ := Option.bind_eq_some_iff.mp found
  have stored := knows.disk entries present path.hashPart value known
  rw [queryPathInfo, queryPathInfoFromClientCache, knows.memory, if_neg new, found, checked, stored]
  cases lookup path.hashPart with
  | none => rfl
  | some info => cases good : goodStorePath path info.path <;> simp [good]

theorem query_uncached (new : path ∉ past)
    (unknown : (caches.diskCache.bind fun disk => disk path.hashPart) = none) :
    queryPathInfo config (byHashPart lookup) caches path =
      ((caches.store path (lookup path.hashPart)).remember path (lookup path.hashPart),
        checked config lookup path) := by
  rw [queryPathInfo, queryPathInfoFromClientCache, knows.memory, if_neg new, unknown, checked,
    byHashPart]
  cases lookup path.hashPart <;> rfl

end

/-- A path that has been asked for before is looked up in memory, where its name is not
compared; any other name is compared. -/
theorem query_answer (config : StoreDirConfig) (knows : Knows lookup past caches) (path : StorePath) :
    (queryPathInfo config (byHashPart lookup) caches path).2 =
        (if path ∈ past then unchecked config lookup path else checked config lookup path) ∧
      Knows lookup (path :: past) (queryPathInfo config (byHashPart lookup) caches path).1 := by
  by_cases member : path ∈ past
  · rw [query_known knows member, if_pos member]
    exact ⟨rfl, knows_again knows member⟩
  rw [if_neg member]
  cases found : caches.diskCache.bind fun disk => disk path.hashPart with
  | some value =>
    rw [query_on_disk knows member found]
    exact ⟨rfl, knows_remember knows path⟩
  | none =>
    rw [query_uncached knows member found]
    exact ⟨rfl, knows_remember (knows_store knows path) path⟩

theorem answers_checked_iff (knows : Knows lookup past caches) (queries : List StorePath) :
    answers config (byHashPart lookup) caches queries = queries.map (checked config lookup) ↔
      ∀ path, Misnamed lookup path → queries.count path ≤ 1 ∧ (path ∈ past → path ∉ queries) := by
  induction queries generalizing past caches with
  | nil => exact iff_of_true rfl fun _ _ => ⟨Nat.zero_le 1, fun _ => not_mem_nil⟩
  | cons first queries ih =>
    obtain ⟨answer, later⟩ := query_answer config knows first
    rw [answers, map_cons, cons_eq_cons, ih later, answer]
    constructor
    · rintro ⟨firstRight, restRight⟩ path misnamed
      obtain ⟨once, apart⟩ := restRight path misnamed
      by_cases same : path = first
      · have absent : path ∉ queries := apart (same ▸ mem_cons_self)
        rw [count_cons, count_eq_zero.mpr absent]
        refine ⟨?_, ?_⟩
        · split <;> decide
        · intro member
          rw [← same, if_pos member] at firstRight
          exact absurd misnamed ((checked_eq_iff path).mp firstRight)
      · rw [count_cons_of_ne fun equal => same equal.symm, mem_cons]
        refine ⟨once, fun member listed => ?_⟩
        exact listed.elim same (apart (mem_cons_of_mem first member))
    · intro right
      constructor
      · by_cases member : first ∈ past
        · rw [if_pos member, checked_eq_iff]
          intro misnamed
          exact (right first misnamed).2 member mem_cons_self
        · rw [if_neg member]
      intro path misnamed
      obtain ⟨once, apart⟩ := right path misnamed
      constructor
      · exact le_trans (count_le_count_cons) once
      intro member
      rcases mem_cons.mp member with same | earlier
      · rw [same, count_cons_self, Nat.succ_le_succ_iff, Nat.le_zero, count_eq_zero] at once
        rw [same]
        exact once
      · exact fun listed => apart earlier (mem_cons_of_mem first listed)

end Steps

/-- Every query of a sequence is answered as by a store with empty caches exactly if no
path whose hash part belongs to a path with another name is asked for twice. -/
theorem caching_transparent_iff (config : StoreDirConfig) (lookup : Bytes → Option ValidPathInfo)
    (onDisk : Bool) (queries : List StorePath) :
    answers config (byHashPart lookup) (emptyCaches onDisk) queries =
        queries.map (freshAnswer config lookup onDisk) ↔
      ∀ path, Misnamed lookup path → queries.count path ≤ 1 := by
  have fresh : freshAnswer config lookup onDisk = checked config lookup := by
    funext path
    exact (query_answer config (knows_empty lookup onDisk) path).1
  rw [fresh, answers_checked_iff (knows_empty lookup onDisk)]
  constructor
  · intro right path misnamed
    exact (right path misnamed).1
  · intro once path misnamed
    exact ⟨once path misnamed, fun member => absurd member not_mem_nil⟩

def helloPath : StorePath := ⟨List.replicate 32 48 ++ ascii "-hello", by decide +kernel⟩

def otherPath : StorePath := ⟨List.replicate 32 48 ++ ascii "-other", by decide +kernel⟩

def helloInfo : ValidPathInfo where
  path := helloPath
  deriver := none
  narHash := ⟨.sha256, List.replicate 32 0, zero_hash_size⟩
  references := ∅
  registrationTime := 0
  narSize := 0
  id := 0
  ultimate := false
  sigs := ∅
  ca := none

def helloLookup (hashPart : Bytes) : Option ValidPathInfo :=
  if hashPart = helloPath.hashPart then some helloInfo else none

/-- The first query under the wrong name fails and the second one succeeds. -/
theorem misnamed_query_succeeds :
    answers usualStore (byHashPart helloLookup) (emptyCaches false) [otherPath, otherPath] =
        [.error (invalidPath usualStore otherPath), .ok helloInfo] ∧
      freshAnswer usualStore helloLookup false otherPath =
        .error (invalidPath usualStore otherPath) := by
  decide +kernel

end Bsd.Store.PathInfoCache
