import Bsd.Lib.Machines
import Bsd.Lib.Worklists
import Bsd.Store.LocalStore

/-!
# The garbage collector

The collector thread of `collectGarbage` for the action `gcDeleteDead` without a
byte limit, as a machine. The phases of its state are the places in the loops of
`collectGarbage` and `deleteReferrersClosure`; a step takes the lock of the state
shared with the clients of the roots server at most once.
-/

namespace Bsd.Store.GarbageCollector

open Lib.Occurrences Lib.OrdMap Lib.Machines Lib.Worklists Util.FilePath Store.Path Store.LocalStore
  List Finset Relation Function

/-- The store and the settings. `locked` says which temporary directories are locked
by another process. -/
structure Setup where
  tables : Tables
  keepOutputs : Bool
  keepDerivations : Bool
  locked : Bytes → Bool

structure Shared where
  tempRoots : Finset Bytes
  pending : Option Bytes

inductive Phase where
  /-- Reading the store directory. -/
  | scanning
  /-- At the head of the loop over `todo`. -/
  | visiting (start : StorePath) (work : Worklist StorePath)
  /-- `path` is pending, and what depends on it is to be visited. -/
  | expanding (start path : StorePath) (work : Worklist StorePath)
  /-- In the loop over the sorted paths. -/
  | deleting (paths : List StorePath)
  /-- Leaving `deleteReferrersClosure`, possibly with an exception. -/
  | releasing (thrown : Option Failure)
  | finished (thrown : Option Failure)

/-- The variables of the collector: the names the directory has still to give, the
database, the sets and the cache of `collectGarbage`, the names it has removed from
the store directory and the paths for which it has reported a bug. -/
structure Collector (tables : Tables) where
  entries : List Bytes
  phase : Phase
  db : Database tables
  alive : Finset StorePath
  dead : Finset StorePath
  referrersCache : StorePath → Option (Finset StorePath)
  removed : List Bytes
  inUse : List StorePath

abbrev GcState (tables : Tables) := Shared × Collector tables

structure Roots where
  permanent : Finset StorePath
  temporary : Finset StorePath

def Roots.all (roots : Roots) : Finset StorePath := roots.permanent ∪ roots.temporary

def maybeParseStorePath (store : StoreDirConfig) (path : Bytes) : Option StorePath :=
  match parseStorePath store path with
  | .ok storePath => some storePath
  | .error _ => none

def entryPath (store : StoreDirConfig) (name : Bytes) : Option StorePath :=
  maybeParseStorePath store (store.storeDir ++ ascii "/" ++ name)

def isSkipped (name : Bytes) : Bool :=
  name = ascii "." || name = ascii ".." || name = ascii ".links"

section Program

variable (setup : Setup) (roots : Roots)

def isLocked (baseName : Bytes) : Bool :=
  (ascii "tmp-").isPrefixOf baseName && setup.locked baseName

def deleteFromStore (baseName : Bytes) (gc : Collector setup.tables) : Collector setup.tables :=
  if isLocked setup baseName then gc else { gc with removed := baseName :: gc.removed }

def scan (gc : Collector setup.tables) : Collector setup.tables :=
  match gc.entries with
  | [] => { gc with phase := .finished none }
  | name :: entries =>
    if isSkipped name then { gc with entries := entries }
    else
      match entryPath setup.tables.store name with
      | some path =>
        { gc with entries := entries, phase := .visiting path (Worklist.single path) }
      | none => deleteFromStore setup name { gc with entries := entries }

def markAlive (start path : StorePath) (gc : Collector setup.tables) : Collector setup.tables :=
  let alive := insert path (insert start gc.alive)
  match computeFSClosure gc.db {path} false setup.keepOutputs setup.keepDerivations with
  | .ok closure => { gc with alive := alive ∪ closure, phase := .releasing none }
  | .error (.invalidPath _) => { gc with alive := alive, phase := .releasing none }
  | .error failure => { gc with alive := alive, phase := .releasing (some failure) }

def visit (start : StorePath) (work : Worklist StorePath)
    (state : GcState setup.tables) : GcState setup.tables :=
  let shared := state.1
  let gc := state.2
  match work.pop with
  | none =>
    match topoSortPaths gc.db work.visited with
    | .ok sorted => (shared, { gc with phase := .deleting sorted })
    | .error failure => (shared, { gc with phase := .releasing (some failure) })
  | some (path, work) =>
    if path ∈ gc.alive then
      (shared, { gc with alive := insert start gc.alive, phase := .releasing none })
    else if path ∈ gc.dead then (shared, { gc with phase := .visiting start work })
    else if path ∈ roots.all then (shared, markAlive setup start path gc)
    else if path.hashPart ∈ shared.tempRoots then (shared, markAlive setup start path gc)
    else
      ({ shared with pending := some path.hashPart },
        { gc with phase := .expanding start path work })

/-- The outputs of a derivation that have it for their deriver. -/
def derivedOutputs {tables : Tables} (db : Database tables) (path : StorePath) :
    Except Failure (List StorePath) := do
  let outputs ← queryPartialDerivationOutputMap db path
  .ok ((outputs.entries.filterMap Prod.snd).filter fun outPath =>
    outPath ∈ db.valid ∧ tables.deriver outPath = some path)

def keptOutputs (db : Database setup.tables) (path : StorePath) : Except Failure (List StorePath) :=
  if setup.keepDerivations && path.isDerivation then derivedOutputs db path else .ok []

def keptDerivers (db : Database setup.tables) (path : StorePath) : List StorePath :=
  if setup.keepOutputs then (queryValidDerivers db path).sort else []

def referrersOf {tables : Tables} (gc : Collector tables) (path : StorePath) : Finset StorePath :=
  (gc.referrersCache path).getD (queryReferrers gc.db path)

def nextPaths (gc : Collector setup.tables) (path : StorePath) :
    Except Failure (List StorePath) := do
  let outputs ← keptOutputs setup gc.db path
  .ok ((referrersOf gc path).sort ++ outputs ++ keptDerivers setup gc.db path)

def expand (start path : StorePath) (work : Worklist StorePath) (gc : Collector setup.tables) :
    Collector setup.tables :=
  if path ∈ gc.db.valid then
    let cache := update gc.referrersCache path (some (referrersOf gc path))
    match nextPaths setup gc path with
    | .ok paths =>
      { gc with referrersCache := cache, phase := .visiting start (work.enqueueAll paths) }
    | .error failure => { gc with referrersCache := cache, phase := .releasing (some failure) }
  else { gc with phase := .visiting start work }

def deletePath (path : StorePath) (gc : Collector setup.tables) : Collector setup.tables :=
  if path ∈ gc.dead then gc
  else
    let dead := insert path gc.dead
    match invalidatePathChecked gc.db path with
    | .ok db =>
      deleteFromStore setup path.baseName
        { gc with dead := dead, db := db,
                  referrersCache := update gc.referrersCache path none }
    | .error _ => { gc with dead := dead, inUse := path :: gc.inUse }

def step (state : GcState setup.tables) : GcState setup.tables :=
  match state.2.phase with
  | .scanning => (state.1, scan setup state.2)
  | .visiting start work => visit setup roots start work state
  | .expanding start path work => (state.1, expand setup start path work state.2)
  | .deleting [] => (state.1, { state.2 with phase := .releasing none })
  | .deleting (path :: paths) =>
    (state.1, { deletePath setup path state.2 with phase := .deleting paths })
  | .releasing none => ({ state.1 with pending := none }, { state.2 with phase := .scanning })
  | .releasing (some failure) =>
    ({ state.1 with pending := none }, { state.2 with phase := .finished (some failure) })
  | .finished _ => state

def begin (db : Database setup.tables) (names : List Bytes) : GcState setup.tables :=
  ({ tempRoots := roots.temporary.image StorePath.hashPart, pending := none },
    { entries := names, phase := .scanning, db := db, alive := ∅, dead := ∅,
      referrersCache := fun _ => none, removed := [], inUse := [] })

end Program

structure Collection where
  setup : Setup
  roots : Roots
  db : Database setup.tables
  names : List Bytes

def Collection.Reaches (run : Collection) (state : GcState run.setup.tables) : Prop :=
  Reached (step run.setup run.roots) (begin run.setup run.roots run.db run.names) state

def Collection.Ends (run : Collection) (final : Collector run.setup.tables)
    (thrown : Option Failure) : Prop :=
  ∃ shared, run.Reaches (shared, final) ∧ final.phase = .finished thrown

/-- The paths that the settings to keep outputs and derivations put behind a valid path. -/
def Keeps (setup : Setup) (db : Database setup.tables) (path next : StorePath) : Prop :=
  setup.keepDerivations = true ∧ path.isDerivation = true ∧ IsOutput db path next ∧
      setup.tables.deriver next = some path ∨
    setup.keepOutputs = true ∧ next ∈ queryValidDerivers db path

/-- The paths that depend on a path: they are visited after it and deleted with it. -/
def Behind (setup : Setup) (db : Database setup.tables) (path next : StorePath) : Prop :=
  path ∈ db.valid ∧ (setup.tables.Refers db.valid next path ∨ Keeps setup db path next)

inductive Transition (setup : Setup) (roots : Roots) :
    GcState setup.tables → GcState setup.tables → Prop where
  | finish {shared : Shared} {gc : Collector setup.tables} (phase : gc.phase = .scanning)
      (ended : gc.entries = []) :
      Transition setup roots (shared, gc) (shared, { gc with phase := .finished none })
  | skip {shared : Shared} {gc : Collector setup.tables} {name : Bytes} {rest : List Bytes}
      (phase : gc.phase = .scanning) (entries : gc.entries = name :: rest)
      (passed : isSkipped name = true ∨
        entryPath setup.tables.store name = none ∧ isLocked setup name = true) :
      Transition setup roots (shared, gc) (shared, { gc with entries := rest })
  | remove {shared : Shared} {gc : Collector setup.tables} {name : Bytes} {rest : List Bytes}
      (phase : gc.phase = .scanning) (entries : gc.entries = name :: rest)
      (notSkipped : isSkipped name = false) (other : entryPath setup.tables.store name = none)
      (free : isLocked setup name = false) :
      Transition setup roots (shared, gc)
        (shared, { gc with entries := rest, removed := name :: gc.removed })
  | enter {shared : Shared} {gc : Collector setup.tables} {name : Bytes} {rest : List Bytes}
      {path : StorePath} (phase : gc.phase = .scanning) (entries : gc.entries = name :: rest)
      (notSkipped : isSkipped name = false) (parsed : entryPath setup.tables.store name = some path) :
      Transition setup roots (shared, gc)
        (shared, { gc with entries := rest, phase := .visiting path (Worklist.single path) })
  | sort {shared : Shared} {gc : Collector setup.tables} {start : StorePath}
      {work : Worklist StorePath} {paths : List StorePath}
      (phase : gc.phase = .visiting start work) (ended : work.pop = none)
      (sorted : ReferrersFirst gc.db work.visited paths) :
      Transition setup roots (shared, gc) (shared, { gc with phase := .deleting paths })
  | known {shared : Shared} {gc : Collector setup.tables} {start path : StorePath}
      {work rest : Worklist StorePath} (phase : gc.phase = .visiting start work)
      (popped : work.pop = some (path, rest)) (isAlive : path ∈ gc.alive) :
      Transition setup roots (shared, gc)
        (shared, { gc with alive := insert start gc.alive, phase := .releasing none })
  | gone {shared : Shared} {gc : Collector setup.tables} {start path : StorePath}
      {work rest : Worklist StorePath} (phase : gc.phase = .visiting start work)
      (popped : work.pop = some (path, rest)) (notAlive : path ∉ gc.alive)
      (isDead : path ∈ gc.dead) :
      Transition setup roots (shared, gc) (shared, { gc with phase := .visiting start rest })
  | keep {shared : Shared} {gc : Collector setup.tables} {start path : StorePath}
      {work rest : Worklist StorePath} {alive : Finset StorePath}
      (phase : gc.phase = .visiting start work) (popped : work.pop = some (path, rest))
      (notAlive : path ∉ gc.alive) (notDead : path ∉ gc.dead)
      (isRoot : path ∈ roots.all ∨ path.hashPart ∈ shared.tempRoots)
      (marked : ∀ other, other ∈ alive ↔ other ∈ gc.alive ∨ other = start ∨
        ReflTransGen (Leads gc.db setup.keepOutputs setup.keepDerivations) path other) :
      Transition setup roots (shared, gc)
        (shared, { gc with alive := alive, phase := .releasing none })
  | check {shared : Shared} {gc : Collector setup.tables} {start path : StorePath}
      {work rest : Worklist StorePath} (phase : gc.phase = .visiting start work)
      (popped : work.pop = some (path, rest)) (notAlive : path ∉ gc.alive)
      (notDead : path ∉ gc.dead) (notRoot : path ∉ roots.all)
      (notTemporary : path.hashPart ∉ shared.tempRoots) :
      Transition setup roots (shared, gc)
        ({ shared with pending := some path.hashPart },
          { gc with phase := .expanding start path rest })
  | expand {shared : Shared} {gc : Collector setup.tables} {start path : StorePath}
      {work : Worklist StorePath} {paths : List StorePath}
      (phase : gc.phase = .expanding start path work) (valid : path ∈ gc.db.valid)
      (next : ∀ other, other ∈ paths ↔ other ∈ referrersOf gc path ∨ Keeps setup gc.db path other) :
      Transition setup roots (shared, gc)
        (shared, { gc with
          referrersCache := update gc.referrersCache path (some (referrersOf gc path))
          phase := .visiting start (work.enqueueAll paths) })
  | pass {shared : Shared} {gc : Collector setup.tables} {start path : StorePath}
      {work : Worklist StorePath} (phase : gc.phase = .expanding start path work)
      (invalid : path ∉ gc.db.valid) :
      Transition setup roots (shared, gc) (shared, { gc with phase := .visiting start work })
  | again {shared : Shared} {gc : Collector setup.tables} {path : StorePath}
      {paths : List StorePath} (phase : gc.phase = .deleting (path :: paths))
      (isDead : path ∈ gc.dead) :
      Transition setup roots (shared, gc) (shared, { gc with phase := .deleting paths })
  | delete {shared : Shared} {gc : Collector setup.tables} {path : StorePath}
      {paths : List StorePath} {db : Database setup.tables}
      (phase : gc.phase = .deleting (path :: paths)) (notDead : path ∉ gc.dead)
      (invalidated : invalidatePathChecked gc.db path = .ok db) :
      Transition setup roots (shared, gc)
        (shared, { gc with
          dead := insert path gc.dead
          db := db
          referrersCache := update gc.referrersCache path none
          removed := path.baseName :: gc.removed
          phase := .deleting paths })
  | bug {shared : Shared} {gc : Collector setup.tables} {path : StorePath}
      {paths : List StorePath} {failure : Failure}
      (phase : gc.phase = .deleting (path :: paths)) (notDead : path ∉ gc.dead)
      (refused : invalidatePathChecked gc.db path = .error failure) :
      Transition setup roots (shared, gc)
        (shared, { gc with
          dead := insert path gc.dead
          inUse := path :: gc.inUse
          phase := .deleting paths })
  | ended {shared : Shared} {gc : Collector setup.tables} (phase : gc.phase = .deleting []) :
      Transition setup roots (shared, gc) (shared, { gc with phase := .releasing none })
  | release {shared : Shared} {gc : Collector setup.tables} (phase : gc.phase = .releasing none) :
      Transition setup roots (shared, gc)
        ({ shared with pending := none }, { gc with phase := .scanning })

/-- The phases from which a step does not lead to an exception, and leads somewhere. -/
def Phase.isRunning : Phase → Bool
  | .releasing (some _) => false
  | .finished _ => false
  | _ => true

variable {other : StorePath}

section Steps

variable {setup : Setup} {roots : Roots} {shared : Shared} {gc : Collector setup.tables}

theorem not_locked (path : StorePath) : isLocked setup path.baseName = false := by
  rw [isLocked, path.base_name_eq]
  cases shape : path.hashPart with
  | nil =>
    have size := path.hash_part_length
    rw [shape] at size
    cases size
  | cons first rest =>
    have good : isHashCharacter first = true := path.hash_part_character (by
      rw [shape]
      exact mem_cons_self)
    have differs : (116 : Byte) ≠ first := by
      intro same
      rw [← same] at good
      exact absurd good (by decide)
    have front : (ascii "tmp-").isPrefixOf (first :: rest ++ path.separator :: path.name) =
        false := by
      change ((116 : Byte) == first && _) = false
      rw [beq_false_of_ne differs, Bool.false_and]
    rw [front, Bool.false_and]

theorem scan_transition (phase : gc.phase = .scanning) :
    Transition setup roots (shared, gc) (shared, scan setup gc) := by
  rw [scan]
  cases entries : gc.entries with
  | nil =>
    have finished : Transition setup roots (shared, gc)
        (shared, { gc with phase := .finished none }) := .finish phase entries
    rwa [entries] at finished
  | cons name rest =>
    by_cases skipped : isSkipped name = true
    · simp only [skipped]
      exact .skip phase entries (.inl skipped)
    have notSkipped := Bool.eq_false_of_not_eq_true skipped
    simp only [notSkipped]
    cases parsed : entryPath setup.tables.store name with
    | some path => exact .enter phase entries notSkipped parsed
    | none =>
      simp only [deleteFromStore]
      by_cases locked : isLocked setup name = true
      · rw [if_pos locked]
        exact .skip phase entries (.inr ⟨parsed, locked⟩)
      · rw [if_neg locked]
        exact .remove phase entries notSkipped parsed
          (Bool.eq_false_of_not_eq_true locked)

theorem mark_alive_eq (gc : Collector setup.tables) (start path : StorePath) :
    ∃ alive, markAlive setup start path gc =
        { gc with alive := alive, phase := .releasing none } ∧
      ∀ other, other ∈ alive ↔ other ∈ gc.alive ∨ other = start ∨
        ReflTransGen (Leads gc.db setup.keepOutputs setup.keepDerivations) path other := by
  rw [markAlive]
  by_cases valid : path ∈ gc.db.valid
  · obtain ⟨closure, computed, isReached⟩ :=
      compute_fs_closure_valid setup.keepOutputs setup.keepDerivations valid
    simp only [computed]
    refine ⟨_, rfl, ?_⟩
    intro other
    have here : other = path →
        ReflTransGen (Leads gc.db setup.keepOutputs setup.keepDerivations) path other := by
      rintro rfl
      exact ReflTransGen.refl
    rw [mem_union, mem_insert, mem_insert, isReached]
    tauto
  · have computed :=
      compute_fs_closure_invalid setup.keepOutputs setup.keepDerivations valid
    simp only [computed]
    refine ⟨_, rfl, ?_⟩
    intro other
    rw [mem_insert, mem_insert, reflTransGen_iff_eq fun _ leads => valid leads.1]
    tauto

variable {work : Worklist StorePath} {start : StorePath}

theorem visit_transition (phase : gc.phase = .visiting start work) :
    Transition setup roots (shared, gc) (visit setup roots start work (shared, gc)) := by
  rw [visit]
  cases popped : work.pop with
  | none =>
    obtain ⟨sorted, computed, isSorted⟩ := topo_sort_paths_ok gc.db work.visited
    simp only [computed]
    exact .sort phase popped isSorted
  | some head =>
    obtain ⟨path, rest⟩ := head
    obtain ⟨alive, marking, marked⟩ := mark_alive_eq gc start path
    dsimp only
    rw [marking]
    split_ifs with isAlive isDead isRoot isTemporary
    · exact .known phase popped isAlive
    · exact .gone phase popped isAlive isDead
    · exact .keep phase popped isAlive isDead (.inl isRoot) marked
    · exact .keep phase popped isAlive isDead (.inr isTemporary) marked
    · exact .check phase popped isAlive isDead isRoot isTemporary

variable {path : StorePath}

theorem kept_outputs_ok (valid : path ∈ gc.db.valid) :
    ∃ outputs, keptOutputs setup gc.db path = .ok outputs ∧
      ∀ other, other ∈ outputs ↔ setup.keepDerivations = true ∧ path.isDerivation = true ∧
        IsOutput gc.db path other ∧ setup.tables.deriver other = some path := by
  rw [keptOutputs]
  by_cases asked : (setup.keepDerivations && path.isDerivation) = true
  · obtain ⟨isKept, isDerivation⟩ := Bool.and_eq_true_iff.mp asked
    obtain ⟨outputs, answered, isOutput⟩ := output_map_ok gc.db valid
    rw [if_pos asked, derivedOutputs, answered]
    refine ⟨_, rfl, ?_⟩
    intro other
    rw [mem_filter, isOutput, decide_eq_true_eq, and_iff_right isKept,
      and_iff_right isDerivation, IsOutput, and_left_comm, and_assoc]
  · rw [if_neg asked]
    refine ⟨[], rfl, ?_⟩
    intro other
    apply iff_of_false not_mem_nil
    rintro ⟨isKept, isDerivation, _⟩
    exact asked (Bool.and_eq_true_iff.mpr ⟨isKept, isDerivation⟩)

theorem mem_kept_derivers {db : Database setup.tables} : other ∈ keptDerivers setup db path ↔
      setup.keepOutputs = true ∧ other ∈ queryValidDerivers db path := by
  rw [keptDerivers]
  by_cases isKept : setup.keepOutputs = true
  · rw [if_pos isKept, mem_sort, and_iff_right isKept]
  · rw [if_neg isKept]
    exact iff_of_false not_mem_nil fun both => isKept both.1

theorem expand_transition (phase : gc.phase = .expanding start path work) :
    Transition setup roots (shared, gc) (shared, expand setup start path work gc) := by
  rw [expand]
  by_cases valid : path ∈ gc.db.valid
  · obtain ⟨outputs, answered, isOutput⟩ := kept_outputs_ok valid
    have next : nextPaths setup gc path =
        .ok ((referrersOf gc path).sort ++ outputs ++ keptDerivers setup gc.db path) := by
      rw [nextPaths, answered]
      rfl
    simp only [valid, next]
    apply Transition.expand phase valid
    intro other
    rw [mem_append, mem_append, mem_sort, isOutput, mem_kept_derivers, or_assoc]
    exact Iff.rfl
  · rw [if_neg valid]
    exact .pass phase valid

theorem delete_transition {paths : List StorePath} (phase : gc.phase = .deleting (path :: paths)) :
    Transition setup roots (shared, gc)
      (shared, { deletePath setup path gc with phase := .deleting paths }) := by
  rw [deletePath]
  by_cases isDead : path ∈ gc.dead
  · rw [if_pos isDead]
    exact .again phase isDead
  rw [if_neg isDead]
  cases invalidated : invalidatePathChecked gc.db path with
  | ok db =>
    simp only [deleteFromStore, not_locked, Bool.false_eq_true, if_false]
    exact .delete phase isDead invalidated
  | error failure => exact .bug phase isDead invalidated

theorem step_transition (roots : Roots) (state : GcState setup.tables)
    (running : state.2.phase.isRunning = true) :
    Transition setup roots state (step setup roots state) := by
  obtain ⟨shared, gc⟩ := state
  rw [step]
  cases phase : gc.phase with
  | scanning => exact scan_transition phase
  | visiting start work => exact visit_transition phase
  | expanding start path work => exact expand_transition phase
  | deleting paths =>
    cases paths with
    | nil => exact .ended phase
    | cons path paths => exact delete_transition phase
  | releasing thrown =>
    cases thrown with
    | none => exact .release phase
    | some failure =>
      rw [phase] at running
      cases running
  | finished thrown =>
    rw [phase] at running
    cases running

end Steps

/-- A path of the closure at hand that the search is through with: it will be deleted
unless a root is met. -/
def Phase.Passed (path : StorePath) : Phase → Prop
  | .visiting _ work => work.Done path
  | .expanding _ _ work => work.Done path
  | .deleting paths => path ∈ paths
  | _ => False

variable {name : Bytes}

section Effects

variable {setup : Setup} {roots : Roots} {state next : GcState setup.tables}
  {path : StorePath}

section

variable (transition : Transition setup roots state next)

include transition

/-- A path is passed when it is dead already, or found to be neither alive nor a root. -/
theorem passed_transition (passed : next.2.phase.Passed path) :
    state.2.phase.Passed path ∨ path ∉ state.2.alive ∧
      (path ∈ state.2.dead ∨ path.hashPart ∉ state.1.tempRoots) := by
  cases transition with
  | finish phase ended | known phase popped | keep phase popped | ended | release =>
    exact passed.elim
  | skip | remove => exact .inl passed
  | enter phase entries => exact absurd passed (Worklist.not_done_single _ path)
  | sort phase ended sorted =>
    rw [phase]
    exact .inl ((Worklist.pop_none_done ended).mpr ((sorted.mem path).mp passed))
  | gone phase popped notAlive isDead =>
    rw [phase]
    rcases (Worklist.pop_done popped).mp passed with same | earlier
    · rw [same]
      exact .inr ⟨notAlive, .inl isDead⟩
    · exact .inl earlier
  | check phase popped notAlive notDead notRoot notTemporary =>
    rw [phase]
    rcases (Worklist.pop_done popped).mp passed with same | earlier
    · rw [same]
      exact .inr ⟨notAlive, .inr notTemporary⟩
    · exact .inl earlier
  | expand phase valid =>
    rw [phase]
    exact .inl (Worklist.done_enqueue_all.mp passed)
  | pass phase invalid =>
    rw [phase]
    exact .inl passed
  | again phase | delete phase | bug phase =>
    rw [phase]
    exact .inl (mem_cons_of_mem _ passed)

theorem alive_transition (isAlive : path ∈ state.2.alive) : path ∈ next.2.alive := by
  cases transition with
  | known => exact mem_insert_of_mem isAlive
  | keep _ _ _ _ _ marked => exact (marked path).mpr (.inl isAlive)
  | _ => exact isAlive

theorem dead_transition : (path ∈ state.2.dead → path ∈ next.2.dead) ∧
      (path ∈ next.2.dead → path ∈ state.2.dead ∨ state.2.phase.Passed path) := by
  cases transition with
  | delete phase | bug phase =>
    rw [phase]
    refine ⟨mem_insert_of_mem, ?_⟩
    intro isDead
    rcases mem_insert.mp isDead with same | earlier
    · rw [same]
      exact .inr mem_cons_self
    · exact .inl earlier
  | _ => exact ⟨id, .inl⟩

theorem removed_transition : (name ∈ state.2.removed → name ∈ next.2.removed) ∧
      (name ∈ next.2.removed → name ∈ state.2.removed ∨ entryPath setup.tables.store name = none ∨
        ∃ path, path.baseName = name ∧ state.2.phase.Passed path) := by
  cases transition with
  | remove phase entries notSkipped other =>
    refine ⟨mem_cons_of_mem _, ?_⟩
    intro removed
    rcases mem_cons.mp removed with same | earlier
    · rw [same]
      exact .inr (.inl other)
    · exact .inl earlier
  | @delete _ _ path _ _ phase =>
    rw [phase]
    refine ⟨mem_cons_of_mem _, ?_⟩
    intro removed
    rcases mem_cons.mp removed with same | earlier
    · exact .inr (.inr ⟨path, same.symm, mem_cons_self⟩)
    · exact .inl earlier
  | _ => exact ⟨id, .inl⟩

end

end Effects

def Phase.IsProper (phase : Phase) : Prop := phase.isRunning = true ∨ phase = .finished none

theorem transition_proper {setup : Setup} {roots : Roots}
    {state next : GcState setup.tables} (transition : Transition setup roots state next) :
    next.2.phase.IsProper := by
  cases transition with
  | finish => exact .inr rfl
  | skip phase | remove phase => exact .inl (congrArg Phase.isRunning phase)
  | _ => exact .inl rfl

variable {run : Collection}

theorem step_kept {holds : GcState run.setup.tables → Prop}
    (kept : ∀ state next, Transition run.setup run.roots state next → holds state → holds next)
    (state : GcState run.setup.tables) (held : holds state ∧ state.2.phase.IsProper) :
    holds (step run.setup run.roots state) ∧ (step run.setup run.roots state).2.phase.IsProper := by
  obtain ⟨held, running | finished⟩ := held
  · have transition := step_transition run.roots state running
    exact ⟨kept state _ transition held, transition_proper transition⟩
  · rw [step, finished]
    exact ⟨held, .inr finished⟩

/-- What holds at the beginning and is kept by the transitions holds in every state of a
collection, and there is no exception. -/
theorem reaches_invariant (holds : GcState run.setup.tables → Prop)
    (initially : holds (begin run.setup run.roots run.db run.names))
    (kept : ∀ state next, Transition run.setup run.roots state next → holds state → holds next)
    {state : GcState run.setup.tables} (reached : run.Reaches state) :
    holds state ∧ state.2.phase.IsProper :=
  reached_invariant (fun state => holds state ∧ state.2.phase.IsProper)
    ⟨initially, .inl rfl⟩ (step_kept kept) reached

/-- The paths a collection deals with besides the entries were valid at its start. -/
structure Bounded (run : Collection) (state : GcState run.setup.tables) : Prop where
  valid : state.2.db.valid ⊆ run.db.valid
  cached : ∀ path referrers, state.2.referrersCache path = some referrers → referrers ⊆ run.db.valid

variable {gc : Collector run.setup.tables} {shared : Shared}

theorem bounded_referrers (bounded : Bounded run (shared, gc)) (path : StorePath) :
    referrersOf gc path ⊆ run.db.valid := by
  rw [referrersOf]
  cases cached : gc.referrersCache path with
  | some referrers => exact bounded.cached path referrers cached
  | none => exact (Finset.filter_subset _ _).trans bounded.valid

/-- What holds of the values of a shape holds of them after an update. -/
theorem update_shaped {Key Value Part : Type} [DecidableEq Key] {shape : Part → Value}
    {Right : Key → Part → Prop} {old : Key → Value} {place : Key} {new : Value}
    (before : ∀ key part, old key = shape part → Right key part)
    (here : ∀ part, new = shape part → Right place part) (key : Key) :
    ∀ part, update old place new key = shape part → Right key part := by
  by_cases same : key = place
  · rwa [same, update_self]
  · rw [update_of_ne same]
    exact before key

variable {state next : GcState run.setup.tables}

theorem bounded_transition (transition : Transition run.setup run.roots state next)
    (bounded : Bounded run state) : Bounded run next := by
  cases transition with
  | @expand _ gc _ path _ _ phase valid next =>
    refine ⟨bounded.valid, update_shaped bounded.cached ?_⟩
    intro referrers same
    rw [← Option.some.inj same]
    exact bounded_referrers bounded path
  | @delete _ gc path _ db phase notDead invalidated =>
    refine ⟨?_, update_shaped bounded.cached nofun⟩
    exact (invalidate_fewer invalidated).trans bounded.valid
  | _ => exact ⟨bounded.valid, bounded.cached⟩

def phaseRank (all : Finset StorePath) : Phase → Nat × Nat
  | .scanning => (0, 1)
  | .visiting _ work => (3, 2 * work.size all)
  | .expanding _ _ work => (3, 2 * work.size all + 1)
  | .deleting paths => (2, paths.length)
  | .releasing _ => (1, 0)
  | .finished _ => (0, 0)

def Descends (tables : Tables) (all : Finset StorePath)
    (later earlier : GcState tables) : Prop :=
  Prod.Lex (· < ·) (Prod.Lex (· < ·) (· < ·))
    (later.2.entries.length, phaseRank all later.2.phase)
    (earlier.2.entries.length, phaseRank all earlier.2.phase)

theorem descends_founded (tables : Tables) (all : Finset StorePath) :
    WellFounded (Descends tables all) :=
  InvImage.wf (fun state : GcState tables =>
      (state.2.entries.length, phaseRank all state.2.phase))
    (WellFounded.prod_lex Nat.lt_wfRel.wf (WellFounded.prod_lex Nat.lt_wfRel.wf Nat.lt_wfRel.wf))

theorem transition_descends (transition : Transition run.setup run.roots state next)
    (bounded : Bounded run state) : Descends run.setup.tables run.db.valid next state := by
  cases transition with
  | finish phase ended =>
    rw [Descends, phase]
    exact Prod.Lex.right _ (Prod.Lex.right _ Nat.zero_lt_one)
  | skip phase entries | remove phase entries | enter phase entries =>
    exact Prod.Lex.left _ _ (by rw [entries]; exact Nat.lt_succ_self _)
  | sort phase | known phase | keep phase | ended phase | release phase =>
    rw [Descends, phase]
    exact Prod.Lex.right _ (Prod.Lex.left _ _ (by decide))
  | gone phase popped | check phase popped =>
    have size := Worklist.size_pop run.db.valid popped
    rw [Descends, phase]
    exact Prod.Lex.right _ (Prod.Lex.right _ (by omega))
  | @expand _ _ _ _ work _ phase valid next =>
    have size := Worklist.size_enqueue_all work fun other member => by
      rcases (next other).mp member with isReferrer | ⟨_, _, isOutput, _⟩ | ⟨_, isDeriver⟩
      · exact bounded_referrers bounded _ isReferrer
      · exact bounded.valid isOutput.1
      · exact bounded.valid (mem_filter.mp isDeriver).1
    rw [Descends, phase]
    exact Prod.Lex.right _ (Prod.Lex.right _ (by omega))
  | pass phase | again phase | delete phase | bug phase =>
    rw [Descends, phase]
    exact Prod.Lex.right _ (Prod.Lex.right _ (Nat.lt_succ_self _))

theorem bounded_begin (run : Collection) :
    Bounded run (begin run.setup run.roots run.db run.names) :=
  ⟨subset_rfl, nofun⟩

theorem collection_ends (run : Collection) : ∃ final, run.Ends final none := by
  obtain ⟨⟨shared, final⟩, reached, finished⟩ := reaches_halt
    (fun state => Bounded run state ∧ state.2.phase.IsProper)
    (fun state => state.2.phase = .finished none)
    (descends_founded run.setup.tables run.db.valid) ⟨bounded_begin run, .inl rfl⟩
    (step_kept fun _ _ => bounded_transition) (by
      rintro before ⟨bounded, proper⟩ notFinished
      exact transition_descends
        (step_transition run.roots before (proper.resolve_right notFinished)) bounded)
  exact ⟨final, shared, reached, finished⟩

end Bsd.Store.GarbageCollector
