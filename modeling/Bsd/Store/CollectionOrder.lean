import Bsd.Store.CollectionInvariant

/-!
# The order of the store directory

Liveness is passed on along the edges of `computeFSClosure`, while a search for roots
goes along other edges. What a collection deletes depends on the order in which the
directory is read, unless the ones lead back along the others.
-/

namespace Bsd.Store.CollectionOrder

open Lib.Occurrences Lib.OrdMap Lib.Worklists Util.FilePath Store.Path Store.LocalStore Finset
  Relation
open Store.GarbageCollector Store.CollectionInvariant

structure Listed (store : StoreDirConfig) (path : StorePath) : Prop where
  parsed : entryPath store path.baseName = some path
  notSkipped : isSkipped path.baseName = false

variable {path : StorePath}

theorem listed_of_separator (store : StoreDirConfig) (plain : path.separator ≠ 47) : Listed store path := by
  have printed := parse_print_store_path store path plain
  rw [printStorePath] at printed
  constructor
  · rw [entryPath, maybeParseStorePath, printed]
  have long := path.size
  rw [isSkipped, Bool.or_eq_false_iff, Bool.or_eq_false_iff]
  refine ⟨⟨?_, ?_⟩, ?_⟩
  all_goals
    apply decide_eq_false
    intro same
    rw [same] at long
    exact absurd long (by decide)

structure Spared {tables : Tables} (path : StorePath) (gc : Collector tables) : Prop where
  alive : path ∈ gc.alive
  kept : path.baseName ∉ gc.removed
  notPassed : ¬gc.phase.Passed path

variable {setup : Setup} {roots : Roots}

theorem spared_transition (listed : Listed setup.tables.store path)
    {state next : GcState setup.tables} (transition : Transition setup roots state next)
    (spared : Spared path state.2) : Spared path next.2 := by
  refine ⟨alive_transition transition spared.alive, ?_, ?_⟩
  · intro removed
    rcases (removed_transition transition).2 removed with earlier | other | ⟨deleted, same, passed⟩
    · exact spared.kept earlier
    · rw [listed.parsed] at other
      cases other
    · rw [base_name_injective same] at passed
      exact spared.notPassed passed
  · intro passed
    rcases passed_transition transition passed with earlier | ⟨notAlive, _⟩
    · exact spared.notPassed earlier
    · exact notAlive spared.alive

variable {shared : Shared}

theorem listed_enters (listed : Listed setup.tables.store path) {gc : Collector setup.tables}
    {rest : List Bytes} (phase : gc.phase = .scanning)
    (entries : gc.entries = path.baseName :: rest) {next : GcState setup.tables}
    (transition : Transition setup roots (shared, gc) next) :
    next = (shared, { gc with
      entries := rest, phase := .visiting path (Worklist.single path) }) := by
  cases transition with
  | finish _ ended => cases entries.symm.trans ended
  | skip _ shape passed =>
    cases entries.symm.trans shape
    rcases passed with skipped | ⟨other, _⟩
    · cases listed.notSkipped.symm.trans skipped
    · cases listed.parsed.symm.trans other
  | remove _ shape _ other _ =>
    cases entries.symm.trans shape
    cases listed.parsed.symm.trans other
  | enter _ shape _ parsed =>
    cases entries.symm.trans shape
    cases listed.parsed.symm.trans parsed
    rfl
  | _ => simp_all only [reduceCtorEq]

variable {run : Collection}

inductive RootFirst (run : Collection) (root path : StorePath) :
    GcState run.setup.tables → Prop where
  | reading {shared : Shared} {gc : Collector run.setup.tables} {rest : List Bytes}
      (phase : gc.phase = .scanning) (entries : gc.entries = root.baseName :: rest)
      (same : gc.db = run.db) (nothing : gc.alive = ∅ ∧ gc.dead = ∅ ∧ gc.removed = []) :
      RootFirst run root path (shared, gc)
  | visiting {shared : Shared} {gc : Collector run.setup.tables}
      (phase : gc.phase = .visiting root (Worklist.single root)) (same : gc.db = run.db)
      (nothing : gc.alive = ∅ ∧ gc.dead = ∅ ∧ gc.removed = []) :
      RootFirst run root path (shared, gc)
  | spared {shared : Shared} {gc : Collector run.setup.tables} (spared : Spared path gc) :
      RootFirst run root path (shared, gc)

variable {root : StorePath}

theorem pop_single {rest : Worklist StorePath}
    (popped : (Worklist.single root).pop = some (path, rest)) : path = root :=
  Worklist.mem_single.mp (Worklist.pop_mem popped)

theorem root_first_transition (isRoot : root ∈ run.roots.all)
    (rootListed : Listed run.setup.tables.store root) (listed : Listed run.setup.tables.store path)
    (leads : Leads run.db run.setup.keepOutputs run.setup.keepDerivations root path)
    (state next : GcState run.setup.tables)
    (transition : Transition run.setup run.roots state next) (first : RootFirst run root path state) :
    RootFirst run root path next := by
  cases first with
  | reading phase entries same nothing =>
    rw [listed_enters rootListed phase entries transition]
    exact RootFirst.visiting rfl same nothing
  | @visiting shared gc phase same nothing =>
    obtain ⟨noAlive, noDead, noRemoved⟩ := nothing
    cases transition with
    | sort shape ended =>
      cases phase.symm.trans shape
      exact absurd (Worklist.pop_none ended) (List.cons_ne_nil root [])
    | known shape popped isAlive =>
      rw [noAlive] at isAlive
      exact absurd isAlive (notMem_empty _)
    | gone shape popped _ isDead =>
      rw [noDead] at isDead
      exact absurd isDead (notMem_empty _)
    | keep shape popped _ _ _ marked =>
      cases phase.symm.trans shape
      rw [same, pop_single popped] at marked
      apply RootFirst.spared
      refine ⟨(marked path).mpr (.inr (.inr (ReflTransGen.single leads))), ?_, id⟩
      rw [noRemoved]
      exact List.not_mem_nil
    | check shape popped _ _ notRoot _ =>
      cases phase.symm.trans shape
      rw [pop_single popped] at notRoot
      exact absurd isRoot notRoot
    | _ => simp_all only [reduceCtorEq]
  | spared spared => exact RootFirst.spared (spared_transition listed transition spared)

variable {thrown : Option Failure} {rest : List Bytes}

inductive DeadFirst (run : Collection) (path : StorePath) :
    GcState run.setup.tables → Prop where
  | reading {shared : Shared} {gc : Collector run.setup.tables} {rest : List Bytes}
      (phase : gc.phase = .scanning) (entries : gc.entries = path.baseName :: rest)
      (nothing : gc.alive = ∅ ∧ gc.dead = ∅) : DeadFirst run path (shared, gc)
  | visiting {shared : Shared} {gc : Collector run.setup.tables} {work : Worklist StorePath}
      (phase : gc.phase = .visiting path work) (nothing : gc.alive = ∅ ∧ gc.dead = ∅) :
      DeadFirst run path (shared, gc)
  | expanding {shared : Shared} {gc : Collector run.setup.tables} {other : StorePath}
      {work : Worklist StorePath} (phase : gc.phase = .expanding path other work)
      (nothing : gc.alive = ∅ ∧ gc.dead = ∅) : DeadFirst run path (shared, gc)
  | deleting {shared : Shared} {gc : Collector run.setup.tables} {paths : List StorePath}
      (phase : gc.phase = .deleting paths) (member : path ∈ paths) (notDead : path ∉ gc.dead) :
      DeadFirst run path (shared, gc)

variable {state next : GcState run.setup.tables}

theorem dead_first_invariant (notLive : ¬Live run path)
    (transition : Transition run.setup run.roots state next) (invariant : Invariant run state)
    (first : DeadFirst run path state) : Invariant run next := by
  apply invariant_transition transition invariant
  obtain ⟨past, sound, _⟩ := invariant
  rintro start work phase
  cases first with
  | reading other | deleting other =>
    rcases phase with shape | ⟨_, shape⟩ <;> cases other.symm.trans shape
  | @visiting _ gc _ other nothing | @expanding _ gc _ _ other nothing =>
    rcases phase with shape | ⟨_, shape⟩ <;> cases other.symm.trans shape
    have same : gc.db = run.db := by
      ext other
      rw [sound.valid, nothing.2]
      exact and_iff_left (notMem_empty other)
    rw [same]
    exact ⟨fun other next behind => ReflTransGen.single behind,
      fun other isRoot needed => absurd ⟨other, isRoot, needed⟩ notLive⟩

theorem dead_first_transition (listed : Listed run.setup.tables.store path)
    (notLive : ¬Live run path) (transition : Transition run.setup run.roots state next)
    (invariant : Invariant run state) (first : DeadFirst run path state) :
    DeadFirst run path next ∨ path.baseName ∈ next.2.removed := by
  cases first with
  | reading phase entries nothing =>
    rw [listed_enters listed phase entries transition]
    exact Or.inl (DeadFirst.visiting rfl nothing)
  | visiting phase nothing =>
    obtain ⟨past, sound, _ | ⟨searching, searched⟩⟩ := invariant.in_phase phase
    cases transition with
    | sort shape ended sorted =>
      cases phase.symm.trans shape
      apply Or.inl
      refine DeadFirst.deleting rfl ((sorted.mem path).mpr searching.started) ?_
      rw [nothing.2]
      exact notMem_empty path
    | known shape popped isAlive =>
      rw [nothing.1] at isAlive
      exact absurd isAlive (notMem_empty _)
    | gone shape popped _ isDead =>
      rw [nothing.2] at isDead
      exact absurd isDead (notMem_empty _)
    | keep shape popped _ _ isRoot _ =>
      cases phase.symm.trans shape
      rw [sound.temporary] at isRoot
      exact absurd ⟨_, is_root_iff.mp isRoot, searching.met _ (Worklist.pop_mem popped)⟩ notLive
    | check shape popped =>
      cases phase.symm.trans shape
      exact Or.inl (DeadFirst.expanding rfl nothing)
    | _ => simp_all only [reduceCtorEq]
  | expanding phase nothing =>
    cases transition with
    | expand shape | pass shape =>
      cases phase.symm.trans shape
      exact Or.inl (DeadFirst.visiting rfl nothing)
    | _ => simp_all only [reduceCtorEq]
  | deleting phase member notDead =>
    cases transition with
    | again shape isDead =>
      cases phase.symm.trans shape
      apply Or.inl
      refine DeadFirst.deleting rfl ((List.mem_cons.mp member).resolve_left ?_) notDead
      intro same
      rw [same] at notDead
      exact notDead isDead
    | @delete _ _ deleted _ _ shape =>
      cases phase.symm.trans shape
      by_cases same : path = deleted
      · rw [same]
        exact Or.inr List.mem_cons_self
      apply Or.inl
      refine DeadFirst.deleting rfl ((List.mem_cons.mp member).resolve_left same) ?_
      intro isDead
      exact (mem_insert.mp isDead).elim same notDead
    | bug shape _ refused => exact absurd invariant (not_bug shape refused)
    | ended shape =>
      cases phase.symm.trans shape
      cases member
    | _ => simp_all only [reduceCtorEq]

theorem dead_first_deleted (run : Collection) (names : run.names = path.baseName :: rest)
    (listed : Listed run.setup.tables.store path) (notLive : ¬Live run path)
    {final : Collector run.setup.tables} (ends : run.Ends final thrown) :
    path.baseName ∈ final.removed := by
  obtain ⟨shared, reached, finished⟩ := ends
  have course := (reaches_invariant
    (fun state => Invariant run state ∧ DeadFirst run path state ∨ path.baseName ∈ state.2.removed)
    (.inl ⟨invariant_begin, DeadFirst.reading rfl names ⟨rfl, rfl⟩⟩)
    (by
      rintro state next transition (⟨invariant, first⟩ | removed)
      · rcases dead_first_transition listed notLive transition invariant first with still | gone
        · exact .inl ⟨dead_first_invariant notLive transition invariant first, still⟩
        · exact .inr gone
      · exact .inr ((removed_transition transition).1 removed)) reached).1
  rcases course with ⟨_, first⟩ | removed
  · cases first with
    | reading phase | visiting phase | expanding phase | deleting phase =>
      cases phase.symm.trans finished
  · exact removed

def rootedCollection (setup : Setup) (db : Database setup.tables) (root : StorePath)
    (names : List Bytes) : Collection :=
  ⟨setup, ⟨{root}, ∅⟩, db, names⟩

variable {db : Database setup.tables}

/-- A root leads to a path from which the search does not come to the root: the one is
deleted or not after the order in which they are read. -/
theorem order_matters (leads : Leads db setup.keepOutputs setup.keepDerivations root path)
    (apart : ¬ReflTransGen (Behind setup db) path root)
    {first second : Collector setup.tables} {firstThrown secondThrown : Option Failure}
    (firstEnds : (rootedCollection setup db root [root.baseName, path.baseName]).Ends first
      firstThrown)
    (secondEnds : (rootedCollection setup db root [path.baseName, root.baseName]).Ends second
      secondThrown) : path.baseName ∉ first.removed ∧ path.baseName ∈ second.removed := by
  have rootListed := listed_of_separator setup.tables.store (db.parsed root leads.1)
  have listed := listed_of_separator setup.tables.store (db.parsed path (leads_valid leads))
  constructor
  · obtain ⟨shared, reached, finished⟩ := firstEnds
    have course := (reaches_invariant (RootFirst (rootedCollection setup db root _) root path)
      (RootFirst.reading rfl rfl rfl ⟨rfl, rfl, rfl⟩) (root_first_transition
        (mem_union_left _ (mem_singleton_self root)) rootListed listed leads) reached).1
    cases course with
    | reading phase | visiting phase => exact absurd (phase.symm.trans finished) nofun
    | spared spared => exact spared.kept
  refine dead_first_deleted (rootedCollection setup db root _) rfl listed ?_ secondEnds
  rintro ⟨other, isPermanent | ⟨temporary, isTemporary, _⟩, needed⟩
  · rw [mem_singleton.mp isPermanent] at needed
    exact apart needed
  · exact notMem_empty temporary isTemporary

variable {names others : List Bytes}

theorem garbage_perm (same : names.Perm others) (garbage : Garbage ⟨setup, roots, db, names⟩ path) :
    Garbage ⟨setup, roots, db, others⟩ path := by
  obtain ⟨start, ⟨name, member, notSkipped, parsed⟩, notLive, needed⟩ := garbage
  exact ⟨start, ⟨name, same.subset member, notSkipped, parsed⟩, notLive, needed⟩

/-- What is deleted does not depend on the order of the directory, whatever the roots,
exactly if all that `computeFSClosure` goes to leads back along the edges of the search. -/
theorem order_independent_iff (setup : Setup) (db : Database setup.tables) :
    (∀ (roots : Roots) (names others : List Bytes), names.Perm others →
      ∃ first second : Collector setup.tables,
        Collection.Ends ⟨setup, roots, db, names⟩ first none ∧
        Collection.Ends ⟨setup, roots, db, others⟩ second none ∧
        ∀ name, name ∈ first.removed ↔ name ∈ second.removed) ↔
      LeadsBack setup db := by
  constructor
  · intro independent root path leads
    by_contra apart
    obtain ⟨first, second, firstEnds, secondEnds, sameRemoved⟩ := independent ⟨{root}, ∅⟩
      [root.baseName, path.baseName] [path.baseName, root.baseName] (List.Perm.swap _ _ _)
    obtain ⟨spared, deleted⟩ := order_matters leads apart firstEnds secondEnds
    exact spared ((sameRemoved path.baseName).mpr deleted)
  · intro back roots names others same
    obtain ⟨first, firstEnds, firstRemoves⟩ := ends_with_garbage ⟨setup, roots, db, names⟩ back
    obtain ⟨second, secondEnds, secondRemoves⟩ := ends_with_garbage ⟨setup, roots, db, others⟩ back
    refine ⟨first, second, firstEnds, secondEnds, ?_⟩
    intro name
    rw [firstRemoves, secondRemoves]
    apply or_congr
    · apply exists_congr
      intro path
      exact and_congr_left' ⟨garbage_perm same, garbage_perm same.symm⟩
    · rw [same.mem_iff]

def floatingPath : StorePath := ⟨List.replicate 32 48 ++ ascii "-x.drv", by decide +kernel⟩

def realisedPath : StorePath := ⟨List.replicate 32 49 ++ ascii "-x", by decide +kernel⟩

/-- A floating derivation and its output, which only a realisation ties to it. -/
def floatingTables : Tables where
  store := usualStore
  references := fun _ => ∅
  deriver := fun path => if path = realisedPath then some floatingPath else none
  derivationOutputs := fun _ => SortedMap.empty
  outputNames := fun path => if path = floatingPath then [ascii "out"] else []
  realisations := fun path name =>
    if path = floatingPath ∧ name = ascii "out" then some realisedPath else none
  caDerivations := true

def floatingStore : Database floatingTables where
  valid := {floatingPath, realisedPath}
  parsed := by decide +kernel
  closed := fun _ _ => Finset.empty_subset _
  acyclic := by
    intro path cycle
    obtain ⟨_, edge, _⟩ := TransGen.head'_iff.mp cycle
    exact Finset.notMem_empty _ edge.1.2

/-- The output of a derivation that is a root is deleted with `keep-outputs` if it is
read before the derivation, and kept if it is read after it. -/
theorem realised_output_order : ∃ first second : Collector floatingTables,
      (rootedCollection ⟨floatingTables, true, false, fun _ => false⟩ floatingStore floatingPath
        [floatingPath.baseName, realisedPath.baseName]).Ends first none ∧
      (rootedCollection ⟨floatingTables, true, false, fun _ => false⟩ floatingStore floatingPath
        [realisedPath.baseName, floatingPath.baseName]).Ends second none ∧
      realisedPath.baseName ∉ first.removed ∧ realisedPath.baseName ∈ second.removed := by
  have ends := fun names => collection_ends (rootedCollection
    ⟨floatingTables, true, false, fun _ => false⟩ floatingStore floatingPath names)
  obtain ⟨first, firstEnds⟩ := ends [floatingPath.baseName, realisedPath.baseName]
  obtain ⟨second, secondEnds⟩ := ends [realisedPath.baseName, floatingPath.baseName]
  refine ⟨first, second, firstEnds, secondEnds, order_matters ?_ ?_ firstEnds secondEnds⟩
  · refine ⟨by decide +kernel, .inr (.inl ⟨rfl, by decide +kernel, by decide +kernel,
      ascii "out", by decide +kernel⟩)⟩
  intro needed
  rcases ReflTransGen.cases_head needed with same | ⟨next, behind, _⟩
  · exact absurd same (by decide +kernel)
  obtain ⟨_, refers | ⟨kept, _⟩ | ⟨_, isDeriver⟩⟩ := behind
  · exact Finset.notMem_empty _ refers.2
  · cases kept
  · exact absurd (Finset.mem_filter.mp isDeriver).2 List.not_mem_nil

end Bsd.Store.CollectionOrder
