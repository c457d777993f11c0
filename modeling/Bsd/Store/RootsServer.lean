import Bsd.Store.CollectionInvariant

/-!
# The roots server

While the collector runs, clients send it store paths they are about to use. Their
threads share the hash parts of the temporary roots and the hash part that is
pending with the collector. A client gets its answer once its path is not pending.
-/

namespace Bsd.Store.RootsServer

open Lib.Occurrences Lib.OrdMap Lib.Machines Lib.Worklists Store.Path Store.LocalStore
  Finset Relation Function
open Store.GarbageCollector

inductive Client where
  /-- In `readLine`. -/
  | reading
  /-- In `wait`, without the lock. -/
  | waiting (hashPart : Bytes)
  /-- About to write the answer, for a root with this hash part or for garbage. -/
  | answering (hashPart : Option Bytes)
  /-- The connection is closed. -/
  | closed

/-- The collector and the threads of its clients. `acknowledged` are the hash parts of the
paths for which a client has got its answer. -/
structure World (tables : Tables) where
  shared : Shared
  gc : Collector tables
  clients : Nat → Client
  acknowledged : Finset Bytes

inductive Event where
  | collect
  | receive (client : Nat) (line : Bytes)
  /-- A notification or a spurious wake-up. -/
  | wake (client : Nat)
  | answer (client : Nat)
  | close (client : Nat)

section

variable (setup : Setup) (roots : Roots)

def becomes (world : World setup.tables) (client : Nat) (state : Client) : World setup.tables :=
  { world with clients := update world.clients client state }

def afterTest (shared : Shared) (hashPart : Bytes) : Client :=
  if shared.pending = some hashPart then .waiting hashPart else .answering (some hashPart)

def receiveLine (world : World setup.tables) (client : Nat) (line : Bytes) : World setup.tables :=
  match maybeParseStorePath setup.tables.store line with
  | some path =>
    let shared :=
      { world.shared with tempRoots := insert path.hashPart world.shared.tempRoots }
    becomes setup { world with shared := shared } client (afterTest shared path.hashPart)
  | none => becomes setup world client (.answering none)

def act (world : World setup.tables) : Event → World setup.tables
  | .collect =>
    let next := step setup roots (world.shared, world.gc)
    { world with shared := next.1, gc := next.2 }
  | .receive client line =>
    match world.clients client with
    | .reading => receiveLine setup world client line
    | _ => world
  | .wake client =>
    match world.clients client with
    | .waiting hashPart => becomes setup world client (afterTest world.shared hashPart)
    | _ => world
  | .answer client =>
    match world.clients client with
    | .answering (some hashPart) =>
      becomes setup { world with acknowledged := insert hashPart world.acknowledged } client
        .reading
    | .answering none => becomes setup world client .reading
    | _ => world
  | .close client =>
    match world.clients client with
    | .waiting _ => world
    | _ => becomes setup world client .closed

def opening (db : Database setup.tables) (names : List Bytes) : World setup.tables where
  shared := (begin setup roots db names).1
  gc := (begin setup roots db names).2
  clients := fun _ => .reading
  acknowledged := ∅

end

def Deletes {tables : Tables} (before after : Collector tables) (path : StorePath) : Prop :=
  path ∉ before.dead ∧ path ∈ after.dead ∧ path ∉ after.db.valid ∧ path.baseName ∈ after.removed

def Respects (setup : Setup) (roots : Roots) (world : World setup.tables) (event : Event) : Prop :=
  ∀ path, Deletes world.gc (act setup roots world event).gc path →
    path.hashPart ∉ world.acknowledged

/-- A path that has been found not to be a root, and that is not deleted yet. -/
def Condemned {tables : Tables} (gc : Collector tables) (path : StorePath) : Prop :=
  gc.phase.Passed path ∧ path ∉ gc.dead

def LetsThrough {setup : Setup} (world : World setup.tables) (hashPart : Bytes) : Event → Prop
  | .receive client line =>
    (∃ path, maybeParseStorePath setup.tables.store line = some path ∧ path.hashPart = hashPart) ∧
    (match world.clients client with | .reading => True | _ => False) ∧
    world.shared.pending ≠ some hashPart
  | .wake client =>
    (match world.clients client with | .waiting waited => waited = hashPart | _ => False) ∧
    world.shared.pending ≠ some hashPart
  | _ => False

/-- A client is let through only while no path with its hash part is condemned. -/
def Guarded {setup : Setup} (world : World setup.tables) (event : Event) : Prop :=
  ∀ hashPart, LetsThrough world hashPart event →
    ∀ path, Condemned world.gc path → path.hashPart ≠ hashPart

/-- The collector will not delete a path with this hash part. -/
structure Secured {tables : Tables} (shared : Shared) (gc : Collector tables) (hashPart : Bytes) :
    Prop where
  registered : hashPart ∈ shared.tempRoots
  spared : ∀ path, Condemned gc path → path.hashPart ≠ hashPart

variable {setup : Setup} {state next : GcState setup.tables} {roots : Roots}

theorem temp_roots_transition
    (transition : Transition setup roots state next) : next.1.tempRoots = state.1.tempRoots := by
  cases transition <;> rfl

variable {hashPart : Bytes}

theorem secured_transition (transition : Transition setup roots state next)
    (secured : Secured state.1 state.2 hashPart) : Secured next.1 next.2 hashPart := by
  constructor
  · rw [temp_roots_transition transition]
    exact secured.registered
  rintro path ⟨passed, notDead⟩
  have wasNotDead : path ∉ state.2.dead := fun isDead =>
    notDead ((dead_transition transition).1 isDead)
  rcases passed_transition transition passed with earlier | ⟨_, isDead | notTemporary⟩
  · exact secured.spared path ⟨earlier, wasNotDead⟩
  · exact absurd isDead wasNotDead
  · intro same
    rw [same] at notTemporary
    exact notTemporary secured.registered

/-- The hash parts of the clients that have registered, been let through or been
answered. -/
structure Kept {setup : Setup} (world : World setup.tables) : Prop where
  proper : world.gc.phase.IsProper
  acknowledged : ∀ hashPart ∈ world.acknowledged, Secured world.shared world.gc hashPart
  answering : ∀ client hashPart, world.clients client = .answering (some hashPart) →
    Secured world.shared world.gc hashPart
  waiting : ∀ client hashPart, world.clients client = .waiting hashPart →
    hashPart ∈ world.shared.tempRoots

section Steps

variable {setup : Setup} {roots : Roots} {world : World setup.tables} {client : Nat}

section

variable (kept : Kept world)

include kept

theorem becomes_kept {state : Client} (answered : ∀ hashPart, state = .answering (some hashPart) →
      Secured world.shared world.gc hashPart)
    (waits : ∀ hashPart, state = .waiting hashPart → hashPart ∈ world.shared.tempRoots) :
    Kept (becomes setup world client state) :=
  ⟨kept.proper, kept.acknowledged, update_shaped kept.answering answered,
    update_shaped kept.waiting waits⟩

theorem after_test_kept (client : Nat) (registered : hashPart ∈ world.shared.tempRoots)
    (spared : world.shared.pending ≠ some hashPart →
      ∀ path, Condemned world.gc path → path.hashPart ≠ hashPart) :
    Kept (becomes setup world client (afterTest world.shared hashPart)) := by
  by_cases pending : world.shared.pending = some hashPart
  · rw [afterTest, if_pos pending]
    refine becomes_kept kept (by nofun) ?_
    intro other same
    cases same
    exact registered
  · rw [afterTest, if_neg pending]
    refine becomes_kept kept ?_ (by nofun)
    intro other same
    cases same
    exact ⟨registered, spared pending⟩

theorem register_kept (hashPart : Bytes) : Kept { world with shared :=
      { world.shared with tempRoots := insert hashPart world.shared.tempRoots } } := by
  refine ⟨kept.proper, ?_, ?_, ?_⟩
  · intro other member
    obtain ⟨registered, spared⟩ := kept.acknowledged other member
    exact ⟨mem_insert_of_mem registered, spared⟩
  · intro client other shape
    obtain ⟨registered, spared⟩ := kept.answering client other shape
    exact ⟨mem_insert_of_mem registered, spared⟩
  · intro client other shape
    exact mem_insert_of_mem (kept.waiting client other shape)

theorem acknowledge_kept (secured : Secured world.shared world.gc hashPart) :
    Kept { world with acknowledged := insert hashPart world.acknowledged } := by
  refine ⟨kept.proper, ?_, kept.answering, kept.waiting⟩
  intro other member
  rcases mem_insert.mp member with same | earlier
  · rw [same]
    exact secured
  · exact kept.acknowledged other earlier

theorem collect_kept : Kept (act setup roots world .collect) := by
  rcases kept.proper with running | finished
  · have transition := step_transition roots (world.shared, world.gc) running
    refine ⟨transition_proper transition, ?_, ?_, ?_⟩
    · intro hashPart member
      exact secured_transition transition (kept.acknowledged hashPart member)
    · intro client hashPart shape
      exact secured_transition transition (kept.answering client hashPart shape)
    · intro client hashPart shape
      have same := temp_roots_transition transition
      exact same ▸ kept.waiting client hashPart shape
  · have same : act setup roots world .collect = world := by
      rw [act, step, finished]
    rw [same]
    exact kept

theorem receive_kept {line : Bytes} (guarded : Guarded world (.receive client line)) :
    Kept (act setup roots world (.receive client line)) := by
  rw [act]
  cases state : world.clients client with
  | reading =>
    simp only [receiveLine]
    cases parsed : maybeParseStorePath setup.tables.store line with
    | some path =>
      refine after_test_kept (register_kept kept path.hashPart) client
        (mem_insert_self _ _) ?_
      intro notPending
      apply guarded path.hashPart
      rw [LetsThrough, state]
      exact ⟨⟨path, parsed, rfl⟩, trivial, notPending⟩
    | none => exact becomes_kept kept nofun nofun
  | _ => exact kept

theorem wake_kept (guarded : Guarded world (.wake client)) :
    Kept (act setup roots world (.wake client)) := by
  rw [act]
  cases state : world.clients client with
  | waiting hashPart =>
    refine after_test_kept kept client (kept.waiting client hashPart state) ?_
    intro notPending
    apply guarded hashPart
    rw [LetsThrough, state]
    exact ⟨rfl, notPending⟩
  | _ => exact kept

theorem answer_kept (client : Nat) : Kept (act setup roots world (.answer client)) := by
  rw [act]
  cases state : world.clients client with
  | answering hashPart =>
    cases hashPart with
    | some hashPart =>
      have secured := kept.answering client hashPart state
      exact becomes_kept (acknowledge_kept kept secured) nofun nofun
    | none => exact becomes_kept kept nofun nofun
  | _ => exact kept

end

theorem act_kept (event : Event) (kept : Kept world) (guarded : Guarded world event) :
    Kept (act setup roots world event) := by
  cases event with
  | collect => exact collect_kept kept
  | receive client line => exact receive_kept kept guarded
  | wake client => exact wake_kept kept guarded
  | answer client => exact answer_kept kept client
  | close client =>
    rw [act]
    cases world.clients client with
    | waiting hashPart => exact kept
    | _ => exact becomes_kept kept nofun nofun

theorem act_gc {event : Event} (other : event ≠ .collect) :
    (act setup roots world event).gc = world.gc := by
  cases event with
  | collect => exact absurd rfl other
  | receive | wake | answer | close =>
    simp only [act, receiveLine]
    repeat' split
    all_goals rfl

theorem kept_respects (event : Event) (kept : Kept world) : Respects setup roots world event := by
  rintro path ⟨notDead, isDead, _, _⟩ member
  by_cases other : event = .collect
  · rw [other] at isDead
    rcases kept.proper with running | finished
    · have transition := step_transition roots (world.shared, world.gc) running
      have passed := ((dead_transition transition).2 isDead).resolve_left notDead
      exact (kept.acknowledged path.hashPart member).spared path ⟨passed, notDead⟩ rfl
    · rw [act, step, finished] at isDead
      exact notDead isDead
  · rw [act_gc other] at isDead
    exact notDead isDead

end Steps

/-- If no client is let through while a path with its hash part is condemned, no path
is deleted after a client has got the answer for its hash part. -/
theorem acknowledged_kept (setup : Setup) (roots : Roots) (db : Database setup.tables)
    (names : List Bytes) (events : List Event)
    (guarded : AllSteps (act setup roots) Guarded (opening setup roots db names) events) :
    AllSteps (act setup roots) (Respects setup roots) (opening setup roots db names) events :=
  all_steps_of_invariant Kept (fun _ event => act_kept event)
    (fun _ event kept _ => kept_respects event kept)
    ⟨.inl rfl, fun _ member => absurd member (notMem_empty _), nofun, nofun⟩ guarded

variable {work : Worklist StorePath} {paths : List StorePath} {start path : StorePath}
  {world : World setup.tables}

theorem collect_referrers (roots : Roots)
    (off : setup.keepOutputs = false ∧ setup.keepDerivations = false)
    {referrers : Finset StorePath} (phase : world.gc.phase = .expanding start path work)
    (valid : path ∈ world.gc.db.valid) (found : referrersOf world.gc path = referrers)
    (sorted : referrers.sort = paths) : act setup roots world .collect =
      { world with gc := { world.gc with
          referrersCache := update world.gc.referrersCache path (some referrers)
          phase := .visiting start (work.enqueueAll paths) } } := by
  have next : nextPaths setup world.gc path = .ok paths := by
    rw [nextPaths, keptOutputs, keptDerivers, off.1, off.2, found, sorted]
    change Except.ok (paths ++ [] ++ []) = _
    rw [List.append_nil, List.append_nil]
  rw [act, step, phase]
  simp [expand, if_pos valid, next, found]

theorem collect_sorted (roots : Roots)
    (phase : world.gc.phase = .visiting start work) (ended : work.pop = none)
    (sorted : topoSortPaths world.gc.db work.visited = .ok paths) : act setup roots world .collect =
      { world with gc := { world.gc with phase := .deleting paths } } := by
  rw [act, step, phase]
  simp [visit, ended, sorted]

def libraryPath : StorePath := ⟨List.replicate 32 48 ++ ascii "-lib", by decide +kernel⟩

def programPath : StorePath := ⟨List.replicate 32 49 ++ ascii "-app", by decide +kernel⟩

def programTables : Tables where
  store := usualStore
  references := fun path => if path = programPath then {libraryPath} else ∅
  deriver := fun _ => none
  derivationOutputs := fun _ => SortedMap.empty
  outputNames := fun _ => []
  realisations := fun _ _ => none
  caDerivations := false

theorem program_refers {valid : Finset StorePath} {reference : StorePath}
    (refers : programTables.Refers valid path reference) :
    path = programPath ∧ reference = libraryPath := by
  have isReference : reference ∈ if path = programPath then {libraryPath} else ∅ := refers.2
  by_cases same : path = programPath
  · rw [if_pos same] at isReference
    exact ⟨same, mem_singleton.mp isReference⟩
  · rw [if_neg same] at isReference
    exact absurd isReference (notMem_empty reference)

theorem program_ne_library : programPath ≠ libraryPath := by decide +kernel

def programStore : Database programTables where
  valid := {libraryPath, programPath}
  parsed := by decide +kernel
  closed := by decide +kernel
  acyclic := by
    intro path cycle
    obtain ⟨_, _, last⟩ := TransGen.tail'_iff.mp cycle
    obtain ⟨_, first, _⟩ := TransGen.head'_iff.mp cycle
    exact program_ne_library ((program_refers first.1).1.symm.trans (program_refers last.1).2)

def programSetup : Setup := ⟨programTables, false, false, fun _ => false⟩

def noRoots : Roots := ⟨∅, ∅⟩

def programOpening : World programTables :=
  opening programSetup noRoots programStore [libraryPath.baseName]

theorem acknowledged_kept_early : AllSteps (act programSetup noRoots) Guarded programOpening
        [.receive 0 (printStorePath usualStore libraryPath), .answer 0, .collect, .collect] ∧
      AllSteps (act programSetup noRoots) (Respects programSetup noRoots) programOpening
        [.receive 0 (printStorePath usualStore libraryPath), .answer 0, .collect, .collect] := by
  have guarded : AllSteps (act programSetup noRoots) Guarded programOpening
      [.receive 0 (printStorePath usualStore libraryPath), .answer 0, .collect, .collect] :=
    ⟨fun _ _ _ condemned => condemned.1.elim, nofun, nofun, nofun, trivial⟩
  exact ⟨guarded, acknowledged_kept programSetup noRoots programStore [libraryPath.baseName] _
    guarded⟩

/-- The collector checks the library, then the program that refers to it. The client
that sends the library finds the program pending and gets its answer. -/
def lateEvents : List Event :=
  [.collect, .collect, .collect, .collect, .receive 0 (printStorePath usualStore libraryPath),
    .answer 0, .collect, .collect, .collect, .collect]

def searching (pending : Option Bytes) (cache : StorePath → Option (Finset StorePath))
    (phase : Phase) : World programTables where
  shared := ⟨∅, pending⟩
  gc := { entries := [], phase := phase, db := programStore, alive := ∅, dead := ∅,
          referrersCache := cache, removed := [], inUse := [] }
  clients := fun _ => .reading
  acknowledged := ∅

def libraryCache : StorePath → Option (Finset StorePath) :=
  update (fun _ => none) libraryPath (some {programPath})

def programCache : StorePath → Option (Finset StorePath) :=
  update libraryCache programPath (some ∅)

def libraryMet : Worklist StorePath := ⟨{libraryPath}, [], nofun, List.nodup_nil⟩

def programNext : Worklist StorePath := libraryMet.enqueueAll [programPath]

def bothMet : Worklist StorePath := ⟨{programPath, libraryPath}, [], nofun, List.nodup_nil⟩

def answered (cache : StorePath → Option (Finset StorePath)) (phase : Phase) :
    World programTables :=
  { searching none cache phase with
    shared := ⟨{libraryPath.hashPart}, some programPath.hashPart⟩
    clients := update (update (fun _ => .reading) 0
      (.answering (some libraryPath.hashPart))) 0 .reading
    acknowledged := {libraryPath.hashPart} }

theorem sort_both : topoSortPaths programStore {programPath, libraryPath} =
    .ok [programPath, libraryPath] := by
  obtain ⟨sorted, computed, isSorted⟩ :=
    topo_sort_paths_ok programStore {programPath, libraryPath}
  have members : ∀ path, path ∈ sorted ↔ path ∈ [programPath, libraryPath] := by
    intro path
    rw [isSorted.mem, mem_insert, mem_singleton, List.mem_pair]
  have refers : programTables.Refers programStore.valid programPath libraryPath :=
    ⟨by decide +kernel, by decide +kernel⟩
  have distinct : [programPath, libraryPath].Nodup := by decide +kernel
  have ordered : [programPath, libraryPath].Pairwise fun earlier later =>
      ¬programTables.Refers programStore.valid later earlier := by
    rw [List.pairwise_pair]
    intro backwards
    exact program_ne_library (program_refers backwards).1.symm
  have same : sorted = [programPath, libraryPath] := by
    apply ((List.perm_ext_iff_of_nodup isSorted.once distinct).mpr members).eq_of_pairwise _
      isSorted.ordered ordered
    intro left right isLeft isRight notBefore notAfter
    rcases List.mem_pair.mp ((members left).mp isLeft) with rfl | rfl
    · rcases List.mem_pair.mp isRight with rfl | rfl
      · rfl
      · exact absurd refers notAfter
    · rcases List.mem_pair.mp isRight with rfl | rfl
      · exact absurd refers notBefore
      · rfl
  rw [computed, same]

theorem check_library :
    act programSetup noRoots (act programSetup noRoots programOpening .collect) .collect =
      searching (some libraryPath.hashPart) (fun _ => none)
        (.expanding libraryPath libraryPath libraryMet) := rfl

theorem expand_library :
    act programSetup noRoots (searching (some libraryPath.hashPart) (fun _ => none)
        (.expanding libraryPath libraryPath libraryMet)) .collect =
      searching (some libraryPath.hashPart) libraryCache (.visiting libraryPath programNext) := by
  have found : referrersOf (searching (some libraryPath.hashPart) (fun _ => none)
      (.expanding libraryPath libraryPath libraryMet)).gc libraryPath = {programPath} := by
    decide +kernel
  exact collect_referrers noRoots ⟨rfl, rfl⟩ rfl (by decide +kernel) found
    (sort_singleton _ programPath)

theorem check_program : act programSetup noRoots (act programSetup noRoots
      (act programSetup noRoots (searching (some libraryPath.hashPart) libraryCache
        (.visiting libraryPath programNext)) .collect)
        (.receive 0 (printStorePath usualStore libraryPath))) (.answer 0) =
      answered libraryCache (.expanding libraryPath programPath bothMet) := rfl

theorem expand_program : act programSetup noRoots (answered libraryCache
        (.expanding libraryPath programPath bothMet)) .collect =
      answered programCache (.visiting libraryPath bothMet) := by
  have found : referrersOf (answered libraryCache
      (.expanding libraryPath programPath bothMet)).gc programPath = ∅ := by decide +kernel
  exact collect_referrers noRoots ⟨rfl, rfl⟩ rfl (by decide +kernel) found (sort_empty _)

theorem sort_program :
    act programSetup noRoots (answered programCache (.visiting libraryPath bothMet)) .collect =
      answered programCache (.deleting [programPath, libraryPath]) :=
  collect_sorted noRoots rfl rfl sort_both

/-- A client has got the answer for the library, and the library is deleted. -/
theorem acknowledged_library_deleted :
    ¬AllSteps (act programSetup noRoots) (Respects programSetup noRoots)
      programOpening lateEvents := by
  rintro ⟨_, _, _, _, _, _, _, _, _, respects, _⟩
  rw [check_library, expand_library, check_program, expand_program, sort_program] at respects
  apply respects libraryPath
  · exact ⟨by decide +kernel, by decide +kernel, by decide +kernel, by decide +kernel⟩
  · decide +kernel

open Store.CollectionInvariant

theorem invalidate_erases {tables : Tables} {db after : Database tables}
    (invalidated : invalidatePathChecked db path = .ok after) :
    after.valid = db.valid.erase path := by
  rw [invalidatePathChecked] at invalidated
  split_ifs at invalidated with valid
  · cases invalidated
    rfl
  · cases invalidated
    exact (erase_eq_of_notMem valid).symm

/-- No root is deleted or about to be, and what leaves the database or the store directory
has been found dead. -/
structure Spared (roots : Roots) (db : Database setup.tables)
    (state : GcState setup.tables) : Prop where
  temporary : roots.temporary.image StorePath.hashPart ⊆ state.1.tempRoots
  root : ∀ root, IsRoot roots root → root ∉ state.2.dead ∧ ¬state.2.phase.Passed root
  valid : ∀ path ∈ db.valid, path ∈ state.2.db.valid ∨ path ∈ state.2.dead
  removed : ∀ path : StorePath, path.separator ≠ 47 → path.baseName ∈ state.2.removed →
    path ∈ state.2.dead ∧ path ∉ state.2.db.valid

variable {db : Database setup.tables}

section

variable (transition : Transition setup roots state next) (spared : Spared roots db state)

include transition spared

theorem root_not_passed (isRoot : IsRoot roots path) : ¬next.2.phase.Passed path := by
  have known := is_root_iff.mpr isRoot
  obtain ⟨notDead, before⟩ := spared.root path isRoot
  intro passed
  cases transition with
  | finish | known | keep | ended | release => exact passed
  | skip | remove => exact before passed
  | enter => exact Worklist.not_done_single _ path passed
  | sort phase ended sorted =>
    rw [phase] at before
    exact before ((Worklist.pop_none_done ended).mpr ((sorted.mem path).mp passed))
  | gone phase popped _ isDead =>
    rw [phase] at before
    rcases (Worklist.pop_done popped).mp passed with rfl | earlier
    · exact notDead isDead
    · exact before earlier
  | check phase popped _ _ notRoot notTemporary =>
    rw [phase] at before
    rcases (Worklist.pop_done popped).mp passed with rfl | earlier
    · exact known.elim notRoot fun hash => notTemporary (spared.temporary hash)
    · exact before earlier
  | expand phase =>
    rw [phase] at before
    exact before (Worklist.done_enqueue_all.mp passed)
  | pass phase =>
    rw [phase] at before
    exact before passed
  | again phase | delete phase | bug phase =>
    rw [phase] at before
    exact before (List.mem_cons_of_mem _ passed)

theorem spared_transition : Spared roots db next := by
  refine ⟨temp_roots_transition transition ▸ spared.temporary, fun root isRoot => ⟨?_, ?_⟩, ?_, ?_⟩
  · intro isDead
    rcases (dead_transition transition).2 isDead with earlier | passed
    · exact (spared.root root isRoot).1 earlier
    · exact (spared.root root isRoot).2 passed
  · exact root_not_passed transition spared isRoot
  · intro path member
    have before := spared.valid path member
    cases transition with
    | delete phase notDead invalidated =>
      have erased := invalidate_erases invalidated
      grind
    | bug => exact before.imp_right mem_insert_of_mem
    | _ => exact before
  · intro path plain removed
    have before := spared.removed path plain
    cases transition with
    | remove phase entries notSkipped other =>
      rcases List.mem_cons.mp removed with rfl | earlier
      · have printed := parse_print_store_path setup.tables.store path plain
        rw [printStorePath] at printed
        rw [entryPath, maybeParseStorePath, printed] at other
        cases other
      · exact before earlier
    | delete phase notDead invalidated =>
      have erased := invalidate_erases invalidated
      rcases List.mem_cons.mp removed with same | earlier
      · cases base_name_injective same
        grind
      · grind
    | bug => exact (before removed).imp_left mem_insert_of_mem
    | _ => exact before removed

end

theorem act_temp_roots {event : Event} (other : event ≠ .collect) :
    world.shared.tempRoots ⊆ (act setup roots world event).shared.tempRoots := by
  cases event with
  | collect => exact absurd rfl other
  | receive | wake | answer | close =>
    simp only [act, receiveLine]
    repeat' split
    all_goals first | exact subset_insert _ _ | exact subset_rfl

theorem spared_act (event : Event)
    (held : Spared roots db (world.shared, world.gc) ∧ world.gc.phase.IsProper) :
    Spared roots db ((act setup roots world event).shared, (act setup roots world event).gc) ∧
      (act setup roots world event).gc.phase.IsProper := by
  by_cases collects : event = .collect
  · rw [collects]
    exact @step_kept ⟨setup, roots, db, []⟩ _ (fun _ _ => spared_transition) _ held
  · rw [act_gc collects]
    obtain ⟨spared, proper⟩ := held
    exact ⟨{ spared with temporary := spared.temporary.trans (act_temp_roots collects) }, proper⟩

/-- In every run of the collector and its clients, no root found at the start is removed, and
what such a root refers to stays valid and in the store directory. -/
theorem roots_survive (setup : Setup) (roots : Roots) (db : Database setup.tables)
    (names : List Bytes) (events : List Event) :
    let world := events.foldl (act setup roots) (opening setup roots db names)
    (∀ root, IsRoot roots root → root.separator ≠ 47 → root.baseName ∉ world.gc.removed) ∧
      ∀ root, IsRoot roots root → root ∈ db.valid → ∀ path,
        ReflTransGen (setup.tables.Refers db.valid) root path →
          path ∈ world.gc.db.valid ∧ path.baseName ∉ world.gc.removed := by
  intro world
  have held : Spared roots db (world.shared, world.gc) ∧ world.gc.phase.IsProper := by
    apply List.foldlRecOn events (act setup roots)
      (motive := fun world => Spared roots db (world.shared, world.gc) ∧ world.gc.phase.IsProper)
    · refine ⟨⟨subset_rfl, ?_, fun _ => .inl, fun _ _ => nofun⟩, .inl rfl⟩
      exact fun _ _ => ⟨notMem_empty _, id⟩
    · exact fun world held event _ => spared_act event held
  have spared := held.1
  constructor
  · intro root isRoot plain removed
    exact (spared.root root isRoot).1 (spared.removed root plain removed).1
  · intro root isRoot valid path refers
    have still : path ∈ world.gc.db.valid := by
      induction refers with
      | refl => exact (spared.valid root valid).resolve_right (spared.root root isRoot).1
      | tail _ refers ih => exact world.gc.db.closed _ ih refers.2
    exact ⟨still, fun removed => (spared.removed path (world.gc.db.parsed path still) removed).2 still⟩

end Bsd.Store.RootsServer
