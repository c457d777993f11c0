import Bsd.Store.GarbageCollector

/-!
# The invariant of a collection

The collector never computes the live paths. It goes backwards from each entry of
the store directory, and its sets and its cache say between two entries which paths
have been found live or were deleted. The invariant of a run without clients ties
them to the database at the start.
-/

namespace Bsd.Store.CollectionInvariant

open Function List Lib.Occurrences Lib.Worklists Util.FilePath Store.Path Store.LocalStore Worklist
  Relation
open Store.GarbageCollector

/-- The paths that are taken for roots: also those with the hash part of a temporary one. -/
def IsRoot (roots : Roots) (path : StorePath) : Prop :=
  path ∈ roots.permanent ∨ ∃ root ∈ roots.temporary, root.hashPart = path.hashPart

def IsEntry (store : StoreDirConfig) (names : List Bytes) (path : StorePath) : Prop :=
  ∃ name ∈ names, isSkipped name = false ∧ entryPath store name = some path

/-- A name that is removed although it is not that of a store path. -/
def IsStray (setup : Setup) (name : Bytes) : Prop :=
  isSkipped name = false ∧ entryPath setup.tables.store name = none ∧ isLocked setup name = false

section

variable (run : Collection)

def NeededBy : StorePath → StorePath → Prop :=
  ReflTransGen (Behind run.setup run.db)

def Live (path : StorePath) : Prop := ∃ root, IsRoot run.roots root ∧ NeededBy run path root

def Garbage (path : StorePath) : Prop :=
  ∃ start, IsEntry run.setup.tables.store run.names start ∧ ¬Live run start ∧
    NeededBy run start path

end

variable {run : Collection} {path other : StorePath}

theorem live_of_needed (needed : NeededBy run path other) (live : Live run other) : Live run path := by
  obtain ⟨root, isRoot, further⟩ := live
  exact ⟨root, isRoot, needed.trans further⟩

theorem garbage_not_live (garbage : Garbage run path) : ¬Live run path := by
  obtain ⟨start, _, notLive, needed⟩ := garbage
  intro live
  exact notLive (live_of_needed needed live)

theorem is_root_iff {roots : Roots} :
    path ∈ roots.all ∨ path.hashPart ∈ roots.temporary.image StorePath.hashPart ↔
      IsRoot roots path := by
  rw [Roots.all, Finset.mem_union, Finset.mem_image]
  constructor
  · rintro ((isPermanent | isTemporary) | sameHash)
    · exact .inl isPermanent
    · exact .inr ⟨path, isTemporary, rfl⟩
    · exact .inr sameHash
  · rintro (isPermanent | sameHash)
    · exact .inl (.inl isPermanent)
    · exact .inr sameHash

structure Sound (run : Collection) (past : List Bytes)
    (state : GcState run.setup.tables) : Prop where
  names : run.names = past ++ state.2.entries
  temporary : state.1.tempRoots = run.roots.temporary.image StorePath.hashPart
  valid : ∀ path, path ∈ state.2.db.valid ↔ path ∈ run.db.valid ∧ path ∉ state.2.dead
  dead : ∀ path ∈ state.2.dead, Garbage run path
  alive : ∀ path ∈ state.2.alive, Live run path
  cacheHas : ∀ path referrers, state.2.referrersCache path = some referrers → ∀ other,
    run.setup.tables.Refers state.2.db.valid other path → other ∈ referrers
  cacheOnly : ∀ path referrers, state.2.referrersCache path = some referrers → ∀ other,
    other ∈ referrers → run.setup.tables.Refers run.db.valid other path
  inUse : state.2.inUse = []
  removed : ∀ name, name ∈ state.2.removed ↔
    (∃ path ∈ state.2.dead, path.baseName = name) ∨ name ∈ past ∧ IsStray run.setup name

def DeadClosed (run : Collection) (dead : Finset StorePath) : Prop :=
  ∀ path ∈ dead, ∀ other, Behind run.setup run.db path other → other ∈ dead

/-- The entries in `past` are live or dead, but for the ones still being dealt with. -/
def Decided (run : Collection) (past : List Bytes) (dead : Finset StorePath)
    (open_ : StorePath → Prop) : Prop :=
  ∀ path, IsEntry run.setup.tables.store past path → Live run path ∨ path ∈ dead ∨ open_ path

structure Searching (run : Collection) (past : List Bytes) (dead : Finset StorePath)
    (start : StorePath) (work : Worklist StorePath) : Prop where
  closed : DeadClosed run dead
  decided : Decided run past dead fun path => path = start
  entry : IsEntry run.setup.tables.store run.names start
  started : start ∈ work.visited
  met : ∀ path ∈ work.visited, NeededBy run start path

/-- A path the search is through with: it is dead, or it is no root and what depends on
it is dead or has been met. -/
def Searched (run : Collection) (dead : Finset StorePath) (work : Worklist StorePath)
    (path : StorePath) : Prop :=
  path ∈ dead ∨ ¬IsRoot run.roots path ∧
    ∀ other, Behind run.setup run.db path other → other ∈ work.visited ∨ other ∈ dead

inductive InPhase (run : Collection) (past : List Bytes) (gc : Collector run.setup.tables) :
    Phase → Prop where
  | scanning (closed : DeadClosed run gc.dead)
      (decided : Decided run past gc.dead fun _ => False) : InPhase run past gc .scanning
  | visiting {start : StorePath} {work : Worklist StorePath}
      (searching : Searching run past gc.dead start work)
      (searched : ∀ path, work.Done path → Searched run gc.dead work path) :
      InPhase run past gc (.visiting start work)
  | expanding {start path : StorePath} {work : Worklist StorePath}
      (searching : Searching run past gc.dead start work) (member : path ∈ work.visited)
      (notDead : path ∉ gc.dead) (notRoot : ¬IsRoot run.roots path)
      (searched : ∀ other, work.Done other → other = path ∨ Searched run gc.dead work other) :
      InPhase run past gc (.expanding start path work)
  | deleting {paths : List StorePath} (garbage : ∀ path ∈ paths, Garbage run path)
      (closed : ∀ path, path ∈ gc.dead ∨ path ∈ paths → ∀ other,
        Behind run.setup run.db path other → other ∈ gc.dead ∨ other ∈ paths)
      (ordered : paths.Pairwise fun earlier later =>
        ¬run.setup.tables.Refers gc.db.valid later earlier)
      (decided : Decided run past gc.dead fun path => path ∈ paths) :
      InPhase run past gc (.deleting paths)
  | releasing (closed : DeadClosed run gc.dead)
      (decided : Decided run past gc.dead fun _ => False) : InPhase run past gc (.releasing none)
  | finished (ended : gc.entries = []) (closed : DeadClosed run gc.dead)
      (decided : Decided run past gc.dead fun _ => False) : InPhase run past gc (.finished none)

def Invariant (run : Collection) (state : GcState run.setup.tables) : Prop :=
  ∃ past, Sound run past state ∧ InPhase run past state.2 state.2.phase

variable {state : GcState run.setup.tables}

open InPhase

theorem Invariant.in_phase {phase : Phase} (invariant : Invariant run state)
    (isPhase : state.2.phase = phase) :
    ∃ past, Sound run past state ∧ InPhase run past state.2 phase := by
  rwa [← isPhase]

theorem invariant_begin : Invariant run (begin run.setup run.roots run.db run.names) := by
  refine ⟨[], ⟨rfl, rfl, ?_, nofun, nofun, nofun, nofun, rfl, ?_⟩, ?_⟩
  · intro path
    exact (and_iff_left (Finset.notMem_empty path)).symm
  · intro name
    apply iff_of_false not_mem_nil
    rintro (⟨path, isDead, _⟩ | ⟨inPast, _⟩)
    · exact Finset.notMem_empty path isDead
    · cases inPast
  · refine scanning ?_ ?_
    · intro path isDead
      exact absurd isDead (Finset.notMem_empty path)
    · rintro path ⟨name, inPast, _⟩
      cases inPast

variable {gc : Collector run.setup.tables} {past : List Bytes} {shared : Shared}

theorem Sound.at_phase (sound : Sound run past (shared, gc)) (pending : Option Bytes)
    (phase : Phase) :
    Sound run past ({ shared with pending := pending }, { gc with phase := phase }) :=
  { sound with }

theorem Sound.fewer (sound : Sound run past (shared, gc)) : gc.db.valid ⊆ run.db.valid :=
  fun path member => ((sound.valid path).mp member).1

variable {alive : Finset StorePath}

variable {dead : Finset StorePath} {name : Bytes}

theorem Decided.snoc {open_ more : StorePath → Prop} (decided : Decided run past dead open_)
    (weaker : ∀ path, open_ path → more path)
    (last : ∀ path, isSkipped name = false → entryPath run.setup.tables.store name = some path →
      more path) : Decided run (past ++ [name]) dead more := by
  rintro path ⟨other, inPast, notSkipped, parsed⟩
  rcases mem_append.mp inPast with earlier | isLast
  · exact (decided path ⟨other, earlier, notSkipped, parsed⟩).imp_right (Or.imp_right (weaker path))
  · rw [mem_singleton.mp isLast] at notSkipped parsed
    exact .inr (.inr (last path notSkipped parsed))

variable {removed : List Bytes}

theorem removed_snoc (before : ∀ other, other ∈ removed ↔
      (∃ path ∈ dead, path.baseName = other) ∨ other ∈ past ∧ IsStray run.setup other)
    (kept : ¬IsStray run.setup name) (other : Bytes) :
    other ∈ removed ↔ (∃ path ∈ dead, path.baseName = other) ∨
      other ∈ past ++ [name] ∧ IsStray run.setup other := by
  have notLast : ¬(other = name ∧ IsStray run.setup other) := by
    rintro ⟨rfl, isStray⟩
    exact kept isStray
  rw [before, mem_append, mem_singleton, or_and_right, or_iff_left notLast]

variable {rest : List Bytes}

theorem names_snoc (names : run.names = past ++ gc.entries)
    (entries : gc.entries = name :: rest) : run.names = past ++ [name] ++ rest := by
  rw [names, entries, append_assoc]
  rfl

section

variable (phase : gc.phase = .scanning) (entries : gc.entries = name :: rest)

include phase entries

theorem invariant_skip (passed : isSkipped name = true ∨
      entryPath run.setup.tables.store name = none ∧ isLocked run.setup name = true)
    (invariant : Invariant run (shared, gc)) :
    Invariant run (shared, { gc with entries := rest }) := by
  obtain ⟨past, sound, closed, decided⟩ := invariant.in_phase phase
  have kept : ¬IsStray run.setup name := by
    rintro ⟨notSkipped, _, free⟩
    rcases passed with skipped | ⟨_, locked⟩
    · cases notSkipped.symm.trans skipped
    · cases free.symm.trans locked
  refine ⟨past ++ [name], { sound with
    names := names_snoc sound.names entries, removed := removed_snoc sound.removed kept }, ?_⟩
  rw [phase]
  refine scanning closed (decided.snoc (fun _ => id) ?_)
  intro path notSkipped parsed
  rcases passed with skipped | ⟨other, _⟩
  · cases notSkipped.symm.trans skipped
  · cases parsed.symm.trans other

theorem invariant_remove (isStray : IsStray run.setup name) (invariant : Invariant run (shared, gc)) :
    Invariant run (shared, { gc with entries := rest, removed := name :: gc.removed }) := by
  obtain ⟨past, sound, closed, decided⟩ := invariant.in_phase phase
  refine ⟨past ++ [name], { sound with names := names_snoc sound.names entries, removed := ?_ }, ?_⟩
  · intro other
    have last : other = name ∧ IsStray run.setup other ↔ other = name := by
      apply and_iff_left_of_imp
      rintro rfl
      exact isStray
    rw [mem_cons, sound.removed, mem_append, mem_singleton, or_and_right, last, or_comm, or_assoc]
  · change InPhase run (past ++ [name])
      { gc with entries := rest, removed := name :: gc.removed } gc.phase
    rw [phase]
    refine scanning closed (decided.snoc (fun _ => id) ?_)
    intro path _ parsed
    cases isStray.2.1.symm.trans parsed

theorem invariant_enter (notSkipped : isSkipped name = false)
    (parsed : entryPath run.setup.tables.store name = some path)
    (invariant : Invariant run (shared, gc)) : Invariant run
      (shared, { gc with entries := rest, phase := .visiting path (single path) }) := by
  obtain ⟨past, sound, closed, decided⟩ := invariant.in_phase phase
  have kept : ¬IsStray run.setup name := by
    rintro ⟨_, other, _⟩
    cases parsed.symm.trans other
  have names := names_snoc sound.names entries
  refine ⟨past ++ [name], { sound with names, removed := removed_snoc sound.removed kept }, ?_⟩
  refine visiting ⟨closed, ?_, ?_, mem_single.mpr rfl, ?_⟩ ?_
  · refine decided.snoc (fun _ => False.elim) ?_
    intro other _ otherParsed
    exact Option.some.inj (otherParsed.symm.trans parsed)
  · refine ⟨name, ?_, notSkipped, parsed⟩
    rw [names]
    exact mem_append_left _ (mem_append_right _ (mem_singleton_self name))
  · intro other member
    rw [mem_single.mp member]
    exact ReflTransGen.refl
  · intro other done
    exact absurd done (not_done_single path other)

end

/-- What makes the search of a collector right: what depends on a path now is what
depended on it at the start, and a root that is met leads only to live paths. -/
structure Grounded (run : Collection) (db : Database run.setup.tables) (start : StorePath) :
    Prop where
  behind : ∀ path other, Behind run.setup db path other → NeededBy run path other
  kept : ∀ path, IsRoot run.roots path → NeededBy run start path → ∀ other,
    ReflTransGen (Leads db run.setup.keepOutputs run.setup.keepDerivations) path other →
      Live run other

theorem Decided.close {more : Finset StorePath} {open_ : StorePath → Prop}
    (decided : Decided run past dead open_) (grown : dead ⊆ more)
    (closes : ∀ path, open_ path → Live run path ∨ path ∈ more) :
    Decided run past more fun _ => False := by
  intro path entry
  rcases decided path entry with live | isDead | isOpen
  · exact .inl live
  · exact .inr (.inl (grown isDead))
  · exact (closes path isOpen).imp_right .inl

variable {work : Worklist StorePath} {more : Worklist StorePath}

theorem Searched.mono (searched : Searched run dead work path) (grown : work.visited ⊆ more.visited) :
    Searched run dead more path := by
  rcases searched with isDead | ⟨notRoot, found⟩
  · exact .inl isDead
  · refine .inr ⟨notRoot, ?_⟩
    intro other behind
    exact (found other behind).imp_left fun member => grown member

variable {start : StorePath} {rest : Worklist StorePath}

theorem Searching.popped (searching : Searching run past dead start work)
    (popped : work.pop = some (path, rest)) : Searching run past dead start rest := by
  have visited := (pop_some popped).2
  refine ⟨searching.closed, searching.decided, searching.entry, ?_, ?_⟩
  · rw [visited]
    exact searching.started
  · intro other member
    rw [visited] at member
    exact searching.met other member

theorem invariant_bail (sound : Sound run past (shared, gc))
    (searching : Searching run past gc.dead start work) (live : Live run start)
    (marked : ∀ path ∈ alive, Live run path) :
    Invariant run (shared, { gc with alive := alive, phase := .releasing none }) := by
  refine ⟨past, { sound with alive := marked }, releasing searching.closed ?_⟩
  apply searching.decided.close (subset_rfl)
  intro path same
  rw [same]
  exact .inl live

section

variable (phase : gc.phase = .visiting start work) (popped : work.pop = some (path, rest))

include phase popped

theorem invariant_known (isAlive : path ∈ gc.alive)
    (invariant : Invariant run (shared, gc)) : Invariant run
      (shared, { gc with alive := insert start gc.alive, phase := .releasing none }) := by
  obtain ⟨past, sound, _ | ⟨searching, searched⟩⟩ := invariant.in_phase phase
  have live : Live run start :=
    live_of_needed (searching.met path (pop_mem popped)) (sound.alive path isAlive)
  apply invariant_bail sound searching live
  intro other member
  rcases Finset.mem_insert.mp member with same | old
  · rwa [same]
  · exact sound.alive other old

theorem invariant_keep (isRoot : path ∈ run.roots.all ∨ path.hashPart ∈ shared.tempRoots)
    (marked : ∀ other, other ∈ alive ↔ other ∈ gc.alive ∨ other = start ∨ ReflTransGen
        (Leads gc.db run.setup.keepOutputs run.setup.keepDerivations) path other)
    (invariant : Invariant run (shared, gc)) (grounded : Grounded run gc.db start) :
    Invariant run (shared, { gc with alive := alive, phase := .releasing none }) := by
  obtain ⟨past, sound, _ | ⟨searching, searched⟩⟩ := invariant.in_phase phase
  have needed := searching.met path (pop_mem popped)
  have root : IsRoot run.roots path := by
    rw [sound.temporary] at isRoot
    exact is_root_iff.mp isRoot
  have live : Live run start := ⟨path, root, needed⟩
  apply invariant_bail sound searching live
  intro other member
  rcases (marked other).mp member with old | same | leads
  · exact sound.alive other old
  · rwa [same]
  · exact grounded.kept path root needed other leads

theorem invariant_gone (isDead : path ∈ gc.dead) (invariant : Invariant run (shared, gc)) :
    Invariant run (shared, { gc with phase := .visiting start rest }) := by
  obtain ⟨past, sound, _ | ⟨searching, searched⟩⟩ := invariant.in_phase phase
  refine ⟨past, sound.at_phase _ _, visiting (searching.popped popped) ?_⟩
  intro other done
  rcases (pop_done popped).mp done with same | earlier
  · rw [same]
    exact .inl isDead
  · exact (searched other earlier).mono (pop_some popped).2.ge

theorem invariant_check (notDead : path ∉ gc.dead) (notRoot : path ∉ run.roots.all)
    (notTemporary : path.hashPart ∉ shared.tempRoots) (invariant : Invariant run (shared, gc)) :
    Invariant run ({ shared with pending := some path.hashPart },
      { gc with phase := .expanding start path rest }) := by
  obtain ⟨past, sound, _ | ⟨searching, searched⟩⟩ := invariant.in_phase phase
  have visited := (pop_some popped).2
  refine ⟨past, sound.at_phase _ _, expanding (searching.popped popped) ?_ notDead ?_ ?_⟩
  · rw [visited]
    exact pop_mem popped
  · intro isRoot
    have found := is_root_iff.mpr isRoot
    rw [← sound.temporary] at found
    exact found.elim notRoot notTemporary
  · intro other done
    rcases (pop_done popped).mp done with same | earlier
    · exact .inl same
    · exact .inr ((searched other earlier).mono visited.ge)

end

theorem invariant_visited {cache : StorePath → Option (Finset StorePath)}
    (sound : Sound run past (shared, { gc with referrersCache := cache }))
    (searching : Searching run past gc.dead start work) (notRoot : ¬IsRoot run.roots path)
    (searched : ∀ other, work.Done other → other = path ∨ Searched run gc.dead work other)
    (grown : work.visited ⊆ more.visited)
    (met : ∀ other ∈ more.visited, other ∈ work.visited ∨ NeededBy run start other)
    (done : ∀ other, more.Done other ↔ work.Done other)
    (found : ∀ other, Behind run.setup run.db path other → other ∈ more.visited ∨ other ∈ gc.dead) :
    Invariant run (shared, { gc with referrersCache := cache, phase := .visiting start more }) := by
  refine ⟨past, sound.at_phase _ _, visiting ⟨searching.closed, searching.decided,
    searching.entry, grown searching.started, ?_⟩ ?_⟩
  · intro other member
    rcases met other member with earlier | needed
    · exact searching.met other earlier
    · exact needed
  · intro other isDone
    rcases searched other ((done other).mp isDone) with same | earlier
    · rw [same]
      exact .inr ⟨notRoot, found⟩
    · exact earlier.mono grown

theorem invariant_pass (phase : gc.phase = .expanding start path work)
    (invalid : path ∉ gc.db.valid) (invariant : Invariant run (shared, gc)) :
    Invariant run (shared, { gc with phase := .visiting start work }) := by
  obtain ⟨past, sound, inPhase⟩ := invariant.in_phase phase
  cases inPhase with
  | expanding searching member notDead notRoot searched =>
    apply invariant_visited sound searching notRoot searched (subset_rfl)
      (fun _ => .inl) (fun _ => Iff.rfl)
    intro other behind
    exact absurd ((sound.valid path).mpr ⟨behind.1, notDead⟩) invalid

section

variable (sound : Sound run past (shared, gc))

include sound

theorem referrers_of_sound (path : StorePath) :
    (∀ other, run.setup.tables.Refers gc.db.valid other path → other ∈ referrersOf gc path) ∧
      ∀ other ∈ referrersOf gc path, run.setup.tables.Refers run.db.valid other path := by
  rw [referrersOf]
  cases cached : gc.referrersCache path with
  | some referrers => exact ⟨sound.cacheHas path referrers cached, sound.cacheOnly path referrers cached⟩
  | none =>
    constructor
    · intro other refers
      exact (mem_query_referrers gc.db).mpr refers
    · intro other member
      have refers := (mem_query_referrers gc.db).mp member
      exact ⟨((sound.valid other).mp refers.1).1, refers.2⟩

theorem Sound.with_cache (path : StorePath) : Sound run past (shared, { gc with
      referrersCache := Function.update gc.referrersCache path (some (referrersOf gc path)) }) := by
  obtain ⟨has, only⟩ := referrers_of_sound sound path
  exact { sound with
    cacheHas := update_shaped sound.cacheHas fun _ cached => Option.some.inj cached ▸ has
    cacheOnly := update_shaped sound.cacheOnly fun _ cached => Option.some.inj cached ▸ only }

theorem behind_kept (behind : Behind run.setup run.db path other) (notDead : other ∉ gc.dead) :
    run.setup.tables.Refers gc.db.valid other path ∨ Keeps run.setup gc.db path other := by
  have fewer := sound.fewer
  obtain ⟨_, refers | ⟨kept, isDerivation, isOutput, derived⟩ | ⟨kept, isDeriver⟩⟩ := behind
  · exact .inl ⟨(sound.valid other).mpr ⟨refers.1, notDead⟩, refers.2⟩
  · have valid := (sound.valid other).mpr ⟨isOutput.1, notDead⟩
    exact .inr (.inl ⟨kept, isDerivation, is_output_kept fewer isOutput valid, derived⟩)
  · obtain ⟨valid, listed⟩ := Finset.mem_filter.mp isDeriver
    exact .inr (.inr ⟨kept,
      Finset.mem_filter.mpr ⟨(sound.valid other).mpr ⟨valid, notDead⟩, listed⟩⟩)

end

variable {paths : List StorePath}

theorem invariant_expand (phase : gc.phase = .expanding start path work)
    (valid : path ∈ gc.db.valid)
    (next : ∀ other, other ∈ paths ↔ other ∈ referrersOf gc path ∨ Keeps run.setup gc.db path other)
    (invariant : Invariant run (shared, gc)) (grounded : Grounded run gc.db start) :
    Invariant run (shared, { gc with
      referrersCache := Function.update gc.referrersCache path (some (referrersOf gc path))
      phase := .visiting start (work.enqueueAll paths) }) := by
  obtain ⟨past, sound, inPhase⟩ := invariant.in_phase phase
  cases inPhase with
  | expanding searching member notDead notRoot searched =>
    have referrers := referrers_of_sound sound path
    apply invariant_visited (sound.with_cache path) searching notRoot searched
    · intro other earlier
      exact mem_enqueue_all.mpr (Or.inr earlier)
    · intro other isMet
      rcases mem_enqueue_all.mp isMet with isNext | earlier
      · apply Or.inr
        apply (searching.met path member).trans
        rcases (next other).mp isNext with isReferrer | isKept
        · exact ReflTransGen.single
            ⟨((sound.valid path).mp valid).1, Or.inl (referrers.2 other isReferrer)⟩
        · exact grounded.behind path other ⟨valid, Or.inr isKept⟩
      · exact Or.inl earlier
    · intro other
      exact done_enqueue_all
    · intro other behind
      by_cases isDead : other ∈ gc.dead
      · exact Or.inr isDead
      apply Or.inl
      apply mem_enqueue_all.mpr
      apply Or.inl
      apply (next other).mpr
      rcases behind_kept sound behind isDead with refers | isKept
      · exact Or.inl (referrers.1 other refers)
      · exact Or.inr isKept

theorem searched_not_live (sound : Sound run past (shared, gc))
    (searched : ∀ path ∈ work.visited, Searched run gc.dead work path)
    (started : start ∈ work.visited) : ¬Live run start := by
  rintro ⟨root, isRoot, needed⟩
  have notDead : ∀ path, NeededBy run path root → path ∉ gc.dead := by
    intro path further isDead
    exact garbage_not_live (sound.dead path isDead) ⟨root, isRoot, further⟩
  induction needed using ReflTransGen.head_induction_on with
  | refl =>
    rcases searched root started with isDead | ⟨notRoot, _⟩
    · exact notDead root ReflTransGen.refl isDead
    · exact notRoot isRoot
  | head behind further ih =>
    rcases searched _ started with isDead | ⟨_, found⟩
    · exact notDead _ (ReflTransGen.head behind further) isDead
    · rcases found _ behind with member | isDead
      · exact ih member
      · exact notDead _ further isDead

theorem invariant_sort (phase : gc.phase = .visiting start work) (ended : work.pop = none)
    (sorted : ReferrersFirst gc.db work.visited paths) (invariant : Invariant run (shared, gc)) :
    Invariant run (shared, { gc with phase := .deleting paths }) := by
  obtain ⟨past, sound, _ | ⟨searching, searched⟩⟩ := invariant.in_phase phase
  have all : ∀ path ∈ work.visited, Searched run gc.dead work path := fun path member =>
    searched path ((pop_none_done ended).mpr member)
  have notLive := searched_not_live sound all searching.started
  refine ⟨past, sound.at_phase _ _, deleting ?_ ?_ sorted.ordered ?_⟩
  · intro path member
    exact ⟨start, searching.entry, notLive, searching.met path ((sorted.mem path).mp member)⟩
  · intro path member other behind
    rcases member with isDead | listed
    · exact .inl (searching.closed path isDead other behind)
    rcases all path ((sorted.mem path).mp listed) with isDead | ⟨_, found⟩
    · exact .inl (searching.closed path isDead other behind)
    · rcases found other behind with isMet | isDead
      · exact .inr ((sorted.mem other).mpr isMet)
      · exact .inl isDead
  · intro path entry
    rcases searching.decided path entry with live | isDead | same
    · exact .inl live
    · exact .inr (.inl isDead)
    · rw [same]
      exact .inr (.inr ((sorted.mem start).mpr searching.started))

/-- Whoever refers to the first of the sorted paths has been deleted before it. -/
theorem first_unused (sound : Sound run past (shared, gc))
    (closed : ∀ other, other ∈ gc.dead ∨ other ∈ path :: paths → ∀ next,
      Behind run.setup run.db other next → next ∈ gc.dead ∨ next ∈ path :: paths)
    (ordered : (path :: paths).Pairwise fun earlier later =>
      ¬run.setup.tables.Refers gc.db.valid later earlier) (referrer : StorePath)
    (refers : run.setup.tables.Refers gc.db.valid referrer path) : referrer = path := by
  have valid := (sound.valid path).mp (gc.db.closed referrer refers.1 refers.2)
  have referrerValid := (sound.valid referrer).mp refers.1
  have behind : Behind run.setup run.db path referrer :=
    ⟨valid.1, .inl ⟨referrerValid.1, refers.2⟩⟩
  rcases closed path (.inr mem_cons_self) referrer behind with isDead | listed
  · exact absurd isDead referrerValid.2
  · rcases mem_cons.mp listed with same | later
    · exact same
    · exact absurd refers ((pairwise_cons.mp ordered).1 referrer later)

section

variable (phase : gc.phase = .deleting (path :: paths))

include phase

theorem invariant_again (isDead : path ∈ gc.dead) (invariant : Invariant run (shared, gc)) :
    Invariant run (shared, { gc with phase := .deleting paths }) := by
  obtain ⟨past, sound, inPhase⟩ := invariant.in_phase phase
  have shorter : ∀ other, other ∈ gc.dead ∨ other ∈ path :: paths →
      other ∈ gc.dead ∨ other ∈ paths := by
    intro other either
    rcases either with dead | listed
    · exact .inl dead
    rcases mem_cons.mp listed with same | later
    · rw [same]
      exact .inl isDead
    · exact .inr later
  cases inPhase with
  | deleting garbage closed ordered decided =>
    refine ⟨past, sound.at_phase _ _, deleting ?_ ?_ (pairwise_cons.mp ordered).2 ?_⟩
    · intro other later
      exact garbage other (mem_cons_of_mem path later)
    · intro other member next behind
      exact shorter next (closed other (member.imp id (mem_cons_of_mem path)) next behind)
    · intro other entry
      exact (decided other entry).imp id (shorter other)

theorem invariant_delete {db : Database run.setup.tables}
    (invalidated : invalidatePathChecked gc.db path = .ok db)
    (invariant : Invariant run (shared, gc)) : Invariant run (shared, { gc with
      dead := insert path gc.dead
      db := db
      referrersCache := Function.update gc.referrersCache path none
      removed := path.baseName :: gc.removed
      phase := .deleting paths }) := by
  obtain ⟨past, sound, inPhase⟩ := invariant.in_phase phase
  have moved : ∀ other, other ∈ gc.dead ∨ other ∈ path :: paths ↔
      other ∈ insert path gc.dead ∨ other ∈ paths := by
    intro other
    rw [mem_cons, Finset.mem_insert, or_left_comm, or_assoc]
  cases inPhase with
  | deleting garbage closed ordered decided =>
    obtain ⟨after, sameResult, valid⟩ := invalidate_unused (first_unused sound closed ordered)
    rw [invalidated] at sameResult
    cases sameResult
    have fewer : ∀ other next, run.setup.tables.Refers db.valid other next →
        run.setup.tables.Refers gc.db.valid other next := by
      intro other next refers
      rw [valid] at refers
      exact ⟨Finset.mem_of_mem_erase refers.1, refers.2⟩
    refine ⟨past, ⟨sound.names, sound.temporary, ?_, ?_, sound.alive, ?_,
      update_shaped sound.cacheOnly nofun, sound.inUse, ?_⟩, deleting ?_ ?_ ?_ ?_⟩
    · intro other
      rw [valid, Finset.mem_erase, sound.valid, Finset.mem_insert, not_or, and_left_comm]
    · intro other member
      rcases Finset.mem_insert.mp member with same | earlier
      · rw [same]
        exact garbage path mem_cons_self
      · exact sound.dead other earlier
    · refine update_shaped (fun key cached known other refers => ?_) nofun
      exact sound.cacheHas key cached known other (fewer other key refers)
    · intro name
      rw [mem_cons, sound.removed, ← or_assoc]
      rw [Finset.exists_mem_insert, eq_comm]
    · intro other later
      exact garbage other (mem_cons_of_mem path later)
    · intro other member next behind
      exact (moved next).mp (closed other ((moved other).mpr member) next behind)
    · apply (pairwise_cons.mp ordered).2.imp
      intro earlier later notRefers refers
      exact notRefers (fewer later earlier refers)
    · intro other entry
      exact (decided other entry).imp id (moved other).mp

theorem not_bug {failure : Failure} (refused : invalidatePathChecked gc.db path = .error failure) :
    ¬Invariant run (shared, gc) := by
  rintro ⟨past, sound, inPhase⟩
  rw [phase] at inPhase
  cases inPhase with
  | deleting garbage closed ordered decided =>
    obtain ⟨after, invalidated, _⟩ := invalidate_unused (first_unused sound closed ordered)
    rw [refused] at invalidated
    cases invalidated

end

/-- A step keeps the invariant, where the search is right. -/
theorem invariant_transition {state next : GcState run.setup.tables}
    (transition : Transition run.setup run.roots state next) (invariant : Invariant run state)
    (grounded : ∀ start work, (state.2.phase = .visiting start work ∨
      ∃ path, state.2.phase = .expanding start path work) → Grounded run state.2.db start) :
    Invariant run next := by
  cases transition with
  | finish phase ended =>
    obtain ⟨past, sound, closed, decided⟩ := invariant.in_phase phase
    exact ⟨past, sound.at_phase _ _, finished ended closed decided⟩
  | skip phase entries passed => exact invariant_skip phase entries passed invariant
  | remove phase entries notSkipped other free =>
    exact invariant_remove phase entries ⟨notSkipped, other, free⟩ invariant
  | enter phase entries notSkipped parsed =>
    exact invariant_enter phase entries notSkipped parsed invariant
  | sort phase ended sorted => exact invariant_sort phase ended sorted invariant
  | known phase popped isAlive => exact invariant_known phase popped isAlive invariant
  | gone phase popped notAlive isDead => exact invariant_gone phase popped isDead invariant
  | keep phase popped notAlive notDead isRoot marked =>
    exact invariant_keep phase popped isRoot marked invariant (grounded _ _ (.inl phase))
  | check phase popped notAlive notDead notRoot notTemporary =>
    exact invariant_check phase popped notDead notRoot notTemporary invariant
  | expand phase valid next =>
    exact invariant_expand phase valid next invariant (grounded _ _ (.inr ⟨_, phase⟩))
  | pass phase invalid => exact invariant_pass phase invalid invariant
  | again phase isDead => exact invariant_again phase isDead invariant
  | delete phase notDead invalidated => exact invariant_delete phase invalidated invariant
  | bug phase notDead refused => exact absurd invariant (not_bug phase refused)
  | ended phase =>
    obtain ⟨past, sound, inPhase⟩ := invariant.in_phase phase
    cases inPhase with
    | deleting garbage closed ordered decided =>
      refine ⟨past, sound.at_phase _ _, releasing ?_ ?_⟩
      · intro path isDead other behind
        exact (closed path (.inl isDead) other behind).resolve_right not_mem_nil
      · exact decided.close (subset_rfl) nofun
  | release phase =>
    obtain ⟨past, sound, inPhase⟩ := invariant.in_phase phase
    cases inPhase with
    | releasing closed decided => exact ⟨past, sound.at_phase _ _, scanning closed decided⟩

/-- What the closure of a path leads to, leads back to it against the edges along which
the collector searches. -/
def LeadsBack (setup : Setup) (db : Database setup.tables) : Prop :=
  ∀ path dep, Leads db setup.keepOutputs setup.keepDerivations path dep →
    ReflTransGen (Behind setup db) dep path

theorem dead_of_needed (closed : DeadClosed run dead) (needed : NeededBy run path other)
    (isDead : path ∈ dead) : other ∈ dead := by
  induction needed with
  | refl => exact isDead
  | tail earlier behind ih => exact closed _ ih _ behind

section

variable (back : LeadsBack run.setup run.db)

include back

section

variable (sound : Sound run past (shared, gc)) (closed : DeadClosed run gc.dead)

include sound closed

theorem leads_back_now
    {dep : StorePath} (leads : Leads gc.db run.setup.keepOutputs run.setup.keepDerivations path dep) :
    NeededBy run dep path := by
  have fewer := sound.fewer
  obtain ⟨valid, isReference | ⟨kept, isDerivation, isOutput⟩ | ⟨kept, derived, isValid⟩⟩ := leads
  · exact back path dep ⟨fewer valid, .inl isReference⟩
  · rcases is_output_new fewer isOutput with old | ⟨replaced, wasOutput, gone⟩
    · exact back path dep ⟨fewer valid, .inr (.inl ⟨kept, isDerivation, old⟩)⟩
    -- The derivation would have been deleted with the output that was replaced.
    have needed := back path replaced
      ⟨fewer valid, .inr (.inl ⟨kept, isDerivation, wasOutput⟩)⟩
    have isDead : replaced ∈ gc.dead :=
      not_not.mp fun notDead => gone ((sound.valid replaced).mpr ⟨wasOutput.1, notDead⟩)
    exact absurd (dead_of_needed closed needed isDead) ((sound.valid path).mp valid).2
  · exact back path dep ⟨fewer valid, .inr (.inr ⟨kept, derived, fewer isValid⟩)⟩

theorem grounded_of_back (start : StorePath) : Grounded run gc.db start := by
  have fewer := sound.fewer
  constructor
  · intro path other behind
    obtain ⟨valid, refers | ⟨kept, isDerivation, isOutput, derived⟩ | ⟨kept, isDeriver⟩⟩ := behind
    · exact ReflTransGen.single ⟨fewer valid, .inl ⟨fewer refers.1, refers.2⟩⟩
    · rcases is_output_new fewer isOutput with old | _
      · exact ReflTransGen.single
          ⟨fewer valid, .inr (.inl ⟨kept, isDerivation, old, derived⟩)⟩
      · exact back other path
          ⟨fewer isOutput.1, .inr (.inr ⟨kept, derived, fewer valid⟩)⟩
    · obtain ⟨isValid, listed⟩ := Finset.mem_filter.mp isDeriver
      exact ReflTransGen.single ⟨fewer valid,
        .inr (.inr ⟨kept, Finset.mem_filter.mpr ⟨fewer isValid, listed⟩⟩)⟩
  · intro path isRoot _ other leads
    refine ⟨path, isRoot, ?_⟩
    induction leads with
    | refl => exact ReflTransGen.refl
    | tail _ last ih => exact (leads_back_now back sound closed last).trans ih

end

/-- Where what is kept alive leads back, the invariant holds all along. -/
theorem invariant_reached (reached : run.Reaches state) : Invariant run state := by
  refine (reaches_invariant (Invariant run) invariant_begin ?_ reached).1
  intro before next transition invariant
  apply invariant_transition transition invariant
  obtain ⟨past, sound, inPhase⟩ := invariant
  rintro start work (phase | ⟨path, phase⟩)
  · rw [phase] at inPhase
    cases inPhase with
    | visiting searching searched => exact grounded_of_back back sound searching.closed start
  · rw [phase] at inPhase
    cases inPhase with
    | expanding searching _ _ _ _ => exact grounded_of_back back sound searching.closed start

end

/-- A collection returns. What it has deleted is the garbage and the stray names. -/
theorem ends_with_garbage (run : Collection) (back : LeadsBack run.setup run.db) :
    ∃ final, run.Ends final none ∧ ∀ name, name ∈ final.removed ↔
      (∃ path, Garbage run path ∧ path.baseName = name) ∨
        name ∈ run.names ∧ IsStray run.setup name := by
  obtain ⟨final, shared, reached, finished⟩ := collection_ends run
  refine ⟨final, ⟨shared, reached, finished⟩, ?_⟩
  obtain ⟨past, sound, inPhase⟩ := invariant_reached back reached
  rw [finished] at inPhase
  cases inPhase with
  | finished ended closed decided =>
    have all : run.names = past := by
      rw [sound.names, ended, append_nil]
    have isDead : ∀ path, path ∈ final.dead ↔ Garbage run path := by
      intro path
      constructor
      · exact sound.dead path
      rintro ⟨start, entry, notLive, needed⟩
      rw [all] at entry
      rcases decided start entry with live | startDead | nothing
      · exact absurd live notLive
      · exact dead_of_needed closed needed startDead
      · exact nothing.elim
    intro name
    rw [sound.removed, all]
    apply or_congr_left
    apply exists_congr
    intro path
    rw [isDead]

theorem entry_path_base_name {store : StoreDirConfig} (parsed : entryPath store name = some path) :
    entryPath store path.baseName = some path := by
  rw [entryPath, maybeParseStorePath] at parsed
  have plain : path.separator ≠ 47 := by
    split at parsed
    next result =>
      cases parsed
      exact parse_separator result
    · cases parsed
  have printed := parse_print_store_path store path plain
  rw [printStorePath] at printed
  rw [entryPath, maybeParseStorePath, printed]

end Bsd.Store.CollectionInvariant
