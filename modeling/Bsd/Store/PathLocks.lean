import Bsd.Lib.Machines

/-!
# Path locks

Any number of processes lock one path and unlock it again. The lock is an exclusive
`flock` on the file `path + ".lock"`, which may be deleted with the lock and created
again while others still wait on the old inode. The steps are the system calls.
-/

namespace Bsd.Store.PathLocks

open Lib.Machines Function

/-- The inode under the name of the lock file, if there is one, and the inodes there have
been, numbered in the order in which they are created. -/
structure Files where
  name : Option Nat
  created : Nat
  size : Nat → Nat
  /-- The process whose descriptor has the exclusive lock. -/
  locks : Nat → Option Nat

inductive Place where
  | outside
  /-- Before `openLockFile`, without a descriptor. -/
  | opening
  /-- Before the call of `flock` that does not block. -/
  | opened (inode : Nat)
  /-- In the call of `flock` that blocks. -/
  | waiting (inode : Nat)
  /-- Before `fstat`. -/
  | locked (inode : Nat)
  /-- Before `openLockFile`, with a descriptor that has become stale. -/
  | stale (inode : Nat)
  /-- The stale descriptor has been replaced and is to be closed. -/
  | reopened (old inode : Nat)
  /-- `lockPaths` has returned `true`. -/
  | inside (inode : Nat)
  /-- In `deleteLockFile`, before `unlink`. -/
  | deleting (inode : Nat)
  /-- In `deleteLockFile`, before `writeFull`. -/
  | unlinked (inode : Nat)
  /-- Before `close`. -/
  | closing (inode : Nat)

structure World where
  files : Files
  places : Nat → Place
  /-- The last argument of `lockPaths`. -/
  wait : Nat → Bool
  deletePaths : Nat → Bool

/-- A signal that interrupts `flock`: `checkInterrupt` throws or it does not. -/
inductive Signal where
  | throwing
  | harmless
  deriving DecidableEq

inductive Event where
  | lockPaths (process : Nat) (wait : Bool)
  | setDeletion (process : Nat) (deletePaths : Bool)
  | unlock (process : Nat)
  /-- The system call at which the process is. -/
  | call (process : Nat) (signal : Option Signal)

def openLockFile (files : Files) : Files × Nat :=
  match files.name with
  | some inode => (files, inode)
  | none =>
    ({ files with
        name := some files.created
        created := files.created + 1
        size := Function.update files.size files.created 0 }, files.created)

def flock (files : Files) (process inode : Nat) : Files :=
  { files with locks := Function.update files.locks inode (some process) }

def unlink (files : Files) : Files := { files with name := none }

def writeToken (files : Files) (inode : Nat) : Files :=
  { files with size := Function.update files.size inode (files.size inode + 1) }

def close (files : Files) (process inode : Nat) : Files :=
  if files.locks inode = some process then
    { files with locks := Function.update files.locks inode none }
  else files

def moves (world : World) (process : Nat) (files : Files) (place : Place) : World :=
  { world with files := files, places := Function.update world.places process place }

/-- `lockFile` without blocking, and what `lockPaths` does when it fails. -/
def tryLock (world : World) (process inode : Nat) : Option Signal → World
  | some .throwing => moves world process (close world.files process inode) .outside
  | some .harmless => world
  | none =>
    if world.files.locks inode = none then
      moves world process (flock world.files process inode) (.locked inode)
    else if world.wait process then moves world process world.files (.waiting inode)
    else moves world process (close world.files process inode) .outside

/-- `lockFile` with blocking. After a signal it returns `false`, which `lockPaths` does not
look at. -/
def waitForLock (world : World) (process inode : Nat) : Option Signal → World
  | some .throwing => moves world process (close world.files process inode) .outside
  | some .harmless => moves world process world.files (.locked inode)
  | none =>
    if world.files.locks inode = none then
      moves world process (flock world.files process inode) (.locked inode)
    else world

def systemCall (world : World) (process : Nat) (signal : Option Signal) : World :=
  match world.places process with
  | .outside => world
  | .opening =>
    let opened := openLockFile world.files
    moves world process opened.1 (.opened opened.2)
  | .opened inode => tryLock world process inode signal
  | .waiting inode => waitForLock world process inode signal
  | .locked inode =>
    if world.files.size inode ≠ 0 then moves world process world.files (.stale inode)
    else moves world process world.files (.inside inode)
  | .stale old =>
    let opened := openLockFile world.files
    moves world process opened.1 (.reopened old opened.2)
  | .reopened old inode => moves world process (close world.files process old) (.opened inode)
  | .inside _ => world
  | .deleting inode => moves world process (unlink world.files) (.unlinked inode)
  | .unlinked inode => moves world process (writeToken world.files inode) (.closing inode)
  | .closing inode => moves world process (close world.files process inode) .outside

def act (world : World) : Event → World
  | .lockPaths process wait =>
    match world.places process with
    | .outside =>
      { moves world process world.files .opening with
        wait := Function.update world.wait process wait }
    | _ => world
  | .setDeletion process deletePaths =>
    { world with deletePaths := Function.update world.deletePaths process deletePaths }
  | .unlock process =>
    match world.places process with
    | .inside inode =>
      moves world process world.files
        (if world.deletePaths process then .deleting inode else .closing inode)
    | _ => world
  | .call process signal => systemCall world process signal

/-- No process is in `lockPaths`. A lock file of some size may have been left behind. -/
def initial (leftover : Option Nat) : World where
  files :=
    { name := leftover.map fun _ => 0
      created := 1
      size := fun _ => leftover.getD 0
      locks := fun _ => none }
  places := fun _ => .outside
  wait := fun _ => true
  deletePaths := fun _ => false

def Exclusive (world : World) : Prop :=
  ∀ left right leftInode rightInode, world.places left = .inside leftInode →
    world.places right = .inside rightInode → left = right

/-- The step is not the end of a blocking `flock` by a signal that throws nothing. -/
def Uninterrupted (world : World) : Event → Prop
  | .call process (some .harmless) => ∀ inode, world.places process ≠ .waiting inode
  | _ => True

inductive Place.Holds (inode : Nat) : Place → Prop where
  | locked : Place.Holds inode (.locked inode)
  | stale : Place.Holds inode (.stale inode)
  | reopened (other : Nat) : Place.Holds inode (.reopened inode other)
  | inside : Place.Holds inode (.inside inode)
  | deleting : Place.Holds inode (.deleting inode)
  | unlinked : Place.Holds inode (.unlinked inode)
  | closing : Place.Holds inode (.closing inode)

/-- The places where a process may come to have the lock of an inode and return. -/
inductive Place.Tries (inode : Nat) : Place → Prop where
  | opened : Place.Tries inode (.opened inode)
  | waiting : Place.Tries inode (.waiting inode)
  | locked : Place.Tries inode (.locked inode)
  | reopened (old : Nat) : Place.Tries inode (.reopened old inode)

inductive Place.Secure (inode : Nat) : Place → Prop where
  | inside : Place.Secure inode (.inside inode)
  | deleting : Place.Secure inode (.deleting inode)

/-- An inode is under the name of the lock file, has its token, or is about to get it. -/
def Marked (world : World) (inode : Nat) : Prop :=
  world.files.name = some inode ∨ world.files.size inode ≠ 0 ∨
    ∃ process, world.places process = .unlinked inode

structure Invariant (world : World) : Prop where
  named : ∀ inode, world.files.name = some inode → inode < world.files.created
  holds : ∀ process inode, (world.places process).Holds inode →
    world.files.locks inode = some process
  tries : ∀ process inode, (world.places process).Tries inode →
    inode < world.files.created ∧ Marked world inode
  secure : ∀ process inode, (world.places process).Secure inode → world.files.name = some inode

variable {inode : Nat}

theorem Place.Secure.holds {place : Place} (secure : place.Secure inode) : place.Holds inode := by
  cases secure with
  | inside => exact Place.Holds.inside
  | deleting => exact Place.Holds.deleting

theorem invariant_exclusive {world : World} (invariant : Invariant world) : Exclusive world := by
  intro left right leftInode rightInode leftInside rightInside
  have leftNamed := invariant.secure left leftInode (leftInside ▸ Place.Secure.inside)
  have rightNamed := invariant.secure right rightInode (rightInside ▸ Place.Secure.inside)
  have same : leftInode = rightInode := Option.some.inj (leftNamed.symm.trans rightNamed)
  have leftHolds := invariant.holds left leftInode (leftInside ▸ Place.Holds.inside)
  have rightHolds := invariant.holds right rightInode (rightInside ▸ Place.Holds.inside)
  rw [same, rightHolds] at leftHolds
  exact (Option.some.inj leftHolds).symm

section

variable {world : World} {process : Nat} {files : Files} {place : Place}

theorem places_self : (moves world process files place).places process = place :=
  update_self ..

variable {other : Nat}

theorem places_other (differs : other ≠ process) :
    (moves world process files place).places other = world.places other :=
  update_of_ne differs ..

/-- What a call does to the files, as the other processes see it. -/
structure Spares (world : World) (process : Nat) (files : Files) : Prop where
  named : ∀ inode, files.name = some inode → inode < files.created
  grown : world.files.created ≤ files.created
  locks : ∀ other inode, other ≠ process → world.files.locks inode = some other →
    files.locks inode = some other
  name : ∀ other inode, other ≠ process → (world.places other).Secure inode →
    files.name = some inode

theorem moves_invariant (invariant : Invariant world) (spares : Spares world process files)
    (marks : ∀ inode < world.files.created, Marked world inode →
      Marked (moves world process files place) inode)
    (holds : ∀ inode, place.Holds inode → files.locks inode = some process)
    (tries : ∀ inode, place.Tries inode →
      inode < files.created ∧ Marked (moves world process files place) inode)
    (secure : ∀ inode, place.Secure inode → files.name = some inode) :
    Invariant (moves world process files place) := by
  refine ⟨spares.named, ?_, ?_, ?_⟩
  · intro other inode located
    by_cases same : other = process
    · rw [same, places_self] at located
      rw [same]
      exact holds inode located
    · rw [places_other same] at located
      exact spares.locks other inode same (invariant.holds other inode located)
  · intro other inode located
    by_cases same : other = process
    · rw [same, places_self] at located
      exact tries inode located
    · rw [places_other same] at located
      obtain ⟨below, marked⟩ := invariant.tries other inode located
      exact ⟨lt_of_lt_of_le below spares.grown, marks inode below marked⟩
  · intro other inode located
    by_cases same : other = process
    · rw [same, places_self] at located
      exact secure inode located
    · rw [places_other same] at located
      exact spares.name other inode same located

theorem marked_moves (marked : Marked world inode)
    (name : world.files.name = some inode → files.name = some inode)
    (size : world.files.size inode ≠ 0 → files.size inode ≠ 0)
    (other : world.places process ≠ .unlinked inode) :
    Marked (moves world process files place) inode := by
  rcases marked with isNamed | written | ⟨writer, about⟩
  · exact .inl (name isNamed)
  · exact .inr (.inl (size written))
  · refine .inr (.inr ⟨writer, ?_⟩)
    rw [places_other]
    · exact about
    · intro same
      rw [same] at about
      exact other about

variable {before : Place}

theorem place_invariant (invariant : Invariant world) (located : world.places process = before)
    (other : ∀ inode, before ≠ .unlinked inode)
    (holds : ∀ inode, place.Holds inode → before.Holds inode)
    (tries : ∀ inode, place.Tries inode → before.Tries inode)
    (secure : ∀ inode, place.Secure inode → world.files.name = some inode) :
    Invariant (moves world process world.files place) := by
  subst located
  have marks : ∀ inode, Marked world inode → Marked (moves world process world.files place) inode :=
    fun inode marked => marked_moves marked id id (other inode)
  apply moves_invariant invariant ⟨invariant.named, le_refl _, fun _ _ _ locked => locked,
    fun other inode _ => invariant.secure other inode⟩
  · intro inode _
    exact marks inode
  · intro inode located
    exact invariant.holds process inode (holds inode located)
  · intro inode located
    obtain ⟨below, marked⟩ := invariant.tries process inode (tries inode located)
    exact ⟨below, marks inode marked⟩
  · exact secure

theorem open_named (files : Files) : (openLockFile files).1.name = some (openLockFile files).2 := by
  rw [openLockFile]
  split
  next inode named => exact named
  · rfl

theorem open_locks (files : Files) : (openLockFile files).1.locks = files.locks := by
  rw [openLockFile]
  split <;> rfl

variable {files : Files}

theorem open_name (named : files.name = some inode) : (openLockFile files).1.name = some inode := by
  rw [openLockFile, named]
  exact named

theorem open_size (below : inode < files.created) :
    (openLockFile files).1.size inode = files.size inode := by
  rw [openLockFile]
  split
  · rfl
  · exact update_of_ne (ne_of_lt below) ..

theorem open_below (invariant : Invariant world) :
    (openLockFile world.files).2 < (openLockFile world.files).1.created := by
  rw [openLockFile]
  split
  next inode named => exact invariant.named inode named
  · exact Nat.lt_succ_self _

theorem open_invariant (invariant : Invariant world) (located : world.places process = before)
    (other : ∀ inode, before ≠ .unlinked inode)
    (holds : ∀ inode, place.Holds inode → before.Holds inode)
    (tries : ∀ inode, place.Tries inode → inode = (openLockFile world.files).2)
    (secure : ∀ inode, ¬place.Secure inode) :
    Invariant (moves world process (openLockFile world.files).1 place) := by
  subst located
  apply moves_invariant invariant
  · constructor
    · intro inode named
      rw [open_named] at named
      rw [← Option.some.inj named]
      exact open_below invariant
    · rw [openLockFile]
      split
      · exact le_refl _
      · exact Nat.le_succ _
    · intro another inode _ locked
      rw [open_locks]
      exact locked
    · intro another inode _ isSecure
      exact open_name (invariant.secure another inode isSecure)
  · intro inode below marked
    apply marked_moves marked open_name _ (other inode)
    rw [open_size below]
    exact id
  · intro inode located
    rw [open_locks]
    exact invariant.holds process inode (holds inode located)
  · intro inode located
    rw [tries inode located]
    exact ⟨open_below invariant, .inl (open_named _)⟩
  · intro inode located
    exact absurd located (secure inode)

theorem flock_invariant (invariant : Invariant world) (located : world.places process = before)
    (other : ∀ inode, before ≠ .unlinked inode) (tries : before.Tries inode)
    (free : world.files.locks inode = none) :
    Invariant (moves world process (flock world.files process inode) (.locked inode)) := by
  subst located
  have marks : ∀ another, Marked world another →
      Marked (moves world process (flock world.files process inode) (.locked inode)) another :=
    fun another marked => marked_moves marked id id (other another)
  apply moves_invariant invariant
  · refine ⟨invariant.named, le_refl _, ?_, fun another inode _ => invariant.secure another inode⟩
    intro another locked _ isLocked
    have differs : locked ≠ inode := by
      intro same
      rw [same, free] at isLocked
      cases isLocked
    exact (update_of_ne differs ..).trans isLocked
  · intro another _
    exact marks another
  · intro another holds
    cases holds with
    | locked => exact update_self ..
  · intro another triesThen
    cases triesThen with
    | locked =>
      obtain ⟨below, marked⟩ := invariant.tries process inode tries
      exact ⟨below, marks inode marked⟩
  · intro another secure
    cases secure

theorem close_keeps (files : Files) (process inode : Nat) :
    (close files process inode).name = files.name ∧
      (close files process inode).created = files.created ∧
      (close files process inode).size = files.size := by
  rw [close]
  split <;> exact ⟨rfl, rfl, rfl⟩

theorem close_invariant (invariant : Invariant world) (located : world.places process = before)
    (other : ∀ inode, before ≠ .unlinked inode) (closed : Nat)
    (holds : ∀ inode, ¬place.Holds inode)
    (tries : ∀ inode, place.Tries inode → before.Tries inode) :
    Invariant (moves world process (close world.files process closed) place) := by
  subst located
  obtain ⟨name, created, size⟩ := close_keeps world.files process closed
  have marks : ∀ inode, Marked world inode →
      Marked (moves world process (close world.files process closed) place) inode := by
    intro inode marked
    apply marked_moves marked _ _ (other inode)
    · rw [name]
      exact id
    · rw [size]
      exact id
  apply moves_invariant invariant
  · constructor
    · rw [name, created]
      exact invariant.named
    · rw [created]
    · intro another inode differs locked
      rw [close]
      split
      next owned =>
        have apart : inode ≠ closed := by
          rintro rfl
          exact differs (Option.some.inj (locked.symm.trans owned))
        exact (update_of_ne apart ..).trans locked
      · exact locked
    · intro another inode _ isSecure
      rw [name]
      exact invariant.secure another inode isSecure
  · intro inode _
    exact marks inode
  · intro inode located
    exact absurd located (holds inode)
  · intro inode located
    obtain ⟨below, marked⟩ := invariant.tries process inode (tries inode located)
    rw [created]
    exact ⟨below, marks inode marked⟩
  · intro inode located
    exact absurd located.holds (holds inode)

theorem unlink_invariant (invariant : Invariant world)
    (located : world.places process = .deleting inode) :
    Invariant (moves world process (unlink world.files) (.unlinked inode)) := by
  have named : world.files.name = some inode :=
    invariant.secure process inode (located ▸ Place.Secure.deleting)
  have locked : world.files.locks inode = some process :=
    invariant.holds process inode (located ▸ Place.Holds.deleting)
  refine moves_invariant invariant ?_ ?_ ?_ nofun nofun
  · refine ⟨nofun, le_refl _, fun _ _ _ => id, ?_⟩
    -- Nobody else can be sure of the name, since the lock of its inode is taken.
    intro other another differs isSecure
    have same := (invariant.secure other another isSecure).symm.trans named
    have isLocked := invariant.holds other another isSecure.holds
    rw [Option.some.inj same, locked] at isLocked
    exact absurd (Option.some.inj isLocked).symm differs
  · intro another _ marked
    by_cases same : another = inode
    · rw [same]
      exact .inr (.inr ⟨process, places_self⟩)
    refine marked_moves marked ?_ id ?_
    · intro isNamed
      exact absurd (Option.some.inj (isNamed.symm.trans named)) same
    · rw [located]
      exact nofun
  · intro another holds
    cases holds with
    | unlinked => exact locked

theorem write_invariant (invariant : Invariant world)
    (located : world.places process = .unlinked inode) :
    Invariant (moves world process (writeToken world.files inode) (.closing inode)) := by
  refine moves_invariant invariant ?_ ?_ ?_ nofun nofun
  · exact ⟨invariant.named, le_refl _, fun _ _ _ => id, fun other another _ =>
      invariant.secure other another⟩
  · intro another _ marked
    by_cases same : another = inode
    · rw [same]
      refine .inr (.inl ?_)
      change update world.files.size inode _ inode ≠ 0
      rw [update_self]
      exact Nat.succ_ne_zero _
    refine marked_moves marked id ?_ ?_
    · change _ → update world.files.size inode _ another ≠ 0
      rw [update_of_ne same]
      exact id
    · rw [located]
      intro shape
      exact same (Place.unlinked.inj shape).symm
  · intro another holds
    cases holds with
    | closing => exact invariant.holds process inode (located ▸ Place.Holds.unlinked)

theorem try_lock_invariant (invariant : Invariant world)
    (located : world.places process = .opened inode) (signal : Option Signal) :
    Invariant (tryLock world process inode signal) := by
  have closes : Invariant (moves world process (close world.files process inode) .outside) :=
    close_invariant invariant located nofun inode nofun nofun
  rcases signal with _ | _ | _
  · rw [tryLock]
    split
    next free => exact flock_invariant invariant located nofun .opened free
    · split
      · refine place_invariant invariant located nofun nofun ?_ nofun
        rintro _ ⟨⟩
        exact .opened
      · exact closes
  · exact closes
  · exact invariant

variable {signal : Option Signal}

section

variable (invariant : Invariant world)

include invariant

/-- An inode that is locked and has no token is the lock file: the process that could have
deleted it would have its lock. -/
theorem locked_named (located : world.places process = .locked inode)
    (empty : world.files.size inode = 0) : world.files.name = some inode := by
  have locked := invariant.holds process inode (located ▸ Place.Holds.locked)
  rcases (invariant.tries process inode (located ▸ Place.Tries.locked)).2 with
    named | written | ⟨writer, about⟩
  · exact named
  · exact absurd empty written
  · have owned := invariant.holds writer inode (about ▸ Place.Holds.unlinked)
    rw [locked] at owned
    rw [← Option.some.inj owned, located] at about
    cases about

theorem system_call_invariant (uninterrupted : Uninterrupted world (.call process signal)) :
    Invariant (systemCall world process signal) := by
  rw [systemCall]
  cases located : world.places process with
  | outside | inside inode => exact invariant
  | opening =>
    refine open_invariant invariant located nofun nofun ?_ nofun
    rintro _ ⟨⟩
    rfl
  | opened inode => exact try_lock_invariant invariant located signal
  | waiting inode =>
    dsimp only
    rcases signal with _ | _ | _
    · rw [waitForLock]
      split
      next free => exact flock_invariant invariant located nofun .waiting free
      · exact invariant
    · exact close_invariant invariant located nofun inode nofun nofun
    · exact absurd located (uninterrupted inode)
  | locked inode =>
    dsimp only
    split
    · refine place_invariant invariant located nofun ?_ nofun nofun
      rintro _ ⟨⟩
      exact .locked
    next noToken =>
      refine place_invariant invariant located nofun ?_ nofun ?_
      · rintro _ ⟨⟩
        exact .locked
      · rintro _ ⟨⟩
        exact locked_named invariant located (not_not.mp noToken)
  | stale old =>
    refine open_invariant invariant located nofun ?_ ?_ nofun
    · rintro _ ⟨⟩
      exact .stale
    · rintro _ ⟨⟩
      rfl
  | reopened old inode =>
    refine close_invariant invariant located nofun old nofun ?_
    rintro _ ⟨⟩
    exact .reopened old
  | deleting inode => exact unlink_invariant invariant located
  | unlinked inode => exact write_invariant invariant located
  | closing inode => exact close_invariant invariant located nofun inode nofun nofun

end

theorem act_invariant (event : Event) (invariant : Invariant world)
    (uninterrupted : Uninterrupted world event) : Invariant (act world event) := by
  cases event with
  | lockPaths process wait =>
    rw [act]
    cases located : world.places process with
    | outside =>
      have moved : Invariant (moves world process world.files .opening) :=
        place_invariant invariant located nofun nofun nofun nofun
      exact { moved with }
    | _ => exact invariant
  | setDeletion process deletePaths =>
    exact { invariant with }
  | unlock process =>
    rw [act]
    cases located : world.places process with
    | inside inode =>
      dsimp only
      split
      · refine place_invariant invariant located nofun ?_ nofun ?_
        · rintro _ ⟨⟩
          exact .inside
        · rintro _ ⟨⟩
          exact invariant.secure process inode (located ▸ Place.Secure.inside)
      · refine place_invariant invariant located nofun ?_ nofun nofun
        rintro _ ⟨⟩
        exact .inside
    | _ => exact invariant
  | call process signal => exact system_call_invariant invariant uninterrupted

end

theorem initial_invariant (leftover : Option Nat) : Invariant (initial leftover) := by
  refine ⟨?_, nofun, nofun, nofun⟩
  intro inode named
  cases leftover with
  | none => cases named
  | some size =>
    rw [← Option.some.inj named]
    exact Nat.zero_lt_one

/-- Unless a blocking `flock` is interrupted by a signal that throws nothing, at most one
process at a time has locked the path. -/
theorem locks_exclusive (leftover : Option Nat) (events : List Event)
    (uninterrupted : AllSteps act Uninterrupted (initial leftover) events) :
    Exclusive (events.foldl act (initial leftover)) :=
  invariant_exclusive (run_invariant Invariant (fun _ event => act_invariant event)
    (initial_invariant leftover) uninterrupted)

/-- A process waits for the lock file that another one deletes, and locks its successor. -/
def handOver : List Event :=
  [.lockPaths 0 true, .call 0 none, .call 0 none, .call 0 none, .lockPaths 1 true, .call 1 none,
    .call 1 none, .setDeletion 0 true, .unlock 0, .call 0 none, .call 0 none, .call 0 none,
    .call 1 none, .call 1 none, .call 1 none, .call 1 none, .call 1 none, .call 1 none]

theorem locks_exclusive_hand_over : (handOver.foldl act (initial none)).places 1 = .inside 2 ∧
      Exclusive (handOver.foldl act (initial none)) :=
  ⟨rfl, locks_exclusive none handOver (by simp [handOver, AllSteps, Uninterrupted])⟩

/-- The second process gets a signal while it waits, and both have locked the path. -/
theorem interrupted_wait_not_exclusive :
    ¬Exclusive ([.lockPaths 0 true, .call 0 none, .call 0 none, .call 0 none, .lockPaths 1 true,
      .call 1 none, .call 1 none, .call 1 (some .harmless), .call 1 none].foldl act
        (initial none)) := by
  intro exclusive
  exact absurd (exclusive 0 1 1 1 rfl rfl) Nat.zero_ne_one

inductive LockType where
  | ltRead
  | ltWrite
  | ltNone
  deriving DecidableEq

structure Descriptor where
  /-- The lock it has, `ltNone` if it has none. -/
  held : LockType
  /-- The calls of `flock` made on it. -/
  calls : Nat

variable (contended : Nat → Bool)

/-- `flock` with or without `LOCK_NB`. Unlocking never blocks. A call that would block
gives up the lock that was to be converted, one that blocks gets the lock in the end. -/
def flockDescriptor (lockType : LockType) (nonBlocking : Bool) (descriptor : Descriptor) :
    Bool × Descriptor :=
  if lockType ≠ .ltNone ∧ nonBlocking ∧ contended descriptor.calls then
    (false, ⟨.ltNone, descriptor.calls + 1⟩)
  else (true, ⟨lockType, descriptor.calls + 1⟩)

def lockFile (descriptor : Descriptor) (lockType : LockType) (wait : Bool) : Bool × Descriptor :=
  if wait then flockDescriptor contended lockType false descriptor
  else flockDescriptor contended lockType true descriptor

structure FdLock where
  desc : Descriptor
  acquired : Bool

/-- The constructor. Where the first attempt of a waiting one succeeds, `acquired` keeps
its default. -/
def FdLock.new (desc : Descriptor) (lockType : LockType) (wait : Bool) : FdLock :=
  let attempt := lockFile contended desc lockType false
  if wait then
    if !attempt.1 then
      let waited := lockFile contended attempt.2 lockType true
      ⟨waited.2, waited.1⟩
    else ⟨attempt.2, false⟩
  else ⟨attempt.2, attempt.1⟩

def FdLock.destroy (lock : FdLock) : Descriptor :=
  if lock.acquired then (lockFile contended lock.desc .ltNone false).2 else lock.desc

/-- The flag is right about the descriptor, and a lock that is held is released. -/
structure FdLock.Releases (lock : FdLock) : Prop where
  acquired : lock.desc.held ≠ .ltNone → lock.acquired = true
  released : lock.desc.held ≠ .ltNone → (lock.destroy contended).held = .ltNone
  unacquired : lock.acquired = false → lock.desc.held = .ltNone

theorem releases_iff (lock : FdLock) : lock.Releases contended ↔
    (lock.desc.held ≠ .ltNone → lock.acquired = true) := by
  constructor
  · exact FdLock.Releases.acquired
  intro acquired
  refine ⟨acquired, ?_, ?_⟩
  · intro held
    rw [FdLock.destroy, acquired held]
    rfl
  intro unacquired
  by_contra held
  rw [acquired held] at unacquired
  cases unacquired

/-- The lock is released unless a waiting constructor got it at its first attempt. -/
theorem fd_lock_releases_iff (desc : Descriptor) (lockType : LockType) (wait : Bool) :
    (FdLock.new contended desc lockType wait).Releases contended ↔
      wait = false ∨ lockType = .ltNone ∨ contended desc.calls = true := by
  rw [releases_iff]
  by_cases unlocks : lockType = .ltNone
  · cases wait <;> simp [FdLock.new, lockFile, flockDescriptor, unlocks]
  · cases busy : contended desc.calls <;> cases wait <;>
      simp [FdLock.new, lockFile, flockDescriptor, unlocks, busy]

/-- A write lock that nobody contends is left on the descriptor by the destructor. -/
theorem waiting_fd_lock_kept : let lock := FdLock.new (fun _ => false) ⟨.ltNone, 0⟩ .ltWrite true
    lock.acquired = false ∧ (lock.destroy fun _ => false).held = .ltWrite := by
  decide

end Bsd.Store.PathLocks
