import Mathlib.Data.List.Nodup
import Mathlib.Data.List.Perm.Basic

/-!
# Thread pools

`ThreadPool` executes a queue of work items on the thread that calls `process` and on
worker threads that `enqueue` starts. What happens between taking and releasing the
mutex of the pool is one step here. What the work items do is a parameter: a place in the
code of an item offers the actions that can come next, and none while it is blocked.
-/

namespace Bsd.Util.ThreadPool

open List

/-- What a work item does next. `refused` is where it goes on when `enqueue` throws, and
`interrupted` where it goes on when `checkInterrupt` does. -/
inductive Action (Job Local State Error : Type) where
  | finish
  | throw (error : Error)
  | abort
  | enqueue (job : Job) (next refused : Local)
  | checkInterrupt (next interrupted : Local)
  | proceed (state : State) (next : Local)

structure Code (Job Local State Error : Type) where
  start : Job → Local
  actions : Local → State → List (Action Job Local State Error)

/-- What the owner of the pool does before it calls `process`. -/
inductive Caller (Job : Type) where
  | process
  | abandon
  | enqueue (job : Job) (next refused : Caller Job)

/-- The places of `doWork`. At `head` the mutex is about to be taken, and `waiting` threads
wait for the condition variable. -/
inductive Place (Local : Type) where
  | head (didWork : Bool)
  | waiting
  | woken
  | running (ticket : Nat) (item : Local)
  | returned

structure Thread (Local Error : Type) where
  mainThread : Bool
  exc : Option Error
  place : Place Local

abbrev Threads (Local Error : Type) := List (Thread Local Error)

/-- The places of the owner. `rethrowing` and the next two are the handler in `process`. -/
inductive Phase (Job Error : Type) where
  | calling (caller : Caller Job)
  | abandoned
  | processing
  | rethrowing (error : Error)
  | notifying (error : Error)
  | joining (error : Error)
  | returned
  | threw (error : Error)
  | aborted

/-- Items are numbered in the order in which they are enqueued. -/
inductive Event (Error : Type) where
  | started (ticket : Nat)
  | finished (ticket : Nat)
  | threw (ticket : Nat) (error : Error)

/-- What the mutex of the pool guards, with what happened so far and what the items share. -/
structure Shared (Job State Error : Type) where
  pending : List (Nat × Job)
  active : Nat
  exception : Option Error
  draining : Bool
  quit : Bool
  tickets : Nat
  history : List (Event Error)
  state : State

structure Config (Job Local State Error : Type) where
  shared : Shared Job State Error
  threads : Threads Local Error
  phase : Phase Job Error

variable {Job Local State Error : Type}

def initial (caller : Caller Job) (state : State) : Config Job Local State Error where
  shared := ⟨[], 0, none, false, false, 0, [], state⟩
  threads := []
  phase := .calling caller

def Thread.moveTo (thread : Thread Local Error) (place : Place Local) : Thread Local Error :=
  { thread with place }

def Thread.wake (thread : Thread Local Error) : Thread Local Error :=
  match thread.place with
  | .waiting => thread.moveTo .woken
  | _ => thread

def Thread.isWaiting (thread : Thread Local Error) : Bool :=
  match thread.place with
  | .waiting => true
  | _ => false

def Thread.isReturned (thread : Thread Local Error) : Bool :=
  match thread.place with
  | .returned => true
  | _ => false

def Thread.isBusy (thread : Thread Local Error) : Bool :=
  match thread.place with
  | .running _ _ => true
  | .head didWork => didWork
  | _ => false

def notifyAll (threads : Threads Local Error) : Threads Local Error :=
  threads.map Thread.wake

/-- `notify_one` wakes one of the threads that wait, if there are any. -/
inductive NotifiedOne : Threads Local Error → Threads Local Error → Prop where
  | none {threads : Threads Local Error}
      (awake : ∀ thread ∈ threads, thread.isWaiting = false) : NotifiedOne threads threads
  | one (before after : Threads Local Error) (thread : Thread Local Error)
      (waits : thread.isWaiting = true) :
      NotifiedOne (before ++ thread :: after) (before ++ thread.wake :: after)

/-- The size of `workers`, which are the threads other than the one in `process`. -/
def workerCount (threads : Threads Local Error) : Nat :=
  threads.countP fun thread => !thread.mainThread

def Shared.push (shared : Shared Job State Error) (job : Job) : Shared Job State Error :=
  { shared with
    pending := shared.pending ++ [(shared.tickets, job)]
    tickets := shared.tickets + 1 }

/-- `enqueue` starts a worker if there are more items than threads. -/
def spawn (maxThreads : Nat) (shared : Shared Job State Error) (threads : Threads Local Error) :
    Threads Local Error :=
  if shared.pending.length > workerCount threads + 1 ∧ workerCount threads + 1 < maxThreads then
    threads ++ [⟨false, none, .head false⟩]
  else threads

/-- The part of the loop after an item, which fails if the assertion does. The second
component says whether all threads are notified. -/
def Shared.finishItem (shared : Shared Job State Error) (exc : Option Error) :
    Option (Shared Job State Error × Bool) :=
  if shared.active = 0 then none
  else
    match exc, shared.exception with
    | some error, none => some ({ shared with
        active := shared.active - 1
        exception := some error
        quit := true }, true)
    | _, _ => some ({ shared with active := shared.active - 1 }, false)

def Shared.awaitItem (code : Code Job Local State Error) (shared : Shared Job State Error) :
    Shared Job State Error × Place Local × Bool :=
  if shared.quit then (shared, .returned, false)
  else
    match shared.pending with
    | (ticket, job) :: rest => ({ shared with
        pending := rest
        active := shared.active + 1
        history := shared.history ++ [.started ticket] }, .running ticket (code.start job), false)
    | [] =>
      if shared.active = 0 ∧ shared.draining = true then
        ({ shared with quit := true }, .returned, true)
      else (shared, .waiting, false)

/-- What a thread does from where it takes the mutex to where it releases it or waits. -/
def Shared.loopTop (code : Code Job Local State Error) (shared : Shared Job State Error)
    (thread : Thread Local Error) : Option (Shared Job State Error × Place Local × Bool) :=
  match thread.place with
  | .head true => do
      let (shared, first) ← shared.finishItem thread.exc
      let (shared, place, second) := shared.awaitItem code
      pure (shared, place, first || second)
  | .head false => some (shared.awaitItem code)
  | .woken => some (shared.awaitItem code)
  | _ => none

section

variable (code : Code Job Local State Error) (maxThreads : Nat)

inductive ItemStep (before after : Threads Local Error) (thread : Thread Local Error)
    (ticket : Nat) (config : Config Job Local State Error) :
    Action Job Local State Error → Config Job Local State Error → Prop where
  | finish : ItemStep before after thread ticket config .finish { config with
      shared := { config.shared with history := config.shared.history ++ [.finished ticket] }
      threads := before ++ thread.moveTo (.head true) :: after }
  | throw (error : Error) : ItemStep before after thread ticket config (.throw error) { config with
      shared := { config.shared with history := config.shared.history ++ [.threw ticket error] }
      threads := before ++ { thread with exc := some error, place := .head true } :: after }
  | abort : ItemStep before after thread ticket config .abort { config with phase := .aborted }
  | enqueue (job : Job) (next refused : Local) {threads : Threads Local Error}
      (open_ : config.shared.quit = false)
      (notified : NotifiedOne (spawn maxThreads (config.shared.push job)
        (before ++ thread.moveTo (.running ticket next) :: after)) threads) :
      ItemStep before after thread ticket config (.enqueue job next refused) { config with
        shared := config.shared.push job
        threads := threads }
  | refuse (job : Job) (next refused : Local) (quit : config.shared.quit = true) :
      ItemStep before after thread ticket config (.enqueue job next refused) { config with
        threads := before ++ thread.moveTo (.running ticket refused) :: after }
  | checkInterrupt (next interrupted : Local) :
      ItemStep before after thread ticket config (.checkInterrupt next interrupted) { config with
        threads := before ++ thread.moveTo (.running ticket
          (if !thread.mainThread && config.shared.quit then interrupted else next)) :: after }
  | proceed (state : State) (next : Local) :
      ItemStep before after thread ticket config (.proceed state next) { config with
        shared := { config.shared with state := state }
        threads := before ++ thread.moveTo (.running ticket next) :: after }

inductive Step (config : Config Job Local State Error) : Config Job Local State Error → Prop where
  | submit (job : Job) (next refused : Caller Job) {threads : Threads Local Error}
      (calling : config.phase = .calling (.enqueue job next refused))
      (open_ : config.shared.quit = false)
      (notified : NotifiedOne (spawn maxThreads (config.shared.push job) config.threads) threads) :
      Step config ⟨config.shared.push job, threads, .calling next⟩
  | refuse (job : Job) (next refused : Caller Job)
      (calling : config.phase = .calling (.enqueue job next refused))
      (quit : config.shared.quit = true) :
      Step config { config with phase := .calling refused }
  | abandon (calling : config.phase = .calling .abandon) :
      Step config { config with phase := .abandoned }
  | process (calling : config.phase = .calling .process) :
      Step config ⟨{ config.shared with draining := true },
        config.threads ++ [⟨true, none, .head false⟩], .processing⟩
  | loopTop (before after : Threads Local Error) (thread : Thread Local Error)
      {shared : Shared Job State Error} {place : Place Local} {all : Bool}
      (selected : config.threads = before ++ thread :: after)
      (section_ : config.shared.loopTop code thread = some (shared, place, all)) :
      Step config ⟨shared, if all then notifyAll (before ++ thread.moveTo place :: after)
        else before ++ thread.moveTo place :: after, config.phase⟩
  | assertActive (before after : Threads Local Error) (thread : Thread Local Error)
      (selected : config.threads = before ++ thread :: after)
      (worked : thread.place = .head true) (idle : config.shared.active = 0) :
      Step config { config with phase := .aborted }
  | item (before after : Threads Local Error) (thread : Thread Local Error)
      {ticket : Nat} {item : Local} {action : Action Job Local State Error}
      {next : Config Job Local State Error}
      (selected : config.threads = before ++ thread :: after)
      (runs : thread.place = .running ticket item)
      (offered : action ∈ code.actions item config.shared.state)
      (acted : ItemStep maxThreads before after thread ticket config action next) :
      Step config next
  | assertQuit (thread : Thread Local Error) (processing : config.phase = .processing)
      (member : thread ∈ config.threads) (isMain : thread.mainThread = true)
      (ended : thread.isReturned = true) (open_ : config.shared.quit = false) :
      Step config { config with phase := .aborted }
  | succeed (thread : Thread Local Error) (processing : config.phase = .processing)
      (member : thread ∈ config.threads) (isMain : thread.mainThread = true)
      (ended : thread.isReturned = true) (quit : config.shared.quit = true)
      (fine : config.shared.exception = none) :
      Step config { config with phase := .returned }
  | rethrow (thread : Thread Local Error) (error : Error) (processing : config.phase = .processing)
      (member : thread ∈ config.threads) (isMain : thread.mainThread = true)
      (ended : thread.isReturned = true) (quit : config.shared.quit = true)
      (failed : config.shared.exception = some error) :
      Step config { config with phase := .rethrowing error }
  | shutdown (error : Error) (rethrowing : config.phase = .rethrowing error) :
      Step config { config with
        shared := { config.shared with quit := true }
        phase := .notifying error }
  | notify (error : Error) (notifying : config.phase = .notifying error) : Step config { config with
        threads := notifyAll config.threads
        phase := .joining error }
  | join (error : Error) (joining : config.phase = .joining error)
      (reaped : ∀ thread ∈ config.threads, thread.mainThread = false → thread.isReturned = true) :
      Step config { config with phase := .threw error }

/-- A thread stops waiting although nothing notified it. -/
inductive Spurious (config : Config Job Local State Error) : Config Job Local State Error → Prop where
  | wake (before after : Threads Local Error) (thread : Thread Local Error)
      (selected : config.threads = before ++ thread :: after) (waits : thread.isWaiting = true) :
      Spurious config { config with threads := before ++ thread.wake :: after }

def Moves (config next : Config Job Local State Error) : Prop :=
  Step code maxThreads config next ∨ Spurious config next

def Reached (caller : Caller Job) (state : State) (config : Config Job Local State Error) : Prop :=
  Relation.ReflTransGen (Moves code maxThreads) (initial caller state) config

end

def Thread.isReporting (thread : Thread Local Error) : Bool :=
  match thread.place with
  | .head didWork => didWork
  | _ => false

def Thread.ticket (thread : Thread Local Error) : Option Nat :=
  match thread.place with
  | .running ticket _ => some ticket
  | _ => none

def Event.start : Event Error → Option Nat
  | .started ticket => some ticket
  | _ => none

def Event.ending : Event Error → Option Nat
  | .started _ => none
  | .finished ticket => some ticket
  | .threw ticket _ => some ticket

def Shared.startedItems (shared : Shared Job State Error) : List Nat :=
  shared.history.filterMap Event.start

def Shared.endedItems (shared : Shared Job State Error) : List Nat :=
  shared.history.filterMap Event.ending

structure Safe (shared : Shared Job State Error) (threads : Threads Local Error) : Prop where
  active : shared.active = threads.countP Thread.isBusy
  started : shared.startedItems.Perm (threads.filterMap Thread.ticket ++ shared.endedItems)
  numbered : (shared.startedItems ++ shared.pending.map Prod.fst).Perm (List.range shared.tickets)
  excThrown : ∀ thread ∈ threads, ∀ error, thread.exc = some error →
    ∃ ticket, .threw ticket error ∈ shared.history
  excPlace : ∀ thread ∈ threads, thread.exc.isSome = true →
    thread.ticket = none ∧ (thread.isReporting = true ∨ shared.quit = true)
  exceptionThrown : ∀ error, shared.exception = some error →
    ∃ ticket, .threw ticket error ∈ shared.history
  reported : ∀ ticket error, .threw ticket error ∈ shared.history → shared.exception.isSome = true ∨
      ∃ thread ∈ threads, thread.exc.isSome = true ∧ thread.isReporting = true
  failedQuits : shared.exception.isSome = true → shared.quit = true
  quitWhy : shared.quit = true → shared.exception.isSome = true ∨
      (shared.pending = [] ∧ shared.active = 0 ∧ shared.draining = true)
  returnedQuits : ∀ thread ∈ threads, thread.isReturned = true → shared.quit = true

structure View (Error : Type) where
  mainThread : Bool
  exc : Option Error
  busy : Bool
  reporting : Bool
  ended : Bool
  ticket : Option Nat

def Thread.view (thread : Thread Local Error) : View Error :=
  ⟨thread.mainThread, thread.exc, thread.isBusy, thread.isReporting, thread.isReturned, thread.ticket⟩

open Thread

@[simp] theorem wake_view (thread : Thread Local Error) : thread.wake.view = thread.view := by
  unfold wake
  cases at_ : thread.place with
  | waiting =>
    simp [view, moveTo, isBusy, isReporting, isReturned, ticket, at_]
  | _ => rfl

variable {ticket : Nat} {item : Local} {thread : Thread Local Error}

theorem running_view (runs : thread.place = .running ticket item)
    (next : Local) : (thread.moveTo (.running ticket next)).view = thread.view := by
  simp [Thread.view, Thread.moveTo, Thread.isBusy, Thread.isReporting, Thread.isReturned,
    Thread.ticket, runs]

def SameThreads (left right : Threads Local Error) : Prop :=
  left.map Thread.view = right.map Thread.view

theorem same_threads_swap (before after : Threads Local Error) {left right : Thread Local Error}
    (same : left.view = right.view) :
    SameThreads (before ++ left :: after) (before ++ right :: after) := by
  simp [SameThreads, same]

theorem same_threads_notify_all (threads : Threads Local Error) :
    SameThreads threads (notifyAll threads) := by
  rw [SameThreads, notifyAll, map_map]
  exact map_congr_left fun thread _ => (wake_view thread).symm

theorem same_threads_notified_one {threads woken : Threads Local Error}
    (notified : NotifiedOne threads woken) : SameThreads threads woken := by
  cases notified with
  | none => exact Eq.refl (threads.map view)
  | one before after thread => exact same_threads_swap before after (wake_view thread).symm

section

variable {left right : Threads Local Error} (same : SameThreads left right)

include same

theorem same_threads_busy : left.countP isBusy = right.countP isBusy := by
  have counts := congrArg (countP View.busy) same
  rwa [countP_map, countP_map] at counts

theorem same_threads_tickets : left.filterMap Thread.ticket = right.filterMap Thread.ticket := by
  have tickets := congrArg (filterMap View.ticket) same
  rwa [filterMap_map, filterMap_map] at tickets

theorem same_threads_mem (member : thread ∈ right) : ∃ other ∈ left, other.view = thread.view := by
  have viewed : thread.view ∈ left.map Thread.view := by
    rw [same]
    exact mem_map_of_mem member
  exact mem_map.mp viewed

end

variable {left right : Threads Local Error} {shared : Shared Job State Error}

theorem Safe.congr
    (safe : Safe shared left) (same : SameThreads left right) : Safe shared right where
  __ := safe
  active := safe.active.trans (same_threads_busy same)
  started := same_threads_tickets same ▸ safe.started
  excThrown thread member error isExc := by
    obtain ⟨other, inside, looks⟩ := same_threads_mem same member
    exact safe.excThrown other inside error ((congrArg View.exc looks).trans isExc)
  excPlace thread member isExc := by
    obtain ⟨other, inside, looks⟩ := same_threads_mem same member
    have sameExc : other.exc = thread.exc := congrArg View.exc looks
    obtain ⟨idle, reports⟩ := safe.excPlace other inside (sameExc ▸ isExc)
    have sameReports : thread.isReporting = other.isReporting :=
      (congrArg View.reporting looks).symm
    refine ⟨(congrArg View.ticket looks).symm.trans idle, ?_⟩
    rw [sameReports]
    exact reports
  reported ticket error thrown := by
    obtain known | ⟨other, inside, isExc, reports⟩ := safe.reported ticket error thrown
    · exact .inl known
    · obtain ⟨thread, member, looks⟩ := same_threads_mem (Eq.symm same) inside
      have sameExc : thread.exc = other.exc := congrArg View.exc looks
      exact .inr ⟨thread, member, sameExc ▸ isExc, (congrArg View.reporting looks).trans reports⟩
  returnedQuits thread member ended := by
    obtain ⟨other, inside, looks⟩ := same_threads_mem same member
    exact safe.returnedQuits other inside ((congrArg View.ended looks).trans ended)

section

variable (thread : Thread Local Error)

@[simp] theorem head_busy (didWork : Bool) : (thread.moveTo (.head didWork)).isBusy = didWork := rfl

@[simp] theorem running_busy (ticket : Nat) (item : Local) :
    (thread.moveTo (.running ticket item)).isBusy = true := rfl

@[simp] theorem returned_busy : (thread.moveTo .returned).isBusy = false := rfl

@[simp] theorem head_ticket (didWork : Bool) : (thread.moveTo (.head didWork)).ticket = none := rfl

@[simp] theorem running_ticket (ticket : Nat) (item : Local) :
    (thread.moveTo (.running ticket item)).ticket = some ticket := rfl

@[simp] theorem returned_ticket : (thread.moveTo .returned).ticket = none := rfl

end

variable {place : Place Local} {all : Bool} {after : Shared Job State Error}

inductive Awaits (code : Code Job Local State Error) (shared : Shared Job State Error) :
    Shared Job State Error → Place Local → Bool → Prop where
  | quits (quit : shared.quit = true) : Awaits code shared shared .returned false
  | takes {ticket : Nat} {job : Job} {rest : List (Nat × Job)} (open_ : shared.quit = false)
      (queue : shared.pending = (ticket, job) :: rest) :
      Awaits code shared { shared with
        pending := rest
        active := shared.active + 1
        history := shared.history ++ [.started ticket] } (.running ticket (code.start job)) false
  | drains (open_ : shared.quit = false) (queue : shared.pending = [])
      (drained : shared.active = 0 ∧ shared.draining = true) :
      Awaits code shared { shared with quit := true } .returned true
  | waits (open_ : shared.quit = false) (busy : ¬(shared.active = 0 ∧ shared.draining = true)) :
      Awaits code shared shared .waiting false

variable {code : Code Job Local State Error}

theorem awaits_await_item (awaits : shared.awaitItem code = (after, place, all)) :
    Awaits code shared after place all := by
  unfold Shared.awaitItem at awaits
  split at awaits
  next quit =>
    cases awaits
    exact .quits quit
  next notQuit =>
    have open_ : shared.quit = false := Bool.eq_false_iff.mpr notQuit
    split at awaits
    next queue =>
      cases awaits
      exact .takes open_ queue
    next queue =>
      split at awaits
      next drained =>
        cases awaits
        exact .drains open_ queue drained
      next busy =>
        cases awaits
        exact .waits open_ busy

inductive Finishes (shared : Shared Job State Error) :
    Option Error → Shared Job State Error → Bool → Prop where
  | fails {error : Error} (busy : shared.active ≠ 0) (unset : shared.exception = none) :
      Finishes shared (some error) { shared with
        active := shared.active - 1
        exception := some error
        quit := true } true
  | ends {exc : Option Error} (busy : shared.active ≠ 0)
      (known : exc.isSome = true → shared.exception.isSome = true) :
      Finishes shared exc { shared with active := shared.active - 1 } false

variable {exc : Option Error}

theorem finishes_finish_item (finishes : shared.finishItem exc = some (after, all)) :
    Finishes shared exc after all := by
  unfold Shared.finishItem at finishes
  split at finishes
  · cases finishes
  next busy =>
    split at finishes
    next unset =>
      cases finishes
      exact .fails busy unset
    next notFirst =>
      cases finishes
      refine .ends busy fun isSome => ?_
      obtain ⟨error, isExc⟩ := Option.isSome_iff_exists.mp isSome
      rw [Option.isSome_iff_ne_none]
      exact notFirst error isExc

/-- A thread that takes the mutex comes from an item, or it only looks for the next one. -/
theorem loop_top_cases (section_ : shared.loopTop code thread = some (after, place, all)) :
    (∃ between first second, thread.place = .head true ∧ Finishes shared thread.exc between first ∧
      Awaits code between after place second ∧ all = (first || second)) ∨
    ((thread.place = .head false ∨ thread.place = .woken) ∧ Awaits code shared after place all) := by
  unfold Shared.loopTop at section_
  split at section_
  next worked =>
    obtain ⟨⟨between, first⟩, finishes, rest⟩ := Option.bind_eq_some_iff.mp section_
    cases rest
    exact .inl ⟨between, first, _, worked, finishes_finish_item finishes,
      awaits_await_item rfl, rfl⟩
  next at_ => exact .inr ⟨.inl at_, awaits_await_item (Option.some.inj section_)⟩
  next at_ => exact .inr ⟨.inr at_, awaits_await_item (Option.some.inj section_)⟩
  · cases section_

section Sections

variable {shared : Shared Job State Error} {threads before after : Threads Local Error}
  {thread : Thread Local Error}

section

variable (safe : Safe shared threads)

include safe

theorem Safe.state (state : State) : Safe { shared with state := state } threads :=
  { safe with }

theorem Safe.drain : Safe { shared with draining := true } threads :=
  { safe with
    quitWhy := fun quit => (safe.quitWhy quit).imp_right fun why => ⟨why.1, why.2.1, rfl⟩ }

theorem Safe.shutdown (why : shared.exception.isSome = true ∨
      (shared.pending = [] ∧ shared.active = 0 ∧ shared.draining = true)) :
    Safe { shared with quit := true } threads :=
  { safe with
    excPlace := fun other member isExc => ⟨(safe.excPlace other member isExc).1, .inr rfl⟩
    failedQuits := fun _ => rfl
    quitWhy := fun _ => why
    returnedQuits := fun _ _ _ => rfl }

theorem Safe.join (mainThread : Bool) :
    Safe shared (threads ++ [⟨mainThread, none, .head false⟩]) where
  __ := safe
  active := by
    rw [countP_append, ← safe.active]
    rfl
  started := by
    rw [filterMap_append]
    exact (append_nil _).symm ▸ safe.started
  excThrown := forall_mem_append.mpr ⟨safe.excThrown, forall_mem_singleton.mpr nofun⟩
  excPlace := forall_mem_append.mpr ⟨safe.excPlace, forall_mem_singleton.mpr nofun⟩
  reported ticket error thrown := by
    obtain known | ⟨other, inside, reports⟩ := safe.reported ticket error thrown
    · exact .inl known
    · exact .inr ⟨other, mem_append_left _ inside, reports⟩
  returnedQuits := forall_mem_append.mpr ⟨safe.returnedQuits, forall_mem_singleton.mpr nofun⟩

theorem Safe.spawn (maxThreads : Nat) : Safe shared (spawn maxThreads shared threads) := by
  unfold ThreadPool.spawn
  split
  · exact safe.join false
  · exact safe

theorem Safe.push (job : Job) (open_ : shared.quit = false) : Safe (shared.push job) threads where
  __ := safe
  numbered := by
    have more := safe.numbered.append_right [shared.tickets]
    rw [append_assoc, ← range_succ] at more
    change (shared.startedItems ++ (shared.pending ++ [(shared.tickets, job)]).map Prod.fst).Perm _
    rw [map_append]
    exact more
  quitWhy quit := nomatch open_.symm.trans quit

end

variable {holds : Thread Local Error → Prop} {next : Thread Local Error}

theorem all_swap (all : ∀ other ∈ before ++ thread :: after, holds other) (new : holds next) :
    ∀ other ∈ before ++ next :: after, holds other := by
  rw [forall_mem_append, forall_mem_cons] at all ⊢
  exact ⟨all.1, new, all.2.2⟩

theorem exists_swap (some : ∃ other ∈ before ++ thread :: after, holds other)
    (kept : holds thread → holds next) : ∃ other ∈ before ++ next :: after, holds other := by
  obtain ⟨other, member, is⟩ := some
  obtain inBefore | inRest := mem_append.mp member
  · exact ⟨other, mem_append_left _ inBefore, is⟩
  · obtain rfl | inAfter := mem_cons.mp inRest
    · exact ⟨next, mem_append_right _ mem_cons_self, kept is⟩
    · exact ⟨other, mem_append_right _ (mem_cons_of_mem _ inAfter), is⟩

theorem selected_mem : thread ∈ before ++ thread :: after :=
  mem_append_right _ mem_cons_self

theorem Safe.itemEnds {event : Event Error} (safe : Safe shared (before ++ thread :: after))
    (runs : thread.place = .running ticket item) (ends : event.ending = some ticket)
    (notStart : event.start = none)
    (records : ∀ other error, event = .threw other error ↔ other = ticket ∧ exc = some error) :
    Safe { shared with history := shared.history ++ [event] }
      (before ++ { thread with exc, place := .head true } :: after) where
  __ := safe
  active := by
    rw [safe.active]
    simp [countP_cons, isBusy, runs]
  started := by
    have same := safe.started
    simp only [Shared.startedItems, Shared.endedItems, filterMap_append, filterMap_cons,
      filterMap_nil, Thread.ticket, runs, ends, notStart, append_nil] at same ⊢
    refine same.trans ?_
    rw [append_assoc, append_assoc]
    refine List.Perm.append_left _ ?_
    rw [← append_assoc]
    exact (perm_append_singleton _ _).symm
  numbered := by
    have same := safe.numbered
    simp only [Shared.startedItems, filterMap_append, filterMap_cons,
      filterMap_nil, notStart, append_nil] at same ⊢
    exact same
  excThrown := by
    apply all_swap
    · intro other member error isExc
      obtain ⟨number, thrown⟩ := safe.excThrown other member error isExc
      exact ⟨number, mem_append_left _ thrown⟩
    intro error isExc
    have isThrow := (records ticket error).mpr ⟨rfl, isExc⟩
    rw [isThrow]
    exact ⟨ticket, mem_append_right _ mem_cons_self⟩
  excPlace := all_swap safe.excPlace fun _ => ⟨rfl, .inl rfl⟩
  exceptionThrown error isException := by
    obtain ⟨number, thrown⟩ := safe.exceptionThrown error isException
    exact ⟨number, mem_append_left _ thrown⟩
  reported number error thrown := by
    obtain old | new := mem_append.mp thrown
    · obtain known | reports := safe.reported number error old
      · exact .inl known
      refine .inr (exists_swap reports ?_)
      rintro ⟨_, isReporting⟩
      rw [Thread.isReporting, runs] at isReporting
      cases isReporting
    · have isExc := ((records number error).mp (mem_singleton.mp new).symm).2
      exact .inr ⟨_, selected_mem, Option.isSome_iff_exists.mpr ⟨error, isExc⟩, rfl⟩
  returnedQuits := all_swap safe.returnedQuits nofun

variable {next : Shared Job State Error}

theorem Safe.finishItem (safe : Safe shared (before ++ thread :: after))
    (worked : thread.place = .head true) (finishes : Finishes shared thread.exc next all) :
    Safe next (before ++ thread.moveTo (.head false) :: after) := by
  have count : shared.active - 1 =
      (before ++ thread.moveTo (.head false) :: after).countP isBusy := by
    have isBusy : thread.isBusy = true := by rw [isBusy, worked]
    rw [safe.active]
    simp only [countP_append, countP_cons, isBusy, head_busy, Bool.false_eq_true, if_true, if_false]
    omega
  have tickets : (before ++ thread.moveTo (.head false) :: after).filterMap ticket =
      (before ++ thread :: after).filterMap ticket := by
    have noTicket : thread.ticket = none := by rw [ticket, worked]
    simp [filterMap_cons, noTicket]
  generalize isExc : thread.exc = exc at finishes
  cases finishes with
  | fails busy unset =>
    refine ⟨count, tickets ▸ safe.started, safe.numbered, ?_, ?_, ?_, ?_, fun _ => rfl,
      fun _ => .inl rfl, fun _ _ _ => rfl⟩
    · exact all_swap safe.excThrown (safe.excThrown thread selected_mem)
    · exact all_swap (fun other member isSome => ⟨(safe.excPlace other member isSome).1, .inr rfl⟩)
        fun _ => ⟨rfl, .inr rfl⟩
    · intro other isOther
      cases isOther
      exact safe.excThrown thread selected_mem _ isExc
    · exact fun _ _ _ => .inl rfl
  | ends busy nothing =>
    rw [← isExc] at nothing
    refine ⟨count, tickets ▸ safe.started, safe.numbered, ?_, ?_, safe.exceptionThrown, ?_,
      safe.failedQuits, fun quit => .inl ?_, all_swap safe.returnedQuits nofun⟩
    · exact all_swap safe.excThrown (safe.excThrown thread selected_mem)
    · exact all_swap safe.excPlace fun isSome =>
        ⟨rfl, .inr (safe.failedQuits (nothing isSome))⟩
    · intro number error thrown
      obtain known | ⟨other, member, isSome, reports⟩ := safe.reported number error thrown
      · exact .inl known
      by_cases isThread : other = thread
      · exact .inl (nothing (isThread ▸ isSome))
      refine .inr ⟨other, ?_, isSome, reports⟩
      simp only [mem_append, mem_cons, isThread, false_or] at member
      simp only [mem_append, mem_cons]
      exact member.imp_right .inr
    · exact (safe.quitWhy quit).resolve_right fun drained => busy drained.2.1

section

variable (safe : Safe shared (before ++ thread :: after)) (notReporting : thread.isReporting = false)
include safe notReporting

theorem Safe.othersReport (number : Nat) (error : Error)
    (thrown : .threw number error ∈ shared.history) : shared.exception.isSome = true ∨
      ∃ other ∈ before ++ thread.moveTo place :: after,
        other.exc.isSome = true ∧ other.isReporting = true := by
  refine (safe.reported number error thrown).imp_right fun reports => exists_swap reports ?_
  rintro ⟨_, isReporting⟩
  cases notReporting.symm.trans isReporting

theorem Safe.retire (quit : shared.quit = true) (notBusy : thread.isBusy = false)
    (noTicket : thread.ticket = none) :
    Safe shared (before ++ thread.moveTo .returned :: after) where
  __ := safe
  active := by
    rw [safe.active]
    simp [notBusy]
  started := by simpa [filterMap_cons, noTicket] using safe.started
  excThrown := all_swap safe.excThrown (safe.excThrown thread selected_mem)
  excPlace := all_swap safe.excPlace fun _ => ⟨rfl, .inr quit⟩
  reported := safe.othersReport notReporting
  returnedQuits _ _ _ := quit

end

theorem Safe.awaitItem (safe : Safe shared (before ++ thread :: after))
    (awake : thread.place = .head false ∨ thread.place = .woken)
    (awaits : Awaits code shared next place all) :
    Safe next (before ++ thread.moveTo place :: after) := by
  have idle : thread.isBusy = false ∧ thread.isReporting = false ∧ thread.isReturned = false ∧
      thread.ticket = none := by
    obtain at_ | at_ := awake <;>
      simp [isBusy, isReporting, isReturned, ticket, at_]
  obtain ⟨notBusy, notReporting, notReturned, noTicket⟩ := idle
  have noExc : shared.quit = false → thread.exc.isSome = false := by
    intro open_
    by_contra isSome
    obtain ⟨_, reports | quit⟩ :=
      safe.excPlace thread selected_mem ((Bool.not_eq_false _).mp isSome)
    · cases notReporting.symm.trans reports
    · cases open_.symm.trans quit
  cases awaits with
  | quits quit => exact safe.retire notReporting quit notBusy noTicket
  | @takes ticket job rest open_ queue =>
    refine ⟨?_, ?_, ?_, ?_, ?_, ?_, ?_, safe.failedQuits,
      fun quit => (nomatch open_.symm.trans quit), all_swap safe.returnedQuits nofun⟩
    · change shared.active + 1 = _
      rw [safe.active]
      simp only [countP_append, countP_cons, notBusy, running_busy, Bool.false_eq_true,
        if_true, if_false]
      omega
    · have same := safe.started
      simp only [Shared.startedItems, Shared.endedItems, filterMap_append,
        filterMap_cons, filterMap_nil, Event.ending, noTicket, append_nil] at same ⊢
      refine (perm_append_singleton _ _).trans ((same.cons ticket).trans ?_)
      rw [append_assoc, append_assoc]
      exact perm_middle.symm
    · have same := safe.numbered
      simp only [queue, Shared.startedItems, filterMap_append, append_assoc] at same ⊢
      exact same
    · intro other member error isExc
      obtain ⟨number, thrown⟩ := all_swap safe.excThrown
        (by exact safe.excThrown thread selected_mem) other member error isExc
      exact ⟨number, mem_append_left _ thrown⟩
    · exact all_swap safe.excPlace fun isSome => nomatch (noExc open_).symm.trans isSome
    · intro error isException
      obtain ⟨number, thrown⟩ := safe.exceptionThrown error isException
      exact ⟨number, mem_append_left _ thrown⟩
    · intro number error thrown
      obtain old | new := mem_append.mp thrown
      · exact safe.othersReport notReporting number error old
      · cases mem_singleton.mp new
  | drains open_ queue drained =>
    exact (safe.shutdown (.inr ⟨queue, drained⟩)).retire notReporting rfl notBusy noTicket
  | waits =>
    apply safe.congr
    apply same_threads_swap
    simp only [view, notBusy, notReporting, notReturned, noTicket]
    rfl

end Sections

section

variable {code : Code Job Local State Error} {maxThreads : Nat}
  {config next : Config Job Local State Error} {before after : Threads Local Error}
  {after_ : Shared Job State Error}

theorem Safe.loopTop (safe : Safe shared (before ++ thread :: after))
    (section_ : shared.loopTop code thread = some (after_, place, all)) :
    Safe after_ (before ++ thread.moveTo place :: after) := by
  obtain ⟨between, first, second, worked, finishes, awaits, _⟩ | ⟨at_, awaits⟩ :=
    loop_top_cases section_
  · exact (safe.finishItem worked finishes).awaitItem (.inl rfl) awaits
  · exact safe.awaitItem at_ awaits

variable {action : Action Job Local State Error}

/-- The actions of an item keep the pool safe. -/
theorem safe_item_step (safe : Safe config.shared (before ++ thread :: after))
    (selected : config.threads = before ++ thread :: after)
    (runs : thread.place = .running ticket item)
    (acted : ItemStep maxThreads before after thread ticket config action next) :
    Safe next.shared next.threads := by
  have stays : ∀ other, Safe config.shared
      (before ++ thread.moveTo (.running ticket other) :: after) := fun other =>
    safe.congr (same_threads_swap before after (running_view runs other).symm)
  cases acted with
  | finish =>
    -- a thread that has thrown does not get another item
    have noExc : ∀ error, thread.exc ≠ some error := by
      intro error isExc
      have noTicket := (safe.excPlace thread selected_mem (isExc ▸ rfl)).1
      rw [Thread.ticket, runs] at noTicket
      cases noTicket
    exact safe.itemEnds runs rfl rfl fun _ error => ⟨nofun, fun both => absurd both.2 (noExc error)⟩
  | throw error =>
    refine safe.itemEnds runs rfl rfl fun other thrown => ⟨?_, ?_⟩
    · intro same
      cases same
      exact ⟨rfl, rfl⟩
    · rintro ⟨rfl, same⟩
      cases same
      rfl
  | abort => exact selected ▸ safe
  | enqueue job other refused open_ notified =>
    exact (((stays other).push job open_).spawn maxThreads).congr
      (same_threads_notified_one notified)
  | refuse | checkInterrupt => exact stays _
  | proceed state other => exact (stays other).state state

structure Advances (before after : Shared Job State Error) : Prop where
  draining : after.draining = before.draining
  quit : before.quit = true → after.quit = true
  exception : ∀ error, before.exception = some error → after.exception = some error
  fine : before.exception = none → before.active = 0 → after.exception = none

theorem Advances.refl (shared : Shared Job State Error) : Advances shared shared :=
  ⟨rfl, id, fun _ => id, fun fine _ => fine⟩

theorem Awaits.advances (awaits : Awaits code shared after_ place all) : Advances shared after_ := by
  cases awaits with
  | quits | waits => exact .refl shared
  | takes => exact ⟨rfl, id, fun _ => id, fun fine _ => fine⟩
  | drains => exact ⟨rfl, fun _ => rfl, fun _ => id, fun fine _ => fine⟩

theorem Finishes.advances (finishes : Finishes shared exc after_ all) : Advances shared after_ := by
  cases finishes with
  | fails busy unset =>
    exact ⟨rfl, fun _ => rfl, fun error known => (nomatch unset.symm.trans known),
      fun _ idle => absurd idle busy⟩
  | ends => exact ⟨rfl, id, fun _ => id, fun fine _ => fine⟩

theorem Finishes.busy (finishes : Finishes shared exc after_ all) : shared.active ≠ 0 := by
  cases finishes with
  | fails busy | ends busy => exact busy

theorem advances_loop_top (section_ : shared.loopTop code thread = some (after_, place, all)) :
    Advances shared after_ := by
  obtain ⟨between, first, second, _, finishes, awaits, _⟩ | ⟨_, awaits⟩ := loop_top_cases section_
  · have finished := finishes.advances
    have awaited := awaits.advances
    exact ⟨awaited.draining.trans finished.draining, fun quit => awaited.quit (finished.quit quit),
      fun error known => awaited.exception error (finished.exception error known),
      fun _ idle => absurd idle finishes.busy⟩
  · exact awaits.advances

def HasMain (threads : Threads Local Error) : Prop :=
  ∃ thread ∈ threads, thread.mainThread = true

theorem has_main_congr (same : SameThreads left right) (main : HasMain left) : HasMain right := by
  obtain ⟨thread, member, isMain⟩ := main
  obtain ⟨other, inside, looks⟩ := same_threads_mem (Eq.symm same) member
  exact ⟨other, inside, (congrArg View.mainThread looks).trans isMain⟩

theorem has_main_spawn {threads : Threads Local Error}
    (main : HasMain threads) : HasMain (spawn maxThreads shared threads) := by
  unfold spawn
  split
  · obtain ⟨thread, member, isMain⟩ := main
    exact ⟨thread, mem_append_left _ member, isMain⟩
  · exact main

theorem item_step_frame (selected : config.threads = before ++ thread :: after)
    (acted : ItemStep maxThreads before after thread ticket config action next) :
    Advances config.shared next.shared ∧ (HasMain config.threads → HasMain next.threads) ∧
      (next.phase = config.phase ∨ action = .abort ∧ next.phase = .aborted) := by
  have moves : ∀ other : Thread Local Error, other.mainThread = thread.mainThread →
      HasMain config.threads → HasMain (before ++ other :: after) := by
    intro other sameMain main
    rw [selected] at main
    exact exists_swap main sameMain.trans
  cases acted with
  | finish | throw | proceed =>
    exact ⟨⟨rfl, id, fun _ => id, fun fine _ => fine⟩, moves _ rfl, .inl rfl⟩
  | abort => exact ⟨.refl _, id, .inr ⟨rfl, rfl⟩⟩
  | enqueue job other refused open_ notified =>
    refine ⟨⟨rfl, id, fun _ => id, fun fine _ => fine⟩, fun main => ?_, .inl rfl⟩
    exact has_main_congr (same_threads_notified_one notified) (has_main_spawn (moves _ rfl main))
  | refuse | checkInterrupt => exact ⟨.refl _, moves _ rfl, .inl rfl⟩

def Phase.isBefore : Phase Job Error → Bool
  | .calling _ => true
  | .abandoned => true
  | _ => false

def Phase.failure : Phase Job Error → Option Error
  | .rethrowing error => some error
  | .notifying error => some error
  | .joining error => some error
  | .threw error => some error
  | _ => none

/-- What holds of the owner, with the assertions of the pool. -/
structure Owned (config : Config Job Local State Error) : Prop where
  safe : Safe config.shared config.threads
  before : config.phase.isBefore = true → config.shared.draining = false
  entered : config.phase = .processing → config.shared.draining = true ∧ HasMain config.threads
  succeeded : config.phase = .returned → config.shared.quit = true ∧ config.shared.exception = none
  failing : ∀ error, config.phase.failure = some error → config.shared.exception = some error

theorem Owned.advance (owned : Owned config) (safe : Safe next.shared next.threads)
    (samePhase : next.phase = config.phase) (advances : Advances config.shared next.shared)
    (main : HasMain config.threads → HasMain next.threads) : Owned next where
  safe := safe
  before isBefore := by
    rw [samePhase] at isBefore
    exact advances.draining.trans (owned.before isBefore)
  entered isEntered := by
    rw [samePhase] at isEntered
    obtain ⟨draining, hasMain⟩ := owned.entered isEntered
    exact ⟨advances.draining.trans draining, main hasMain⟩
  succeeded isReturned := by
    rw [samePhase] at isReturned
    obtain ⟨quit, fine⟩ := owned.succeeded isReturned
    obtain failed | ⟨_, idle, _⟩ := owned.safe.quitWhy quit
    · rw [fine] at failed
      cases failed
    · exact ⟨advances.quit quit, advances.fine fine idle⟩
  failing error isFailing := by
    rw [samePhase] at isFailing
    exact advances.exception error (owned.failing error isFailing)

theorem Owned.abort (owned : Owned config) : Owned { config with phase := .aborted } :=
  ⟨owned.safe, nofun, nofun, nofun, nofun⟩

theorem Owned.active_ne_zero (owned : Owned config)
    (selected : config.threads = before ++ thread :: after) (worked : thread.place = .head true) :
    config.shared.active ≠ 0 := by
  have busy : thread.isBusy = true := by rw [isBusy, worked]
  rw [owned.safe.active, selected]
  exact Nat.ne_of_gt (countP_pos_iff.mpr ⟨thread, selected_mem, busy⟩)

theorem owned_step (owned : Owned config) (step : Step code maxThreads config next) : Owned next := by
  cases step with
  | submit job caller refused calling open_ notified =>
    refine ⟨((owned.safe.push job open_).spawn maxThreads).congr
      (same_threads_notified_one notified), fun _ => ?_, nofun, nofun, nofun⟩
    exact owned.before (calling ▸ rfl)
  | refuse job caller refused calling | abandon calling =>
    exact ⟨owned.safe, fun _ => owned.before (calling ▸ rfl), nofun, nofun, nofun⟩
  | process calling =>
    refine ⟨(owned.safe.join true).drain, nofun, fun _ => ⟨rfl, ?_⟩, nofun, nofun⟩
    exact ⟨_, mem_append_right _ mem_cons_self, rfl⟩
  | loopTop before after thread selected section_ =>
    have safe := owned.safe
    rw [selected] at safe
    have moved := safe.loopTop section_
    have main : HasMain config.threads → ∀ place,
        HasMain (before ++ thread.moveTo place :: after) := by
      intro hasMain place
      rw [selected] at hasMain
      exact exists_swap hasMain id
    refine owned.advance ?_ rfl (advances_loop_top section_) fun hasMain => ?_
    · split
      · exact moved.congr (same_threads_notify_all _)
      · exact moved
    · split
      · exact has_main_congr (same_threads_notify_all _) (main hasMain _)
      · exact main hasMain _
  | assertActive | assertQuit => exact owned.abort
  | item before after thread selected runs offered acted =>
    have safe := owned.safe
    rw [selected] at safe
    have kept := safe_item_step safe selected runs acted
    obtain ⟨advances, main, same | ⟨_, aborted⟩⟩ := item_step_frame selected acted
    · exact owned.advance kept same advances main
    · refine ⟨kept, ?_, ?_, ?_, ?_⟩ <;> rw [aborted] <;> exact nofun
  | succeed thread processing member isMain ended quit fine =>
    exact ⟨owned.safe, nofun, nofun, fun _ => ⟨quit, fine⟩, nofun⟩
  | rethrow thread error processing member isMain ended quit failed =>
    refine ⟨owned.safe, nofun, nofun, nofun, fun other isOther => ?_⟩
    cases isOther
    exact failed
  | shutdown error rethrowing =>
    have failed := owned.failing error (rethrowing ▸ rfl)
    refine ⟨owned.safe.shutdown (.inl (failed ▸ rfl)), nofun, nofun, nofun, fun other isOther => ?_⟩
    cases isOther
    exact failed
  | notify error notifying =>
    refine ⟨owned.safe.congr (same_threads_notify_all _), nofun, nofun, nofun,
      fun other isOther => ?_⟩
    cases isOther
    exact owned.failing error (notifying ▸ rfl)
  | join error joining =>
    refine ⟨owned.safe, nofun, nofun, nofun, fun other isOther => ?_⟩
    cases isOther
    exact owned.failing error (joining ▸ rfl)

theorem owned_spurious (owned : Owned config) (wakes : Spurious config next) : Owned next := by
  cases wakes with
  | wake before after thread selected =>
    have same : SameThreads config.threads (before ++ thread.wake :: after) := by
      rw [selected]
      exact same_threads_swap before after (wake_view thread).symm
    exact owned.advance (owned.safe.congr same) rfl (.refl _) (has_main_congr same)

variable {caller : Caller Job} {state : State}

theorem owned_reached (reached : Reached code maxThreads caller state config) : Owned config := by
  induction reached with
  | refl =>
    exact ⟨⟨rfl, .refl _, .refl _, nofun, nofun, nofun, nofun, nofun, nofun, nofun⟩, fun _ => rfl,
      nofun, nofun, nofun⟩
  | tail _ moves owned =>
    obtain step | wakes := moves
    · exact owned_step owned step
    · exact owned_spurious owned wakes

theorem started_once (owned : Owned config) (ticket : Nat) :
    config.shared.startedItems.count ticket ≤ 1 := by
  have distinct : (config.shared.startedItems ++ config.shared.pending.map Prod.fst).Nodup :=
    owned.safe.numbered.nodup_iff.mpr nodup_range
  exact nodup_iff_count_le_one.mp distinct.of_append_left ticket

def Shared.AllFinished (shared : Shared Job State Error) : Prop :=
  ∀ ticket < shared.tickets, shared.startedItems.count ticket = 1 ∧ .finished ticket ∈ shared.history

/-- `quit` without an exception means that nothing is pending or active. -/
theorem drained_of_fine (owned : Owned config) (quit : config.shared.quit = true)
    (fine : config.shared.exception = none) :
    config.shared.pending = [] ∧ ∀ thread ∈ config.threads, thread.isBusy = false := by
  obtain failed | ⟨queue, idle, _⟩ := owned.safe.quitWhy quit
  · rw [fine] at failed
    cases failed
  · refine ⟨queue, fun thread member => ?_⟩
    rw [owned.safe.active, countP_eq_zero] at idle
    exact Bool.eq_false_iff.mpr (idle thread member)

theorem busy_of_ticket (has : thread.ticket = some ticket) : thread.isBusy = true := by
  unfold Thread.ticket at has
  unfold Thread.isBusy
  cases at_ : thread.place with
  | running => rfl
  | _ =>
    rw [at_] at has
    cases has

theorem busy_of_reporting (reports : thread.isReporting = true) : thread.isBusy = true := by
  unfold isReporting at reports
  unfold isBusy
  cases at_ : thread.place with
  | head didWork =>
    rw [at_] at reports
    exact reports
  | running => rfl
  | _ =>
    rw [at_] at reports
    cases reports

theorem nothing_thrown (owned : Owned config) (quit : config.shared.quit = true)
    (fine : config.shared.exception = none) (ticket : Nat) (error : Error) :
    .threw ticket error ∉ config.shared.history := by
  intro thrown
  obtain failed | ⟨thread, member, _, reports⟩ := owned.safe.reported ticket error thrown
  · rw [fine] at failed
    cases failed
  · have busy := busy_of_reporting reports
    rw [(drained_of_fine owned quit fine).2 thread member] at busy
    cases busy

theorem all_finished_of_returned (owned : Owned config) (returned : config.phase = .returned) :
    config.shared.AllFinished := by
  obtain ⟨quit, fine⟩ := owned.succeeded returned
  obtain ⟨queue, idle⟩ := drained_of_fine owned quit fine
  have noTickets : config.threads.filterMap ticket = [] := by
    rw [filterMap_eq_nil_iff]
    intro thread member
    rw [Option.eq_none_iff_forall_ne_some]
    intro ticket has
    have busy := busy_of_ticket has
    rw [idle thread member] at busy
    cases busy
  intro ticket enqueued
  have member : ticket ∈ config.shared.startedItems := by
    have all := owned.safe.numbered
    rw [queue, map_nil, append_nil] at all
    exact all.mem_iff.mpr (mem_range.mpr enqueued)
  have once := started_once owned ticket
  have some := count_pos_iff.mpr member
  refine ⟨by omega, ?_⟩
  have started := owned.safe.started
  rw [noTickets] at started
  obtain ⟨event, happened, ends⟩ := mem_filterMap.mp (started.mem_iff.mp member)
  cases event with
  | started => cases ends
  | finished =>
    cases ends
    exact happened
  | threw number error => exact absurd happened (nothing_thrown owned quit fine number error)

/-- Items that do not abort leave the assertions of the pool true. -/
theorem not_aborted_reached
    (calm : ∀ config, Reached code maxThreads caller state config → ∀ thread ∈ config.threads,
      ∀ ticket item, thread.place = .running ticket item →
        .abort ∉ code.actions item config.shared.state)
    (reached : Reached code maxThreads caller state config) : config.phase ≠ .aborted := by
  induction reached with
  | refl => nofun
  | @tail config next earlier moves ih =>
    have owned := owned_reached earlier
    obtain step | wakes := moves
    · cases step with
      | assertActive before after thread selected worked idle =>
        exact absurd idle (owned.active_ne_zero selected worked)
      | assertQuit thread processing member isMain ended open_ =>
        exact absurd (owned.safe.returnedQuits thread member ended) (Bool.eq_false_iff.mp open_)
      | item before after thread selected runs offered acted =>
        have member : thread ∈ config.threads := selected ▸ selected_mem
        obtain ⟨_, _, same | ⟨aborts, _⟩⟩ := item_step_frame selected acted
        · rw [same]
          exact ih
        · rw [aborts] at offered
          exact absurd offered (calm config earlier thread member _ _ runs)
      | loopTop => exact ih
      | _ => nofun
    · cases wakes with
      | wake => exact ih

end

end Bsd.Util.ThreadPool
