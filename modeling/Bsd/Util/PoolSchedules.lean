import Bsd.Util.CalmPools

/-!
# Schedules of a thread pool

A schedule says who goes next. `perform` computes the step that is taken then, so that
particular runs can be evaluated. A notification wakes up the first thread that waits.
-/

namespace Bsd.Util.ThreadPool

open List

variable {Job Local State Error : Type} {code : Code Job Local State Error} {maxThreads : Nat}
  {config next : Config Job Local State Error}

inductive Choice where
  | owner
  | thread (index action : Nat)

def wakeFirst : Threads Local Error → Threads Local Error
  | [] => []
  | thread :: rest => if thread.isWaiting then thread.wake :: rest else thread :: wakeFirst rest

theorem wake_first_cons (before : Threads Local Error) {threads : Threads Local Error}
    (awake : ∀ thread ∈ before, thread.isWaiting = false) :
    NotifiedOne (before ++ threads) (before ++ wakeFirst threads) := by
  induction threads generalizing before with
  | nil =>
    rw [wakeFirst, append_nil]
    exact .none awake
  | cons thread rest ih =>
    rw [wakeFirst]
    by_cases waits : thread.isWaiting = true
    · rw [if_pos waits]
      exact .one before rest thread waits
    · rw [if_neg waits, append_cons, append_cons before thread (wakeFirst rest)]
      refine ih _ (forall_mem_append.mpr ⟨awake, forall_mem_singleton.mpr ?_⟩)
      exact Bool.eq_false_iff.mpr waits

theorem wake_first_notified (threads : Threads Local Error) :
    NotifiedOne threads (wakeFirst threads) := wake_first_cons [] nofun

section Performing

variable (code : Code Job Local State Error) (maxThreads : Nat)

def performReturn (config : Config Job Local State Error) : Option (Config Job Local State Error) :=
  if config.threads.any (fun thread => thread.mainThread && thread.isReturned) && config.shared.quit &&
      config.shared.exception.isNone then
    some { config with phase := .returned }
  else none

def performOwner (config : Config Job Local State Error) : Option (Config Job Local State Error) :=
  match config.phase with
  | .calling (.enqueue job next _) =>
    if config.shared.quit then none
    else some ⟨config.shared.push job,
      wakeFirst (spawn maxThreads (config.shared.push job) config.threads), .calling next⟩
  | .calling .process => some ⟨{ config.shared with draining := true },
      config.threads ++ [⟨true, none, .head false⟩], .processing⟩
  | .processing => performReturn config
  | _ => none

def performAction (before after : Threads Local Error) (thread : Thread Local Error)
    (ticket : Nat) (config : Config Job Local State Error) :
    Action Job Local State Error → Option (Config Job Local State Error)
  | .finish => some { config with
      shared := { config.shared with history := config.shared.history ++ [.finished ticket] }
      threads := before ++ thread.moveTo (.head true) :: after }
  | .enqueue job next _ =>
    if config.shared.quit then none
    else some { config with
      shared := config.shared.push job
      threads := wakeFirst (spawn maxThreads (config.shared.push job)
        (before ++ thread.moveTo (.running ticket next) :: after)) }
  | .proceed state next => some { config with
      shared := { config.shared with state := state }
      threads := before ++ thread.moveTo (.running ticket next) :: after }
  | _ => none

def performThread (before after : Threads Local Error) (thread : Thread Local Error)
    (action : Nat) (config : Config Job Local State Error) : Option (Config Job Local State Error) :=
  match thread.place with
  | .running ticket item => do
      let taken ← (code.actions item config.shared.state)[action]?
      performAction maxThreads before after thread ticket config taken
  | _ => do
      let (shared, place, all) ← config.shared.loopTop code thread
      pure ⟨shared, if all then notifyAll (before ++ thread.moveTo place :: after)
        else before ++ thread.moveTo place :: after, config.phase⟩

def perform (config : Config Job Local State Error) : Choice → Option (Config Job Local State Error)
  | .owner => performOwner maxThreads config
  | .thread index action =>
    match config.threads.drop index with
    | [] => none
    | thread :: after =>
      performThread code maxThreads (config.threads.take index) after thread action config

def schedule (config : Config Job Local State Error) (choices : List Choice) :
    Option (Config Job Local State Error) :=
  choices.foldlM (perform code maxThreads) config

end Performing

theorem perform_owner_step (performed : performOwner maxThreads config = some next) :
    Step code maxThreads config next := by
  unfold performOwner at performed
  split at performed
  next job caller refused calling =>
    split at performed
    · cases performed
    next open_ =>
      cases performed
      exact .submit job caller refused calling (Bool.eq_false_iff.mpr open_)
        (wake_first_notified _)
  next calling =>
    cases performed
    exact .process calling
  next processing =>
    unfold performReturn at performed
    split at performed
    next fine =>
      rw [Bool.and_eq_true, Bool.and_eq_true] at fine
      obtain ⟨⟨ended, quit⟩, none⟩ := fine
      obtain ⟨thread, member, both⟩ := any_eq_true.mp ended
      rw [Bool.and_eq_true] at both
      cases performed
      exact .succeed thread processing member both.1 both.2 quit (Option.isNone_iff_eq_none.mp none)
    · cases performed
  · cases performed

variable {before after : Threads Local Error} {thread : Thread Local Error} {ticket : Nat}

theorem perform_action_step {action : Action Job Local State Error}
    (performed : performAction maxThreads before after thread ticket config action = some next) :
    ItemStep maxThreads before after thread ticket config action next := by
  cases action with
  | finish =>
    cases performed
    exact .finish
  | enqueue job other refused =>
    rw [performAction] at performed
    split at performed
    · cases performed
    next open_ =>
      cases performed
      exact .enqueue job other refused (Bool.eq_false_iff.mpr open_) (wake_first_notified _)
  | proceed state other =>
    cases performed
    exact .proceed state other
  | _ => cases performed

theorem perform_thread_step {action : Nat} (selected : config.threads = before ++ thread :: after)
    (performed : performThread code maxThreads before after thread action config = some next) :
    Step code maxThreads config next := by
  unfold performThread at performed
  split at performed
  next ticket item runs =>
    obtain ⟨taken, isAction, acted⟩ := Option.bind_eq_some_iff.mp performed
    exact .item before after thread selected runs (mem_of_getElem? isAction)
      (perform_action_step acted)
  · obtain ⟨⟨shared, place, all⟩, section_, same⟩ := Option.bind_eq_some_iff.mp performed
    cases same
    exact .loopTop before after thread selected section_

theorem perform_step {choice : Choice} (performed : perform code maxThreads config choice = some next) :
    Step code maxThreads config next := by
  cases choice with
  | owner => exact perform_owner_step performed
  | thread index action =>
    rw [perform] at performed
    split at performed
    · cases performed
    next thread after rest =>
      refine perform_thread_step ?_ performed
      rw [← rest, take_append_drop]

theorem schedule_reached {caller : Caller Job} {state : State} {choices : List Choice}
    (scheduled : schedule code maxThreads (initial caller state) choices = some next) :
    Reached code maxThreads caller state next := by
  have runs : ∀ choices config, Reached code maxThreads caller state config →
      schedule code maxThreads config choices = some next →
      Reached code maxThreads caller state next := by
    intro choices
    induction choices with
    | nil =>
      intro config reached same
      cases same
      exact reached
    | cons choice rest ih =>
      intro config reached scheduled
      obtain ⟨between, performed, later⟩ := Option.bind_eq_some_iff.mp scheduled
      exact ih between (reached.tail (.inl (perform_step performed))) later
  exact runs choices _ .refl scheduled

section

variable {refused : Caller Job} {state : State}

def idleWorker : Thread Local Error := ⟨false, none, .head false⟩

/-- Some jobs have been enqueued before any thread looked at the queue. -/
structure Filling (refused : Caller Job) (state : State) (enqueued rest : List Job)
    (config : Config Job Local State Error) : Prop where
  phase : config.phase = .calling (.submitAll refused rest)
  pending : config.shared.pending.map Prod.snd = enqueued
  open_ : config.shared.quit = false
  state : config.shared.state = state
  threads : config.threads = List.replicate (enqueued.length - 1) idleWorker

variable {enqueued : List Job} {job : Job}

theorem spawn_filling {rest : List Job}
    (filling : Filling refused state enqueued (job :: rest) config)
    (enough : (enqueued ++ job :: rest).length ≤ maxThreads) :
    spawn maxThreads (config.shared.push job) config.threads =
      List.replicate enqueued.length idleWorker := by
  have queued : config.shared.pending.length = enqueued.length := by
    rw [← filling.pending, length_map]
  have workers : workerCount config.threads = enqueued.length - 1 := by
    rw [filling.threads, workerCount, countP_replicate]
    rfl
  rw [length_append, length_cons] at enough
  unfold spawn
  rw [workers, Shared.push, length_append, queued, length_singleton]
  cases enqueued with
  | nil =>
    rw [filling.threads]
    rfl
  | cons first others =>
    rw [length_cons] at enough ⊢
    rw [if_pos (by omega), filling.threads, replicate_succ']
    rfl

theorem fill_queue (rest : List Job) (filling : Filling refused state enqueued rest config)
    (enough : (enqueued ++ rest).length ≤ maxThreads) :
    ∃ next, Relation.ReflTransGen (Moves code maxThreads) config next ∧
      Filling refused state (enqueued ++ rest) [] next := by
  induction rest generalizing enqueued config with
  | nil => exact ⟨config, .refl, (append_nil enqueued).symm ▸ filling⟩
  | cons job rest ih =>
    have spawned := spawn_filling filling enough
    have awake : ∀ thread ∈ spawn maxThreads (config.shared.push job) config.threads,
        thread.isWaiting = false := by
      rw [spawned]
      intro thread member
      rw [eq_of_mem_replicate member]
      rfl
    have step : Step code maxThreads config ⟨config.shared.push job,
        spawn maxThreads (config.shared.push job) config.threads,
        .calling (.submitAll refused rest)⟩ :=
      .submit job _ refused filling.phase filling.open_ (.none awake)
    have next : Filling refused state (enqueued ++ [job]) rest
        (⟨config.shared.push job, spawn maxThreads (config.shared.push job) config.threads,
          .calling (.submitAll refused rest)⟩ : Config Job Local State Error) := by
      refine ⟨rfl, ?_, filling.open_, filling.state, ?_⟩
      · rw [Shared.push, map_append, filling.pending]
        rfl
      · rw [spawned, length_append]
        rfl
    rw [append_cons] at enough ⊢
    obtain ⟨last, moves, filled⟩ := ih next enough
    exact ⟨last, .head (.inl step) moves, filled⟩

/-- So many threads are about to look at the queue, which holds these entries. -/
structure Taking (entries : List (Nat × Job)) (before idle : Threads Local Error)
    (config : Config Job Local State Error) : Prop where
  threads : config.threads = before ++ idle
  pending : config.shared.pending = entries
  waiting : ∀ thread ∈ idle, thread.place = .head false
  enough : entries.length ≤ idle.length
  open_ : config.shared.quit = false

variable (code maxThreads)

def AllRunning (entries : List (Nat × Job)) (before : Threads Local Error)
    (config : Config Job Local State Error) : Prop :=
  ∃ next, Relation.ReflTransGen (Moves code maxThreads) config next ∧
    next.shared.state = config.shared.state ∧
    (∀ item ∈ runningItems before, item ∈ runningItems next.threads) ∧
    ∀ entry ∈ entries, code.start entry.2 ∈ runningItems next.threads

variable {code maxThreads} {idle : Threads Local Error} {entries : List (Nat × Job)}

theorem take_one (taking : Taking ((ticket, job) :: entries) before (thread :: idle) config) :
    ∃ next, Step code maxThreads config next ∧ next.shared.state = config.shared.state ∧
      Taking entries (before ++ [thread.moveTo (.running ticket (code.start job))]) idle next := by
  have taken : config.shared.loopTop code thread = some ({ config.shared with
      pending := entries
      active := config.shared.active + 1
      history := config.shared.history ++ [.started ticket] },
      .running ticket (code.start job), false) := by
    rw [Shared.loopTop, taking.waiting thread mem_cons_self]
    dsimp only
    rw [Shared.awaitItem, taking.open_, taking.pending]
    rfl
  refine ⟨_, .loopTop before idle thread taking.threads taken, rfl, ?_⟩
  exact ⟨append_cons _ _ _, rfl, fun other member => taking.waiting other (mem_cons_of_mem _ member),
    Nat.le_of_succ_le_succ taking.enough, taking.open_⟩

theorem take_all (taking : Taking entries before idle config) :
    AllRunning code maxThreads entries before config := by
  induction entries generalizing config before idle with
  | nil =>
    refine ⟨config, .refl, rfl, fun item member => ?_, nofun⟩
    rw [taking.threads, runningItems, filterMap_append]
    exact Multiset.mem_coe.mpr (mem_append_left _ member)
  | cons entry rest ih =>
    cases idle with
    | nil => cases taking.enough
    | cons thread idle =>
      obtain ⟨between, step, first, goesOn⟩ := take_one taking
      obtain ⟨next, moves, same, kept, all⟩ := ih goesOn
      rw [items_cons before [] rfl, append_nil] at kept
      refine ⟨next, .head (.inl step) moves, same.trans first, ?_, ?_⟩
      · exact fun item member => kept item (Multiset.mem_cons_of_mem member)
      · exact forall_mem_cons.mpr ⟨kept _ (Multiset.mem_cons_self _ _), all⟩

theorem any_item_first {jobs : List Job} (member : job ∈ jobs) (enough : jobs.length ≤ maxThreads) :
    ∃ config, Reached code maxThreads (.submitAll refused jobs) state config ∧
      config.shared.state = state ∧ code.start job ∈ runningItems config.threads := by
  have start : Filling refused state [] jobs
      (initial (.submitAll refused jobs) state : Config Job Local State Error) :=
    ⟨rfl, rfl, rfl, rfl, rfl⟩
  have filled : ∃ next, Reached code maxThreads (.submitAll refused jobs) state next ∧
      Filling refused state jobs [] next := fill_queue jobs start enough
  obtain ⟨last, reached, filling⟩ := filled
  have length : last.shared.pending.length = jobs.length := by
    rw [← filling.pending, length_map]
  have taking : Taking last.shared.pending []
      (last.threads ++ [⟨true, none, .head false⟩])
      ⟨{ last.shared with draining := true },
        last.threads ++ [⟨true, none, .head false⟩], .processing⟩ := by
    refine ⟨rfl, rfl, fun thread isThread => ?_, ?_, filling.open_⟩
    · obtain worker | main := mem_append.mp isThread
      · rw [filling.threads] at worker
        rw [eq_of_mem_replicate worker]
        rfl
      · rw [mem_singleton.mp main]
    · rw [length_append, filling.threads, length_replicate, length_singleton]
      omega
  have all : AllRunning code maxThreads _ _ _ := take_all taking
  obtain ⟨next, later, same, _, running⟩ := all
  refine ⟨next, (reached.tail (.inl (.process filling.phase))).trans later,
    same.trans filling.state, ?_⟩
  rw [← filling.pending] at member
  obtain ⟨entry, inside, rfl⟩ := mem_map.mp member
  exact running entry inside

end

end Bsd.Util.ThreadPool
