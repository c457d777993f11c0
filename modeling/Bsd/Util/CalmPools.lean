import Mathlib.Data.Multiset.AddSub
import Bsd.Util.PoolProgress

/-!
# Pools whose items do not throw

Where no item throws of its own accord, `enqueue` never refuses an item, and what the
threads are, who waits and which flags are set does not matter any more. A pool is then a
multiset of items in the queue and a multiset of items that are running, and any of them
may go on at any time.
-/

namespace Bsd.Util.ThreadPool

open List Config Relation

variable {Job Local State Error : Type} {code : Code Job Local State Error} {maxThreads : Nat}
  {config next : Config Job Local State Error}

def Caller.submitAll (refused : Caller Job) : List Job → Caller Job
  | [] => .process
  | job :: rest => .enqueue job (submitAll refused rest) refused

def Caller.jobs : Caller Job → List Job
  | .process => []
  | .abandon => []
  | .enqueue job next _ => job :: next.jobs

@[simp] theorem submit_all_jobs (refused : Caller Job) (jobs : List Job) :
    (Caller.submitAll refused jobs).jobs = jobs := by
  induction jobs with
  | nil => rfl
  | cons job rest ih => rw [Caller.submitAll, Caller.jobs, ih]

structure Load (Job Local State : Type) where
  state : State
  unsubmitted : List Job
  jobs : Multiset Job
  items : Multiset Local

inductive LoadStep (code : Code Job Local State Error) :
    Load Job Local State → Load Job Local State → Prop where
  | submit (state : State) (job : Job) (rest : List Job) (jobs : Multiset Job) (items : Multiset Local) :
      LoadStep code ⟨state, job :: rest, jobs, items⟩ ⟨state, rest, job ::ₘ jobs, items⟩
  | take (state : State) (unsubmitted : List Job) (job : Job) (jobs : Multiset Job)
      (items : Multiset Local) :
      LoadStep code ⟨state, unsubmitted, job ::ₘ jobs, items⟩
        ⟨state, unsubmitted, jobs, code.start job ::ₘ items⟩
  | finish {state : State} {item : Local} (unsubmitted : List Job) (jobs : Multiset Job)
      (items : Multiset Local) (offered : .finish ∈ code.actions item state) :
      LoadStep code ⟨state, unsubmitted, jobs, item ::ₘ items⟩ ⟨state, unsubmitted, jobs, items⟩
  | abort {state : State} {item : Local} (unsubmitted : List Job) (jobs : Multiset Job)
      (items : Multiset Local) (offered : .abort ∈ code.actions item state) :
      LoadStep code ⟨state, unsubmitted, jobs, item ::ₘ items⟩ ⟨state, [], jobs, item ::ₘ items⟩
  | enqueue {state : State} {item next refused : Local} {job : Job} (unsubmitted : List Job)
      (jobs : Multiset Job) (items : Multiset Local)
      (offered : .enqueue job next refused ∈ code.actions item state) :
      LoadStep code ⟨state, unsubmitted, jobs, item ::ₘ items⟩
        ⟨state, unsubmitted, job ::ₘ jobs, next ::ₘ items⟩
  | checkInterrupt {state : State} {item next interrupted : Local} (unsubmitted : List Job)
      (jobs : Multiset Job) (items : Multiset Local)
      (offered : .checkInterrupt next interrupted ∈ code.actions item state) :
      LoadStep code ⟨state, unsubmitted, jobs, item ::ₘ items⟩
        ⟨state, unsubmitted, jobs, next ::ₘ items⟩
  | proceed {state after : State} {item next : Local} (unsubmitted : List Job) (jobs : Multiset Job)
      (items : Multiset Local) (offered : .proceed after next ∈ code.actions item state) :
      LoadStep code ⟨state, unsubmitted, jobs, item ::ₘ items⟩
        ⟨after, unsubmitted, jobs, next ::ₘ items⟩

def Thread.item (thread : Thread Local Error) : Option Local :=
  match thread.place with
  | .running _ item => some item
  | _ => none

def runningItems (threads : Threads Local Error) : Multiset Local :=
  threads.filterMap Thread.item

def Phase.unsubmitted : Phase Job Error → List Job
  | .calling caller => caller.jobs
  | _ => []

def Config.load (config : Config Job Local State Error) : Load Job Local State where
  state := config.shared.state
  unsubmitted := config.phase.unsubmitted
  jobs := config.shared.pending.map Prod.snd
  items := runningItems config.threads

@[simp] theorem wake_item (thread : Thread Local Error) : thread.wake.item = thread.item := by
  unfold Thread.wake
  cases at_ : thread.place with
  | waiting => simp only [Thread.item, Thread.moveTo, at_]
  | _ => rfl

theorem items_notify_all (threads : Threads Local Error) :
    runningItems (notifyAll threads) = runningItems threads := by
  rw [runningItems, notifyAll, filterMap_map]
  congr 2
  exact funext wake_item

theorem items_swap (before after : Threads Local Error) {left right : Thread Local Error}
    (same : left.item = right.item) :
    runningItems (before ++ left :: after) = runningItems (before ++ right :: after) := by
  simp [runningItems, filterMap_cons, same]

variable {threads : Threads Local Error} {woken : Threads Local Error}

theorem items_notified_one
    (notified : NotifiedOne threads woken) : runningItems woken = runningItems threads := by
  cases notified with
  | none => rfl
  | one before after thread => exact items_swap before after (wake_item thread)

variable {shared : Shared Job State Error}

theorem items_spawn (threads : Threads Local Error) :
    runningItems (spawn maxThreads shared threads) = runningItems threads := by
  unfold spawn
  split
  · rw [runningItems, filterMap_append]
    exact congrArg _ (append_nil _)
  · rfl

variable {thread : Thread Local Error} {item : Local}

theorem items_cons (before after : Threads Local Error) (runs : thread.item = some item) :
    runningItems (before ++ thread :: after) = item ::ₘ runningItems (before ++ after) := by
  simp only [runningItems, filterMap_append, filterMap_cons, runs]
  exact Multiset.coe_eq_coe.mpr perm_middle

theorem items_skip (before after : Threads Local Error) (idle : thread.item = none) :
    runningItems (before ++ thread :: after) = runningItems (before ++ after) := by
  simp [runningItems, idle]

theorem pushed_jobs (shared : Shared Job State Error) (job : Job) :
    ((shared.push job).pending.map Prod.snd : Multiset Job) =
      job ::ₘ (shared.pending.map Prod.snd : Multiset Job) := by
  rw [Shared.push, map_append]
  exact Multiset.coe_eq_coe.mpr (perm_append_singleton _ _)

theorem mem_running_items : item ∈ runningItems threads ↔
      ∃ thread ∈ threads, ∃ ticket, thread.place = .running ticket item := by
  rw [runningItems, Multiset.mem_coe, mem_filterMap]
  refine exists_congr fun thread => and_congr_right fun _ => ?_
  unfold Thread.item
  cases at_ : thread.place with
  | running ticket other =>
    constructor
    · intro same
      cases same
      exact ⟨ticket, rfl⟩
    · rintro ⟨number, same⟩
      cases same
      rfl
  | _ => exact ⟨nofun, nofun⟩

variable {ticket : Nat}

theorem load_of_running (member : thread ∈ config.threads)
    (runs : thread.place = .running ticket item) :
    ∃ rest, config.load = ⟨config.shared.state, config.phase.unsubmitted,
      config.shared.pending.map Prod.snd, item ::ₘ rest⟩ := by
  obtain ⟨rest, isItems⟩ := Multiset.exists_cons_of_mem
    (mem_running_items.mpr ⟨thread, member, ticket, runs⟩)
  refine ⟨rest, ?_⟩
  rw [← isItems]
  rfl

theorem unblocked_of_items (offers : ∀ item ∈ runningItems config.threads,
    ∃ other ∈ runningItems config.threads, code.actions other config.shared.state ≠ []) :
    Unblocked code config := by
  rintro ⟨thread, inside, has⟩
  unfold Thread.ticket at has
  split at has
  next ticket item runs =>
    obtain ⟨other, member, acts⟩ :=
      offers item (mem_running_items.mpr ⟨thread, inside, ticket, runs⟩)
    obtain ⟨holder, among, number, isRunning⟩ := mem_running_items.mp member
    exact ⟨holder, among, number, other, isRunning, acts⟩
  · cases has

/-- The places that an item only comes to when it was refused or interrupted are bad, and
the jobs that it enqueues are legal. -/
def CalmAction (legal : Job → Prop) (bad : Local → Prop) : Action Job Local State Error → Prop
  | .throw _ => False
  | .enqueue job next _ => legal job ∧ ¬bad next
  | .checkInterrupt next _ => ¬bad next
  | .proceed _ next => ¬bad next
  | _ => True

structure Calm (code : Code Job Local State Error) (legal : Job → Prop) (bad : Local → Prop) :
    Prop where
  start : ∀ job, legal job → ¬bad (code.start job)
  step : ∀ item state action, ¬bad item → action ∈ code.actions item state →
    CalmAction legal bad action

def CalmThread (bad : Local → Prop) (thread : Thread Local Error) : Prop :=
  thread.exc = none ∧ ∀ item, thread.item = some item → ¬bad item

structure CalmConfig (legal : Job → Prop) (bad : Local → Prop) (refused : Caller Job)
    (config : Config Job Local State Error) : Prop where
  threads : ∀ thread ∈ config.threads, CalmThread bad thread
  pending : ∀ entry ∈ config.shared.pending, legal entry.2
  unsubmitted : ∀ job ∈ config.phase.unsubmitted, legal job
  fine : config.shared.exception = none
  calling : ∀ caller, config.phase = .calling caller → ∃ jobs, caller = .submitAll refused jobs
  kept : config.phase ≠ .abandoned

section CalmSteps

variable {legal : Job → Prop} {bad : Local → Prop} {refused : Caller Job}

theorem calm_wake (calm : CalmThread bad thread) : CalmThread bad thread.wake := by
  refine ⟨?_, ?_⟩
  · exact (congrArg View.exc (wake_view thread)).trans calm.1
  · rw [wake_item]
    exact calm.2

theorem calm_enqueue (calm : ∀ thread ∈ threads, CalmThread bad thread)
    (notified : NotifiedOne (spawn maxThreads shared threads) woken) :
    ∀ thread ∈ woken, CalmThread bad thread := by
  have spawned : ∀ thread ∈ spawn maxThreads shared threads, CalmThread bad thread := by
    unfold spawn
    split
    · exact forall_mem_append.mpr ⟨calm, forall_mem_singleton.mpr ⟨rfl, nofun⟩⟩
    · exact calm
  generalize spawn maxThreads shared threads = all at notified spawned
  cases notified with
  | none => exact spawned
  | one before after thread => exact all_swap spawned (calm_wake (spawned thread selected_mem))

section

variable (owned : Owned config) (calm : CalmConfig legal bad refused config)

include owned calm

theorem calm_quit (quit : config.shared.quit = true) :
    config.shared.pending = [] ∧ runningItems config.threads = 0 ∧
      config.shared.draining = true := by
  obtain failed | ⟨queue, idle, draining⟩ := owned.safe.quitWhy quit
  · rw [calm.fine] at failed
    cases failed
  refine ⟨queue, ?_, draining⟩
  rw [Multiset.eq_zero_iff_forall_notMem]
  intro item member
  obtain ⟨thread, inside, ticket, runs⟩ := mem_running_items.mp member
  rw [owned.safe.active, countP_eq_zero] at idle
  apply idle thread inside
  rw [Thread.isBusy, runs]

theorem calm_item_open (member : thread ∈ config.threads)
    (runs : thread.place = .running ticket item) : config.shared.quit = false := by
  rw [← Bool.not_eq_true]
  intro quit
  have running := mem_running_items.mpr ⟨thread, member, ticket, runs⟩
  rw [(calm_quit owned calm quit).2.1] at running
  exact absurd running (Multiset.notMem_zero item)

end

variable {caller : Caller Job}

theorem legal_push {job : Job} (pending : ∀ entry ∈ shared.pending, legal entry.2)
    (isLegal : legal job) : ∀ entry ∈ (shared.push job).pending, legal entry.2 :=
  forall_mem_append.mpr ⟨pending, forall_mem_singleton.mpr isLegal⟩

/-- What one step of a calm pool does to its load. -/
def Follows (code : Code Job Local State Error) (legal : Job → Prop) (bad : Local → Prop)
    (refused : Caller Job)
    (config next : Config Job Local State Error) : Prop :=
  CalmConfig legal bad refused next ∧
    (next.load = config.load ∨ LoadStep code config.load next.load)

variable {after : Shared Job State Error} {all : Bool}

/-- What a thread that takes the mutex does to the load. -/
def TakesNext (code : Code Job Local State Error) (legal : Job → Prop) (bad : Local → Prop)
    (shared after : Shared Job State Error) (thread moved : Thread Local Error) : Prop :=
  after.exception = shared.exception ∧ (∀ entry ∈ after.pending, legal entry.2) ∧
    CalmThread bad moved ∧
    ∀ (before rest : Threads Local Error) (unsubmitted : List Job),
      (⟨after.state, unsubmitted, after.pending.map Prod.snd,
          runningItems (before ++ moved :: rest)⟩ : Load Job Local State) =
        ⟨shared.state, unsubmitted, shared.pending.map Prod.snd,
          runningItems (before ++ thread :: rest)⟩ ∨
      LoadStep code
        ⟨shared.state, unsubmitted, shared.pending.map Prod.snd,
          runningItems (before ++ thread :: rest)⟩
        ⟨after.state, unsubmitted, after.pending.map Prod.snd,
          runningItems (before ++ moved :: rest)⟩

variable {place : Place Local}

theorem Awaits.calm (awaits : Awaits code shared after place all) (calm : Calm code legal bad)
    (noExc : thread.exc = none) (idle : thread.item = none)
    (pending : ∀ entry ∈ shared.pending, legal entry.2) :
    TakesNext code legal bad shared after thread (thread.moveTo place) := by
  have skips : ∀ (other : Thread Local Error), other.item = none → ∀ before rest,
      runningItems (before ++ other :: rest) = runningItems (before ++ thread :: rest) :=
    fun other otherIdle before rest => items_swap before rest (otherIdle.trans idle.symm)
  cases awaits with
  | quits | drains | waits =>
    refine ⟨rfl, pending, ⟨noExc, nofun⟩, fun before rest unsubmitted => .inl ?_⟩
    rw [skips _ rfl]
  | @takes ticket job others open_ queue =>
    rw [queue] at pending
    refine ⟨rfl, fun entry member => pending entry (mem_cons_of_mem _ member),
      ⟨noExc, ?_⟩, fun before rest unsubmitted => .inr ?_⟩
    · intro item same
      cases same
      exact calm.start job (pending _ mem_cons_self)
    have runs : (thread.moveTo (.running ticket (code.start job))).item =
      some (code.start job) := rfl
    rw [items_skip before rest idle, items_cons before rest runs, queue, map_cons,
      ← Multiset.cons_coe]
    exact .take shared.state unsubmitted job _ _

section

variable (calm : Calm code legal bad)

include calm

theorem calm_loop_top (noExc : thread.exc = none)
    (pending : ∀ entry ∈ shared.pending, legal entry.2)
    (section_ : shared.loopTop code thread = some (after, place, all)) :
    TakesNext code legal bad shared after thread (thread.moveTo place) := by
  obtain ⟨between, first, second, at_, finishes, awaits, _⟩ | ⟨at_, awaits⟩ :=
    loop_top_cases section_
  · have idle : thread.item = none := by rw [Thread.item, at_]
    rw [noExc] at finishes
    cases finishes with
    | ends => exact awaits.calm calm noExc idle pending
  · have idle : thread.item = none := by
      obtain at_ | at_ := at_ <;> rw [Thread.item, at_]
    exact awaits.calm calm noExc idle pending

theorem calm_item_step (owned : Owned config) (calmConfig : CalmConfig legal bad refused config)
    {before after : Threads Local Error} {action : Action Job Local State Error}
    (selected : config.threads = before ++ thread :: after)
    (runs : thread.place = .running ticket item)
    (offered : action ∈ code.actions item config.shared.state)
    (acted : ItemStep maxThreads before after thread ticket config action next) :
    Follows code legal bad refused config next := by
  have member : thread ∈ config.threads := selected ▸ selected_mem
  have isItem : thread.item = some item := by rw [Thread.item, runs]
  have calmThread := calmConfig.threads thread member
  have open_ := calm_item_open owned calmConfig member runs
  have calmAction := calm.step item config.shared.state action (calmThread.2 item isItem) offered
  have others : ∀ {other : Thread Local Error}, CalmThread bad other →
      ∀ each ∈ before ++ other :: after, CalmThread bad each := by
    intro other calmOther
    have all := calmConfig.threads
    rw [selected] at all
    exact all_swap all calmOther
  have goesOn : ∀ {item : Local}, ¬bad item →
      CalmThread bad (thread.moveTo (.running ticket item)) := by
    intro item good
    refine ⟨calmThread.1, fun other same => ?_⟩
    cases same
    exact good
  have loaded : config.load = ⟨config.shared.state, config.phase.unsubmitted,
      config.shared.pending.map Prod.snd, item ::ₘ runningItems (before ++ after)⟩ := by
    rw [load, selected, items_cons before after isItem]
  have moved : ∀ item, runningItems (before ++ thread.moveTo (.running ticket item) :: after) =
      item ::ₘ runningItems (before ++ after) := fun item => items_cons before after rfl
  cases acted with
  | finish =>
    refine ⟨{ calmConfig with threads := others ⟨calmThread.1, nofun⟩ }, .inr ?_⟩
    have ended : runningItems (before ++ thread.moveTo (.head true) :: after) =
        runningItems (before ++ after) := items_skip before after rfl
    rw [loaded, load]
    rw [ended]
    exact .finish _ _ _ offered
  | throw => exact calmAction.elim
  | abort =>
    refine ⟨{ calmConfig with unsubmitted := nofun, calling := nofun, kept := nofun }, .inr ?_⟩
    rw [loaded, load]
    rw [selected, items_cons before after isItem]
    exact .abort _ _ _ offered
  | enqueue job other refused open_ notified =>
    refine ⟨{ calmConfig with
      threads := calm_enqueue (others (goesOn calmAction.2)) notified
      pending := legal_push calmConfig.pending calmAction.1 }, .inr ?_⟩
    rw [loaded, load]
    rw [items_notified_one notified, items_spawn, moved, pushed_jobs]
    exact .enqueue _ _ _ offered
  | refuse job other refused quit => cases open_.symm.trans quit
  | checkInterrupt other interrupted =>
    have stays : (if (!thread.mainThread && config.shared.quit) = true then interrupted
        else other) = other := by
      rw [open_, Bool.and_false, if_neg Bool.false_ne_true]
    rw [stays]
    refine ⟨{ calmConfig with threads := others (goesOn calmAction) }, .inr ?_⟩
    rw [loaded, load]
    rw [moved]
    exact .checkInterrupt _ _ _ offered
  | proceed state other =>
    refine ⟨{ calmConfig with threads := others (goesOn calmAction) }, .inr ?_⟩
    rw [loaded, load]
    rw [moved]
    exact .proceed _ _ _ offered

theorem calm_step (owned : Owned config) (calmConfig : CalmConfig legal bad refused config)
    (step : Step code maxThreads config next) : Follows code legal bad refused config next := by
  have notFailing : ∀ {error}, config.phase.failure ≠ some error := by
    intro error failing
    cases calmConfig.fine.symm.trans (owned.failing error failing)
  cases step with
  | submit job caller refused_ calling open_ notified =>
    obtain ⟨jobs, isCaller⟩ := calmConfig.calling _ calling
    cases jobs with
    | nil => cases isCaller
    | cons first rest =>
      cases isCaller
      have legalJobs := calmConfig.unsubmitted
      rw [calling] at legalJobs
      refine ⟨⟨calm_enqueue calmConfig.threads notified,
        legal_push calmConfig.pending (legalJobs _ mem_cons_self),
        fun job member => legalJobs job (mem_cons_of_mem _ member), calmConfig.fine, ?_,
        nofun⟩, .inr ?_⟩
      · intro caller same
        cases same
        exact ⟨rest, rfl⟩
      · rw [load, load]
        rw [items_notified_one notified, items_spawn, calling, pushed_jobs]
        exact .submit _ _ _ _ _
  | refuse job caller refused_ calling quit =>
    have draining := (calm_quit owned calmConfig quit).2.2
    rw [owned.before (calling ▸ rfl)] at draining
    cases draining
  | abandon calling =>
    obtain ⟨jobs, isCaller⟩ := calmConfig.calling _ calling
    cases jobs <;> cases isCaller
  | process calling =>
    refine ⟨⟨?_, calmConfig.pending, nofun, calmConfig.fine, nofun, nofun⟩, .inl ?_⟩
    · exact forall_mem_append.mpr ⟨calmConfig.threads, forall_mem_singleton.mpr ⟨rfl, nofun⟩⟩
    · rw [load, load, calling, runningItems, filterMap_append]
      exact congrArg (Load.mk _ _ _) (congrArg _ (append_nil _))
  | loopTop before after thread selected section_ =>
    have member : thread ∈ config.threads := selected ▸ selected_mem
    obtain ⟨sameException, pending, calmThread, loads⟩ := calm_loop_top calm
      (calmConfig.threads thread member).1 calmConfig.pending section_
    have all := calmConfig.threads
    rw [selected] at all
    have others := all_swap all calmThread
    refine ⟨{ calmConfig with
      threads := ?_, pending := pending, fine := sameException.trans calmConfig.fine }, ?_⟩
    · split
      · intro thread member
        obtain ⟨other, inside, rfl⟩ := mem_map.mp member
        exact calm_wake (others other inside)
      · exact others
    rw [load, load, selected]
    split
    · rw [items_notify_all]
      exact loads before after config.phase.unsubmitted
    · exact loads before after config.phase.unsubmitted
  | assertActive before after thread selected worked idle =>
    exact absurd idle (owned.active_ne_zero selected worked)
  | item before after thread selected runs offered acted =>
    exact calm_item_step calm owned calmConfig selected runs offered acted
  | assertQuit thread processing member isMain ended open_ =>
    exact absurd (owned.safe.returnedQuits thread member ended) (Bool.eq_false_iff.mp open_)
  | succeed thread processing =>
    refine ⟨{ calmConfig with unsubmitted := nofun, calling := nofun, kept := nofun }, .inl ?_⟩
    rw [load, load, processing]
    rfl
  | rethrow thread error processing member isMain ended quit failed =>
    cases calmConfig.fine.symm.trans failed
  | shutdown error rethrowing => exact absurd (congrArg Phase.failure rethrowing) notFailing
  | notify error notifying => exact absurd (congrArg Phase.failure notifying) notFailing
  | join error joining => exact absurd (congrArg Phase.failure joining) notFailing

omit calm in
theorem calm_spurious (calmConfig : CalmConfig legal bad refused config) (wakes : Spurious config next) :
    CalmConfig legal bad refused next ∧ next.load = config.load := by
  cases wakes with
  | wake before after thread selected =>
    have all := calmConfig.threads
    rw [selected] at all
    refine ⟨{ calmConfig with threads := all_swap all (calm_wake (all thread selected_mem)) }, ?_⟩
    rw [Config.load, Config.load, selected]
    rw [items_swap before after (wake_item thread)]

variable {state : State}

/-- Every run of a calm pool is a run of its load. -/
theorem calm_continues (reached : Reached code maxThreads caller state config)
    (calmConfig : CalmConfig legal bad refused config)
    (later : ReflTransGen (Moves code maxThreads) config next) :
    CalmConfig legal bad refused next ∧
      ReflTransGen (LoadStep code) config.load next.load := by
  induction later with
  | refl => exact ⟨calmConfig, .refl⟩
  | tail earlier moves ih =>
    obtain ⟨calmLast, loads⟩ := ih
    obtain step | wakes := moves
    · obtain ⟨calmNext, same | stepped⟩ :=
        calm_step calm (owned_reached (reached.trans earlier)) calmLast step
      · exact ⟨calmNext, same ▸ loads⟩
      · exact ⟨calmNext, loads.tail stepped⟩
    · obtain ⟨calmNext, same⟩ := calm_spurious calmLast wakes
      exact ⟨calmNext, same ▸ loads⟩

theorem calm_reached {jobs : List Job} (legalJobs : ∀ job ∈ jobs, legal job)
    (reached : Reached code maxThreads (.submitAll refused jobs) state config) :
    CalmConfig legal bad refused config ∧
      ReflTransGen (LoadStep code) ⟨state, jobs, 0, 0⟩ config.load := by
  have start : CalmConfig legal bad refused
      (initial (.submitAll refused jobs) state : Config Job Local State Error) := by
    refine ⟨nofun, nofun, ?_, rfl, ?_, nofun⟩
    · intro job member
      rw [initial, Phase.unsubmitted, submit_all_jobs] at member
      exact legalJobs job member
    · intro caller same
      cases same
      exact ⟨jobs, rfl⟩
  have load : (initial (.submitAll refused jobs) state : Config Job Local State Error).load =
      ⟨state, jobs, 0, 0⟩ := by
    rw [load, initial, Phase.unsubmitted, submit_all_jobs]
    rfl
  exact load ▸ calm_continues calm .refl start reached

end

section

variable (owned : Owned config) (calmConfig : CalmConfig legal bad refused config)

include owned calmConfig

theorem calm_returned (returned : config.phase = .returned) :
    config.load = ⟨config.shared.state, [], 0, 0⟩ := by
  obtain ⟨queue, items, _⟩ := calm_quit owned calmConfig (owned.succeeded returned).1
  rw [load, queue, items, returned]
  rfl

theorem calm_over
    (ended : config.phase.isOver = true) : config.phase = .returned ∨ config.phase = .aborted := by
  cases phase : config.phase with
  | returned => exact .inl rfl
  | aborted => exact .inr rfl
  | abandoned => exact absurd phase calmConfig.kept
  | threw error => cases calmConfig.fine.symm.trans (owned.failing error (phase ▸ rfl))
  | _ =>
    rw [phase] at ended
    cases ended

end

end CalmSteps

end Bsd.Util.ThreadPool
