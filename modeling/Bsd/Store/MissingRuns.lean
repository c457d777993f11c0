import Bsd.Store.MissingSteps
import Bsd.Util.PoolSchedules

/-!
# Runs of queryMissing

When no item is left, everything that is owed has been done, and the results are those of
the requests that come up.
-/

namespace Bsd.Store.QueryMissing

open Multiset Lib.Occurrences Lib.OrdMap Util.ThreadPool Store.Path Relation
open Store.ContentAddresses
open Store.DerivedPaths Store.Realisations

variable {queries : Queries} {targets : List DerivedPath} {sure : DerivedPath → Prop}
  {state : State}
  {unsubmitted : List Job} {jobs : Multiset Job} {item : ItemPlace} {rest : Multiset ItemPlace}

variable {drvPath outPath : StorePath} {index : Nat}

theorem Good.left_ne_zero
    (good : Good queries targets sure ⟨state, unsubmitted, jobs, .countDown drvPath outPath index ::ₘ rest⟩) :
    (state.drvStates index).left ≠ 0 := by
  obtain ⟨inside, _, wanted, fresh⟩ := good.outstanding.about drvPath outPath index
    (mem_todo_cons.mpr (.inl (mem_singleton_self _)))
  have old := good.drvs index inside
  dsimp only at wanted fresh old
  have counted := old.counted
  have fewer := Finset.card_le_card (Finset.insert_subset wanted old.within)
  rw [Finset.card_insert_of_notMem fresh] at fewer
  omega

variable {action : QueryAction}

section

variable (queries state)

inductive Offers : ItemPlace → QueryAction → Prop
  | seenPath {req : DerivedPath} (seen : req.toString queries.config ∈ state.done) :
      Offers (.doPath req) (.proceed state .done)
  | newPath {req : DerivedPath} (fresh : req.toString queries.config ∉ state.done) :
      Offers (.doPath req)
        (.proceed (state.insertDone (req.toString queries.config)) (follow queries req))
  | insertUnknown {path : _} :
      Offers (.insertUnknown path) (.proceed (state.insertUnknown path) .done)
  | insertSubstitute {path info : _} : Offers (.insertSubstitute path info)
        (.proceed (state.insertSubstitute path info) (.enqueue (opaqueJobs info.references) none))
  | mustBuildDrv {drvPath : _} : Offers (.mustBuildDrv drvPath)
        (.proceed (state.insertBuild drvPath) (.enqueue (inputJobs queries drvPath) none))
  | makeDrvState {drvPath invalid : _} :
      Offers (.makeDrvState drvPath invalid) (.proceed (state.makeDrvState drvPath invalid)
          (.enqueue (outputJobs drvPath invalid state.created) none))
  | checkDone {drvPath outPath index : _} (isDone : (state.drvStates index).done = true) :
      Offers (.checkOutput drvPath outPath index) (.proceed state .done)
  | checkOutput {drvPath outPath index : _} :
      Offers (.checkOutput drvPath outPath index) (.proceed state (.query drvPath outPath index))
  | unable {drvPath outPath index : _} (missing : outputInfo queries drvPath outPath = none) :
      Offers (.query drvPath outPath index) (.proceed state (.giveUp drvPath index))
  | able {drvPath outPath index info : _} (found : outputInfo queries drvPath outPath = some info) :
      Offers (.query drvPath outPath index) (.proceed state (.countDown drvPath outPath index))
  | giveUp {drvPath index : _} :
      Offers (.giveUp drvPath index) (.proceed (state.giveUp index) (.mustBuildDrv drvPath))
  | countDone {drvPath outPath index : _} (isDone : (state.drvStates index).done = true) :
      Offers (.countDown drvPath outPath index) (.proceed state .done)
  | countAbort {drvPath outPath index : _} (isZero : (state.drvStates index).left = 0) :
      Offers (.countDown drvPath outPath index) .abort
  | countLast {drvPath outPath index : _} (undone : ¬(state.drvStates index).done = true)
      (last : ((state.countDown index outPath).drvStates index).left = 0) :
      Offers (.countDown drvPath outPath index)
        (.proceed ((state.countDown index outPath).setLocked index true)
          (.enqueue (opaqueJobs ((state.countDown index outPath).drvStates index).outPaths)
            (some index)))
  | countMore {drvPath outPath index : _} (undone : ¬(state.drvStates index).done = true)
      (more : ((state.countDown index outPath).drvStates index).left ≠ 0) :
      Offers (.countDown drvPath outPath index) (.proceed (state.countDown index outPath) .done)
  | enqueued : Offers (.enqueue [] none) .finish
  | release {index : _} :
      Offers (.enqueue [] (some index)) (.proceed (state.setLocked index false) .done)
  | enqueue {job jobs held : _} :
      Offers (.enqueue (job :: jobs) held) (.enqueue job (.enqueue jobs held) (.unwind held))
  | unwind {held after error : _} (same : after.done = state.done) :
      Offers (.unwind held) (.proceed after (.failing error))
  | failing {error : _} : Offers (.failing error) (.throw error)
  | done : Offers .done .finish

end

theorem offers_of_mem (offered : action ∈ actions queries item state) :
    Offers queries state item action := by
  unfold actions at offered
  split at offered
  case h_9 =>
    split at offered
    · cases offered
    unfold countActions at offered
    dsimp only at offered
    repeat' split at offered
    all_goals
      cases List.mem_singleton.mp offered
      constructor <;> assumption
  all_goals
    repeat' split at offered
    all_goals cases offered <;> first | contradiction | constructor <;> first | assumption | rfl

theorem Good.count_last
    (good : Good queries targets sure ⟨state, unsubmitted, jobs, .countDown drvPath outPath index ::ₘ rest⟩)
    (undone : ¬(state.drvStates index).done = true)
    (last : ((state.countDown index outPath).drvStates index).left = 0) :
    Good queries targets sure ⟨(state.countDown index outPath).setLocked index true, unsubmitted, jobs,
      .enqueue (opaqueJobs ((state.countDown index outPath).drvStates index).outPaths)
        (some index) ::ₘ rest⟩ := by
  have counted : (state.countDown index outPath).drvStates index = { state.drvStates index with
      left := (state.drvStates index).left - 1
      outPaths := insert outPath (state.drvStates index).outPaths } := set_drv_same _ _ _
  have both : (state.countDown index outPath).setLocked index true =
      state.setDrv index { state.drvStates index with
        left := (state.drvStates index).left - 1
        outPaths := insert outPath (state.drvStates index).outPaths
        locked := true } := by
    rw [State.setLocked, counted, State.countDown, State.setDrv, State.setDrv]
    rw [Function.update_idem]
    rfl
  rw [counted] at last ⊢
  rw [both]
  exact good.countDown (Bool.eq_false_iff.mpr undone) good.left_ne_zero (.all last)

def Allowed (queries : Queries) (targets : List DerivedPath) (sure : DerivedPath → Prop)
    (unsubmitted : List Job) (jobs : Multiset Job) (rest : Multiset ItemPlace) (state : State) :
    QueryAction → Prop
  | .finish => Good queries targets sure ⟨state, unsubmitted, jobs, rest⟩
  | .throw _ => False
  | .abort => False
  | .enqueue job next _ => Good queries targets sure ⟨state, unsubmitted, job ::ₘ jobs, next ::ₘ rest⟩
  | .checkInterrupt _ _ => False
  | .proceed after next => Good queries targets sure ⟨after, unsubmitted, jobs, next ::ₘ rest⟩

theorem Good.unable
    (good : Good queries targets sure ⟨state, unsubmitted, jobs, .query drvPath outPath index ::ₘ rest⟩)
    (missing : outputInfo queries drvPath outPath = none) :
    Good queries targets sure ⟨state, unsubmitted, jobs, .giveUp drvPath index ::ₘ rest⟩ := by
  have unable : ¬Substitutable queries drvPath outPath := by
    rw [Substitutable, missing]
    exact Bool.false_ne_true
  obtain ⟨inside, isDrv, wanted, _⟩ := good.outstanding.about drvPath outPath index
    (mem_todo_cons.mpr (.inl (mem_singleton_self _)))
  exact good.dropOutput rfl rfl (fun _ => trivial)
    ⟨inside, isDrv, fun all => unable (all outPath wanted)⟩ nofun rfl fun _ => .inr ⟨rfl, unable⟩

/-- A text that was not seen yet is not that of a request with other consequences. -/
def Certain (queries : Queries) (targets : List DerivedPath) (sure : DerivedPath → Prop)
    (state : State) : Prop :=
  ∀ req other, Asked queries targets req → req.toString queries.config ∉ state.done → sure other →
    other.toString queries.config = req.toString queries.config →
    plan queries other = plan queries req

theorem Good.allowed (never : NeverThrows queries targets)
    (certain : Certain queries targets sure state)
    (good : Good queries targets sure ⟨state, unsubmitted, jobs, item ::ₘ rest⟩)
    (offered : action ∈ actions queries item state) :
    Allowed queries targets sure unsubmitted jobs rest state action := by
  cases offers_of_mem offered with
  | seenPath seen => exact good.seenPath seen
  | @newPath req fresh =>
    have asked := good.asked req (mem_todo_cons.mpr (.inl (mem_singleton_self _)))
    exact good.newPath never fresh fun other => certain req other asked fresh
  | insertUnknown => exact good.insertUnknown
  | insertSubstitute => exact good.insertSubstitute
  | mustBuildDrv => exact good.mustBuildDrv
  | makeDrvState => exact good.makeDrvState
  | checkDone isDone | countDone isDone =>
    exact good.dropOutput rfl rfl (fun _ => trivial) trivial nofun rfl fun _ => .inl isDone
  | checkOutput => exact good.handOn rfl (fun _ => trivial) trivial nofun rfl
  | unable missing => exact good.unable missing
  | able found => exact good.handOn rfl (fun _ => trivial) (Option.isSome_of_eq_some found) nofun rfl
  | giveUp => exact good.giveUp
  | countAbort isZero => exact good.left_ne_zero isZero
  | countLast undone last => exact good.count_last undone last
  | countMore undone more =>
    rw [State.countDown, set_drv_same] at more
    exact good.countDown (Bool.eq_false_iff.mpr undone) good.left_ne_zero (.some more)
  | enqueued => exact good.finish (.inr rfl)
  | release => exact good.release
  | enqueue => exact good.enqueue
  | unwind | failing => exact (good.places _ (mem_cons_self _ _)).elim
  | done => exact good.finish (.inl rfl)

variable {before after : QueryLoad}

theorem good_step (never : NeverThrows queries targets)
    (certain : Certain queries targets sure before.state) (good : Good queries targets sure before)
    (step : LoadStep (queryCode queries) before after) : Good queries targets sure after := by
  cases step with
  | submit => exact good.submit
  | take => exact good.take
  | finish _ _ _ offered | enqueue _ _ _ offered | proceed _ _ _ offered =>
    exact good.allowed never certain offered
  | abort _ _ _ offered | checkInterrupt _ _ _ offered =>
    exact (good.allowed never certain offered).elim

theorem good_start (queries : Queries) (targets : List DerivedPath) (sure : DerivedPath → Prop) :
    Good queries targets sure ⟨startState, targets.map .doPath, 0, 0⟩ := by
  have isTodo : todo ⟨startState, targets.map .doPath, 0, 0⟩ = (targets.map .doPath : List Job) := by
    simp [todo]
  have only : ∀ job ∈ todo ⟨startState, targets.map .doPath, 0, 0⟩,
      ∃ req ∈ targets, .doPath req = job := by
    intro job member
    rw [isTodo] at member
    exact List.mem_map.mp (mem_coe.mp member)
  have noDrvs : startState.created = 0 := rfl
  refine ⟨?_, ?_, by simp, fun req _ seen => absurd seen (Finset.notMem_empty _),
    ⟨by simp [startState], by simp [startState], by simp [startState]⟩, ⟨?_, ?_⟩, by simp [noDrvs],
    ⟨nodup_zero, by simp [startState], rfl, rfl⟩⟩
  · intro req member
    refine .inr ?_
    rw [isTodo]
    exact List.mem_map_of_mem member
  · intro req member
    obtain ⟨_, inside, ⟨⟩⟩ := only _ member
    exact .target inside
  · intro drvPath outPath index member
    obtain ⟨_, _, ⟨⟩⟩ := only _ member
  · intro drvPath outPath index
    rw [count_eq_zero_of_notMem]
    · exact Nat.zero_le _
    · intro member
      obtain ⟨_, _, ⟨⟩⟩ := only _ member

/-- No other request that comes up has the text of this one and other consequences. -/
def Alone (queries : Queries) (targets : List DerivedPath) (req : DerivedPath) : Prop :=
  ∀ other, Asked queries targets other →
    req.toString queries.config = other.toString queries.config →
    plan queries req = plan queries other

theorem certain_alone (state : State) : Certain queries targets (Alone queries targets) state :=
  fun req _ asked _ alone same => alone req asked same

theorem good_reached (never : NeverThrows queries targets) {load : QueryLoad}
    (run : ReflTransGen (LoadStep (queryCode queries))
      ⟨startState, targets.map .doPath, 0, 0⟩ load) :
    Good queries targets (Alone queries targets) load := by
  induction run with
  | refl => exact good_start queries targets _
  | tail _ step ih => exact good_step never (certain_alone _) ih step

variable {req : DerivedPath}

section Ends

theorem settled_of_over (good : Good queries targets sure ⟨state, [], 0, 0⟩) (isSure : sure req)
    (seen : req.toString queries.config ∈ state.done) :
    Settled queries ⟨state, [], 0, 0⟩ (follow queries req) :=
  (good.duties req isSure seen).resolve_left (notMem_zero _)

theorem seen_of_started (started : Started queries ⟨state, [], 0, 0⟩ req) :
    req.toString queries.config ∈ state.done :=
  started.resolve_right (notMem_zero _)

section

variable (good : Good queries targets sure ⟨state, [], 0, 0⟩)

include good

theorem Good.checked (inside : index < state.created) :
    (AllSubstitutable queries (state.drvStates index).drvPath (state.drvStates index).outputs →
      ∀ outPath ∈ (state.drvStates index).outputs,
        Started queries ⟨state, [], 0, 0⟩ (.opaquePath outPath)) ∧
    (¬AllSubstitutable queries (state.drvStates index).drvPath (state.drvStates index).outputs →
      InputsStarted queries ⟨state, [], 0, 0⟩ (state.drvStates index).drvPath) := by
  have drv := good.drvs index inside
  dsimp only at drv
  refine ⟨fun all => ?_, fun notAll => ?_⟩
  · obtain started | ⟨left, each⟩ := drv.whole all
    · exact started
    have counted : (state.drvStates index).outputs ⊆ (state.drvStates index).outPaths :=
      fun outPath member => (each outPath member).resolve_right (notMem_zero _)
    have fewer := Finset.card_le_card counted
    have total := drv.counted
    omega
  · obtain owed | ⟨_, _, _, _, waits⟩ := drv.short notAll
    · have settled := owed.resolve_left (notMem_zero _)
      exact settled.resolve_left (notMem_zero _)
    · exact absurd waits (notMem_zero _)

theorem Good.achieved (isSure : sure req) (seen : req.toString queries.config ∈ state.done)
    {planned : Plan} (isPlan : plan queries req = .ok planned) :
    (∀ next, .doPath next ∈ planned.children queries → next.toString queries.config ∈ state.done) ∧
    (∀ drvPath, planned.builds queries = some drvPath → drvPath ∈ state.willBuild) := by
  have settled := settled_of_over good isSure seen
  rw [follow_ok isPlan] at settled
  cases planned with
  | nothing | unknown => exact ⟨by simp [Plan.children], by simp [Plan.builds]⟩
  | substitute path info =>
    refine ⟨fun next member => ?_, by simp [Plan.builds]⟩
    obtain ⟨reference, inside, rfl⟩ := do_path_mem_opaque_jobs.mp member
    exact seen_of_started (settled.2 reference inside)
  | build drvPath =>
    refine ⟨fun next member => ?_, fun other same => ?_⟩
    · exact seen_of_started (settled.2 next (do_path_mem_input_jobs.mp member))
    · cases same
      exact settled.1
  | check drvPath invalid =>
    obtain ⟨index, inside, rfl, rfl⟩ := settled
    obtain ⟨whole, short⟩ := good.checked inside
    by_cases all : AllSubstitutable queries (state.drvStates index).drvPath
        (state.drvStates index).outputs
    · rw [Plan.children, Plan.builds, if_pos all, if_pos all]
      refine ⟨fun next member => ?_, by simp⟩
      obtain ⟨outPath, wanted, rfl⟩ := do_path_mem_opaque_jobs.mp member
      exact seen_of_started (whole all outPath wanted)
    · rw [Plan.children, Plan.builds, if_neg all, if_neg all]
      refine ⟨fun next member => ?_, fun other same => ?_⟩
      · exact seen_of_started ((short all).2 next (do_path_mem_input_jobs.mp member))
      · cases same
        exact (short all).1

theorem Good.allSeen (all : ∀ req, Asked queries targets req → sure req)
    (asked : Asked queries targets req) : req.toString queries.config ∈ state.done := by
  induction asked with
  | target member => exact seen_of_started (good.begun _ member)
  | child asked isPlan member ih => exact (good.achieved (all _ asked) ih isPlan).1 _ member

end

structure Results (queries : Queries) (targets : List DerivedPath) (state : State) : Prop where
  unknown : ∀ path, path ∈ state.unknown ↔ Planned queries targets (.unknown path)
  willSubstitute : ∀ path, path ∈ state.willSubstitute ↔
    ∃ info, Planned queries targets (.substitute path info)
  willBuild : ∀ drvPath, drvPath ∈ state.willBuild ↔ Builds queries targets drvPath
  downloadSize : state.downloadSize =
    ∑ path ∈ state.willSubstitute, substitutedSize queries SubstitutablePathInfo.downloadSize path
  narSize : state.narSize =
    ∑ path ∈ state.willSubstitute, substitutedSize queries SubstitutablePathInfo.narSize path

theorem Good.results (good : Good queries targets sure ⟨state, [], 0, 0⟩)
    (all : ∀ req, Asked queries targets req → sure req) :
    Results queries targets state where
  unknown path := by
    refine ⟨good.sound.unknown path, ?_⟩
    rintro ⟨req, asked, isPlan⟩
    have settled := settled_of_over good (all req asked) (good.allSeen all asked)
    rw [follow_ok isPlan] at settled
    exact settled
  willSubstitute path := by
    refine ⟨good.sound.willSubstitute path, ?_⟩
    rintro ⟨info, req, asked, isPlan⟩
    have settled := settled_of_over good (all req asked) (good.allSeen all asked)
    rw [follow_ok isPlan] at settled
    exact settled.1
  willBuild drvPath := by
    refine ⟨good.sound.willBuild drvPath, ?_⟩
    rintro ⟨planned, ⟨req, asked, isPlan⟩, builds⟩
    exact (good.achieved (all req asked) (good.allSeen all asked) isPlan).2 drvPath builds
  downloadSize := good.fetching.downloadSize
  narSize := good.fetching.narSize

theorem Results.unique {left right : State} (first : Results queries targets left)
    (second : Results queries targets right) (given : Missing) :
    given.after left = given.after right := by
  have unknown : left.unknown = right.unknown :=
    Finset.ext fun path => (first.unknown path).trans (second.unknown path).symm
  have willSubstitute : left.willSubstitute = right.willSubstitute :=
    Finset.ext fun path => (first.willSubstitute path).trans (second.willSubstitute path).symm
  have willBuild : left.willBuild = right.willBuild :=
    Finset.ext fun path => (first.willBuild path).trans (second.willBuild path).symm
  rw [Missing.after, Missing.after, first.downloadSize, first.narSize, second.downloadSize,
    second.narSize, unknown, willSubstitute, willBuild]

end Ends

section

def SafePath (queries : Queries) (targets : List DerivedPath) (req : DerivedPath) : Prop :=
  Asked queries targets req ∨ ∃ path, req = .opaquePath path

def SafeInputs (queries : Queries) (targets : List DerivedPath) (drvPath : StorePath) : Prop :=
  ∀ req ∈ inputPaths (queries.derivationFromPath drvPath), Asked queries targets req

def SafeJob (queries : Queries) (targets : List DerivedPath) : Job → Prop
  | .doPath req => SafePath queries targets req
  | .checkOutput drvPath outPath _ =>
    Substitutable queries drvPath outPath ∨ SafeInputs queries targets drvPath

def SafePlace (queries : Queries) (targets : List DerivedPath) : ItemPlace → Prop
  | .doPath req => SafePath queries targets req
  | .mustBuildDrv drvPath => SafeInputs queries targets drvPath
  | .makeDrvState drvPath invalid => ∀ outPath ∈ invalid,
      Substitutable queries drvPath outPath ∨ SafeInputs queries targets drvPath
  | .checkOutput drvPath outPath _ =>
    Substitutable queries drvPath outPath ∨ SafeInputs queries targets drvPath
  | .query drvPath outPath _ =>
    Substitutable queries drvPath outPath ∨ SafeInputs queries targets drvPath
  | .giveUp drvPath _ => SafeInputs queries targets drvPath
  | .enqueue jobs _ => ∀ job ∈ jobs, SafeJob queries targets job
  | .unwind _ => False
  | .failing _ => False
  | _ => True

theorem safe_opaque_jobs (paths : Finset StorePath) :
    ∀ job ∈ opaqueJobs paths, SafeJob queries targets job := by
  intro job member
  obtain ⟨path, _, rfl⟩ := List.mem_map.mp member
  exact .inr ⟨path, rfl⟩

theorem Builds.safe (builds : Builds queries targets drvPath) :
    SafeInputs queries targets drvPath :=
  fun _ member => builds.inputs (do_path_mem_input_jobs.mpr member)

theorem follow_safe (never : NeverThrows queries targets) (safe : SafePath queries targets req) :
    SafePlace queries targets (follow queries req) := by
  obtain asked | ⟨path, rfl⟩ := safe
  · cases isPlan : plan queries req with
    | error error => exact absurd isPlan (never req error asked)
    | ok planned =>
      rw [follow_ok isPlan]
      cases planned with
      | build drvPath =>
        have builds : Builds queries targets drvPath := ⟨.build drvPath, ⟨req, asked, isPlan⟩, rfl⟩
        exact builds.safe
      | check drvPath invalid =>
        intro outPath member
        by_cases all : AllSubstitutable queries drvPath invalid
        · exact .inl (all outPath member)
        · have builds : Builds queries targets drvPath :=
            ⟨.check drvPath invalid, ⟨req, asked, isPlan⟩, if_neg all⟩
          exact .inr builds.safe
      | _ => trivial
  · rw [follow, plan]
    cases queries.isValidPath path with
    | true => trivial
    | false => cases queries.querySubstitutablePathInfo path none <;> trivial

theorem query_calm (never : NeverThrows queries targets) :
    Calm (queryCode queries) (SafeJob queries targets) fun place => ¬SafePlace queries targets place where
  start job safe := by
    rw [not_not]
    cases job <;> exact safe
  step item state action notBad isOffered := by
    have safe := not_not.mp notBad
    have goesOn : ∀ {after : State} {place : ItemPlace}, SafePlace queries targets place →
        CalmAction (SafeJob queries targets) (fun place => ¬SafePlace queries targets place)
          (.proceed after place : QueryAction) := fun placeSafe => not_not.mpr placeSafe
    cases offers_of_mem isOffered with
    | newPath => exact goesOn (follow_safe never safe)
    | @insertSubstitute _ info => exact goesOn (safe_opaque_jobs info.references)
    | mustBuildDrv =>
      refine goesOn fun job member => ?_
      obtain ⟨req, inside, rfl⟩ := List.mem_map.mp member
      exact .inl (safe req inside)
    | makeDrvState =>
      refine goesOn fun job member => ?_
      obtain ⟨outPath, inside, rfl⟩ := List.mem_map.mp member
      exact safe outPath ((Finset.mem_sort _).mp inside)
    | checkOutput | giveUp => exact goesOn safe
    | unable missing =>
      refine goesOn (safe.resolve_left ?_)
      rw [Substitutable, missing]
      exact Bool.false_ne_true
    | countLast => exact goesOn (safe_opaque_jobs _)
    | @enqueue job =>
      exact ⟨safe job List.mem_cons_self,
        not_not.mpr fun other member => safe other (List.mem_cons_of_mem _ member)⟩
    | countAbort | enqueued | done => trivial
    | unwind | failing => exact safe.elim
    | _ => exact goesOn trivial

def ItemPlace.needs : ItemPlace → Option Nat
  | .checkOutput _ _ index => some index
  | .giveUp _ index => some index
  | .countDown _ _ index => some index
  | _ => none

theorem actions_ne_nil (item : ItemPlace) {state : State}
    (free : ∀ index, item.needs = some index → (state.drvStates index).locked = false) :
    actions queries item state ≠ [] := by
  cases item with
  | checkOutput drvPath outPath index | giveUp drvPath index =>
    rw [actions, free index rfl]
    exact List.cons_ne_nil _ _
  | countDown drvPath outPath index =>
    rw [actions, free index rfl, if_neg Bool.false_ne_true]
    unfold countActions
    dsimp only
    repeat' split
    all_goals exact List.cons_ne_nil _ _
  | doPath req =>
    rw [actions]
    split <;> exact List.cons_ne_nil _ _
  | enqueue others held =>
    cases others with
    | nil => cases held <;> exact List.cons_ne_nil _ _
    | cons => exact List.cons_ne_nil _ _
  | unwind held => cases held <;> exact List.cons_ne_nil _ _
  | _ => exact List.cons_ne_nil _ _

abbrev QueryConfig := Config Job ItemPlace State QueryError

theorem Good.unblocked {config : QueryConfig} (good : Good queries targets sure config.load) :
    Unblocked (queryCode queries) config := by
  refine unblocked_of_items fun item member => ?_
  by_cases free : ∀ index, item.needs = some index →
      (config.shared.state.drvStates index).locked = false
  · exact ⟨item, member, actions_ne_nil item free⟩
  push Not at free
  obtain ⟨index, needs, locked⟩ := free
  have known : index < config.load.state.created := by
    have placeGood := good.places item member
    cases item with
    | giveUp drvPath other =>
      cases needs
      exact placeGood.1
    | checkOutput drvPath outPath other | countDown drvPath outPath other =>
      cases needs
      exact (good.outstanding.about drvPath outPath _ (mem_add.mpr (.inr
        (mem_bind.mpr ⟨_, member, mem_singleton_self _⟩)))).1
    | _ => cases needs
  obtain ⟨others, holder⟩ := (good.drvs index known).locks (Bool.eq_true_of_not_eq_false locked)
  exact ⟨_, holder, actions_ne_nil _ nofun⟩

end

section

theorem asked_finite (queries : Queries) (targets : List DerivedPath) :
    {req | Asked queries targets req}.Finite := by
  have inputs : (⋃ drvPath, {req | req ∈ inputPaths (queries.derivationFromPath drvPath)}).Finite :=
    Set.finite_iUnion fun drvPath => List.finite_toSet _
  refine (((List.finite_toSet targets).union (Set.finite_range DerivedPath.opaquePath)).union
    inputs).subset ?_
  intro req asked
  cases asked with
  | target member => exact .inl (.inl member)
  | child parent isPlan member =>
    have opaques : ∀ {paths : Finset StorePath}, .doPath req ∈ opaqueJobs paths →
        req ∈ Set.range DerivedPath.opaquePath := by
      intro paths inside
      obtain ⟨path, _, rfl⟩ := do_path_mem_opaque_jobs.mp inside
      exact ⟨path, rfl⟩
    have drvInputs : ∀ {drvPath : StorePath}, .doPath req ∈ inputJobs queries drvPath →
        req ∈ ⋃ drvPath, {req | req ∈ inputPaths (queries.derivationFromPath drvPath)} :=
      fun inside => Set.mem_iUnion.mpr ⟨_, do_path_mem_input_jobs.mp inside⟩
    next planned =>
      cases planned with
      | substitute path info => exact .inl (.inr (opaques member))
      | build drvPath => exact .inr (drvInputs member)
      | check drvPath invalid =>
        rw [Plan.children] at member
        split at member
        · exact .inl (.inr (opaques member))
        · exact .inr (drvInputs member)
      | _ => cases member

def Wide (queries : Queries) (width : Nat) : Prop :=
  (∀ drvPath, (inputPaths (queries.derivationFromPath drvPath)).length ≤ width) ∧
    ∀ paths : Finset StorePath, paths.card ≤ width

theorem exists_wide (queries : Queries) : ∃ width, Wide queries width := by
  obtain ⟨first, inputs⟩ := (Set.finite_range fun drvPath =>
    (inputPaths (queries.derivationFromPath drvPath)).length).bddAbove
  have paths := Fintype.ofFinite StorePath
  refine ⟨max first (Fintype.card StorePath), fun drvPath => ?_, fun some => ?_⟩
  · exact Nat.le_trans (inputs (Set.mem_range_self drvPath)) (Nat.le_max_left _ _)
  · exact Nat.le_trans (Finset.card_le_univ some) (Nat.le_max_right _ _)

def jobCost (width : Nat) : Job → Nat
  | .doPath _ => 1
  | .checkOutput _ _ _ => 5 + 2 * width

def enqueueCost (width : Nat) (jobs : List Job) : Nat :=
  1 + (jobs.map fun job => 1 + jobCost width job).sum

def planCost (width : Nat) : Nat := 2 + 2 * width + (6 + 2 * width) * width

def queryBudget (width : Nat) (texts : Finset Bytes) : Budget Job ItemPlace State where
  job := jobCost width
  item
    | .doPath _ => 1
    | .insertUnknown _ => 1
    | .insertSubstitute _ _ => 2 + 2 * width
    | .mustBuildDrv _ => 2 + 2 * width
    | .makeDrvState _ _ => 2 + (6 + 2 * width) * width
    | .checkOutput _ _ _ => 5 + 2 * width
    | .query _ _ _ => 4 + 2 * width
    | .giveUp _ _ => 3 + 2 * width
    | .countDown _ _ _ => 2 + 2 * width
    | .enqueue jobs _ => enqueueCost width jobs
    | .unwind _ => 1
    | .failing _ => 0
    | .done => 0
  state state := planCost width * (texts \ state.done).card

theorem enqueue_cost_lt {width cost : Nat} {Path : Type} {job : Path → Job}
    (each : ∀ path, 1 + jobCost width (job path) = cost) {paths : List Path}
    (short : paths.length ≤ width) : enqueueCost width (paths.map job) < 2 + cost * width := by
  have bound : paths.length * cost ≤ cost * width := by
    rw [Nat.mul_comm cost]
    exact Nat.mul_le_mul_right _ short
  simp only [enqueueCost, List.map_map, Function.comp_def, each, List.map_const', List.sum_replicate_nat]
  omega

variable {texts : Finset Bytes}

theorem allows_of_less {width : Nat} {after : State} {next : ItemPlace}
    (same : after.done = state.done)
    (less : (queryBudget width texts).item next < (queryBudget width texts).item item) :
    (queryBudget width texts).Allows item state (.proceed after next : QueryAction) := by
  change planCost width * (texts \ after.done).card + _ < planCost width * (texts \ state.done).card + _
  rw [same]
  exact Nat.add_lt_add_left less _

section Costs

variable {width : Nat} (wide : Wide queries width)

include wide

theorem sorted_short (paths : Finset StorePath) : paths.sort.length ≤ width :=
  (Finset.length_sort _).trans_le (wide.2 paths)

theorem Good.pays (all : ∀ req, Asked queries targets req → req.toString queries.config ∈ texts)
    (good : Good queries targets sure ⟨state, unsubmitted, jobs, item ::ₘ rest⟩)
    (offered : action ∈ actions queries item state) :
    (queryBudget width texts).Allows item state action := by
  cases offers_of_mem offered with
  | seenPath | insertUnknown | release => exact allows_of_less rfl Nat.zero_lt_one
  | @newPath req fresh =>
    have asked := good.asked req (mem_todo_cons.mpr (.inl (mem_singleton_self _)))
    -- the text is one of those that were left
    have fewer : (texts \ insert (req.toString queries.config) state.done).card + 1 ≤
        (texts \ state.done).card := by
      refine Finset.card_lt_card ((Finset.ssubset_iff_of_subset ?_).mpr
        ⟨req.toString queries.config, ?_, ?_⟩)
      · exact Finset.sdiff_subset_sdiff subset_rfl (Finset.subset_insert _ _)
      · exact Finset.mem_sdiff.mpr ⟨all req asked, fresh⟩
      · exact fun member => (Finset.mem_sdiff.mp member).2 (Finset.mem_insert_self _ _)
    have cost : (queryBudget width texts).item (follow queries req) ≤ planCost width := by
      rw [follow]
      cases plan queries req with
      | error error => exact Nat.zero_le _
      | ok planned => cases planned <;> simp only [Plan.place, queryBudget, planCost] <;> omega
    have total := Nat.mul_le_mul_left (planCost width) fewer
    rw [Nat.mul_succ] at total
    change planCost width * (texts \ insert (req.toString queries.config) state.done).card + _ <
      planCost width * (texts \ state.done).card + 1
    omega
  | insertSubstitute | countLast =>
    refine allows_of_less rfl (enqueue_cost_lt ?_ (sorted_short wide _))
    exact fun _ => rfl
  | mustBuildDrv =>
    refine allows_of_less rfl (enqueue_cost_lt ?_ (wide.1 _))
    exact fun _ => rfl
  | makeDrvState =>
    refine allows_of_less rfl (enqueue_cost_lt ?_ (sorted_short wide _))
    exact fun _ => (Nat.add_assoc 1 5 _).symm
  | checkDone | checkOutput | unable | able | giveUp | countDone | countMore =>
    refine allows_of_less rfl ?_
    simp only [queryBudget]
    omega
  | countAbort isZero => exact good.left_ne_zero isZero
  | enqueue =>
    simp only [Budget.Allows, queryBudget, enqueueCost, List.map_cons, List.sum_cons]
    omega
  | unwind | failing => exact (good.places _ (mem_cons_self _ _)).elim
  | enqueued | done => trivial

end Costs

end

section

variable {maxThreads : Nat} {config : QueryConfig}

section

variable (never : NeverThrows queries targets)

include never

section

variable
  (reached : Reached (queryCode queries) maxThreads (submitTargets targets) startState config)

include reached

theorem query_missing_good :
    CalmConfig (SafeJob queries targets) (fun place => ¬SafePlace queries targets place) .abandon
      config ∧ Good queries targets (Alone queries targets) config.load := by
  have safe : ∀ job ∈ targets.map Job.doPath, SafeJob queries targets job := by
    intro job member
    obtain ⟨req, inside, rfl⟩ := List.mem_map.mp member
    exact .inl (.target inside)
  obtain ⟨calm, run⟩ := calm_reached (query_calm never) safe reached
  exact ⟨calm, good_reached never run⟩

theorem query_missing_not_aborted : config.phase ≠ .aborted := by
  refine not_aborted_reached (fun config reached thread member ticket item runs offered => ?_) reached
  have good := (query_missing_good never reached).2
  obtain ⟨rest, isLoad⟩ := load_of_running member runs
  rw [isLoad] at good
  exact good.allowed never (certain_alone _) offered

end

theorem query_missing_results (unambiguous : Unambiguous queries targets)
    (reached : Reached (queryCode queries) maxThreads (submitTargets targets) startState config)
    (returned : config.phase = .returned) : Results queries targets config.shared.state := by
  obtain ⟨calm, good⟩ := query_missing_good never reached
  rw [calm_returned (owned_reached reached) calm returned] at good
  exact good.results fun req asked other => unambiguous req other asked

theorem query_missing_bounded : ∃ bound, ∀ maxThreads steps wakes config,
      Run (queryCode queries) maxThreads (initial (submitTargets targets) startState) steps wakes
        config → steps ≤ bound + wakes := by
  obtain ⟨width, wide⟩ := exists_wide queries
  obtain ⟨texts, isTexts⟩ := ((asked_finite queries targets).image
    (DerivedPath.toString queries.config)).exists_finset
  have all : ∀ req, Asked queries targets req → req.toString queries.config ∈ texts :=
    fun req asked => (isTexts _).mpr ⟨req, asked, rfl⟩
  refine ⟨(queryBudget width texts).potential
    (initial (submitTargets targets) startState : QueryConfig),
    fun maxThreads steps wakes config run => ?_⟩
  have bounded := run_bounded (queryBudget width texts) (fun job => by cases job <;> exact Nat.le_refl _)
    (fun config reached thread member ticket item runs action offered => by
      have good := (query_missing_good never reached).2
      obtain ⟨rest, isLoad⟩ := load_of_running member runs
      rw [isLoad] at good
      exact good.pays wide all offered) run
  omega

theorem query_missing_goes_on
    (reached : Reached (queryCode queries) maxThreads (submitTargets targets) startState config) :
    (config.phase.isOver = true → config.phase = .returned) ∧
      (config.phase.isOver = false → ∃ next, Step (queryCode queries) maxThreads config next) := by
  have owned := owned_reached reached
  obtain ⟨calm, good⟩ := query_missing_good never reached
  exact ⟨fun ended => (calm_over owned calm ended).resolve_right
    (query_missing_not_aborted never reached),
    pool_can_step owned (lively_reached reached) good.unblocked⟩

end

/-- If no query throws, no assertion of `queryMissing` fails in any interleaving, and every
call returns, unless threads wake up without end for no reason. If requests with the same
text have the same consequences, then the results do not depend on the schedule. -/
theorem query_missing_deterministic (queries : Queries) (targets : List DerivedPath)
    (never : NeverThrows queries targets) :
    (∀ maxThreads config,
      Reached (queryCode queries) maxThreads (submitTargets targets) startState config →
        config.phase ≠ .aborted ∧ (config.phase.isOver = true → config.phase = .returned) ∧
        (config.phase.isOver = false → ∃ next, Step (queryCode queries) maxThreads config next)) ∧
    (Unambiguous queries targets → ∀ leftThreads rightThreads left right given,
      Reached (queryCode queries) leftThreads (submitTargets targets) startState left →
      Reached (queryCode queries) rightThreads (submitTargets targets) startState right →
      left.phase = .returned → right.phase = .returned →
        Missing.after given left.shared.state = Missing.after given right.shared.state) ∧
    ∃ bound, ∀ maxThreads steps wakes config,
      Run (queryCode queries) maxThreads (initial (submitTargets targets) startState) steps wakes
        config → steps ≤ bound + wakes := by
  refine ⟨fun maxThreads config reached => ?_, fun unambiguous => ?_, query_missing_bounded never⟩
  · exact ⟨query_missing_not_aborted never reached, query_missing_goes_on never reached⟩
  · intro leftThreads rightThreads left right given leftReached rightReached leftReturned rightReturned
    exact (query_missing_results never unambiguous leftReached leftReturned).unique
      (query_missing_results never unambiguous rightReached rightReturned) given

theorem query_missing_can_end (never : NeverThrows queries targets)
    (reached : Reached (queryCode queries) maxThreads (submitTargets targets) startState config) :
    ∃ next, ReflTransGen (Moves (queryCode queries) maxThreads) config next ∧
      next.phase = .returned := by
  obtain ⟨bound, bounded⟩ := query_missing_bounded never
  obtain ⟨next, moves, ended⟩ := can_end (bounded maxThreads)
    (fun _ reached => (query_missing_goes_on never reached).2) reached
  exact ⟨next, moves, (query_missing_goes_on never (reached.trans moves)).1 ended⟩

/-- At every moment what is in the results belongs there, and the sizes are those of the paths
to be substituted; what a call returns with is complete. -/
theorem query_missing_exact :
    (NeverThrows queries targets →
      Reached (queryCode queries) maxThreads (submitTargets targets) startState config →
        Sound queries targets config.shared.state ∧
          ∃ fetching, Fetching queries config.shared.state fetching) ∧
    (NeverThrows queries targets → Unambiguous queries targets →
      Reached (queryCode queries) maxThreads (submitTargets targets) startState config →
        config.phase = .returned → Results queries targets config.shared.state) := by
  constructor
  · intro never reached
    have good := (query_missing_good never reached).2
    exact ⟨good.sound, _, good.fetching⟩
  · intro never
    exact query_missing_results never

end

section

theorem step_done (step : LoadStep (queryCode queries) before after) :
    before.state.done ⊆ after.state.done := by
  cases step with
  | proceed _ _ _ offered =>
    cases offers_of_mem offered with
    | newPath => exact Finset.subset_insert _ _
    | unwind same => exact same.ge
    | _ => exact subset_rfl
  | _ => exact subset_rfl

variable {target : DerivedPath}

theorem good_continues (never : NeverThrows queries targets)
    (good : Good queries targets (fun req => Alone queries targets req ∨ req = target) before)
    (seen : target.toString queries.config ∈ before.state.done)
    (run : ReflTransGen (LoadStep (queryCode queries)) before after) :
    Good queries targets (fun req => Alone queries targets req ∨ req = target) after ∧
      target.toString queries.config ∈ after.state.done := by
  induction run with
  | refl => exact ⟨good, seen⟩
  | tail _ step ih =>
    obtain ⟨goodLast, seenLast⟩ := ih
    refine ⟨good_step never ?_ goodLast step, step_done step seenLast⟩
    rintro req other asked fresh (alone | rfl) same
    · exact alone req asked same
    · exact absurd (same ▸ seenLast) fresh

/-- With enough threads there is a call in which this target is looked at first. -/
theorem first_target (never : NeverThrows queries targets) (member : target ∈ targets) :
    ∃ maxThreads config,
      Reached (queryCode queries) maxThreads (submitTargets targets) startState config ∧
      config.phase = .returned ∧
      Good queries targets (fun req => Alone queries targets req ∨ req = target)
        ⟨config.shared.state, [], 0, 0⟩ ∧
      target.toString queries.config ∈ config.shared.state.done := by
  have short : (targets.map Job.doPath).length ≤ targets.length := Nat.le_of_eq (List.length_map _)
  have taken : ∃ config,
      Reached (queryCode queries) targets.length (submitTargets targets) startState config ∧
      config.shared.state = startState ∧ .doPath target ∈ runningItems config.threads :=
    any_item_first (List.mem_map_of_mem member) short
  obtain ⟨config, reached, isStart, runs⟩ := taken
  obtain ⟨thread, inside, ticket, isRunning⟩ := mem_running_items.mp runs
  obtain ⟨before, after, selected⟩ := List.append_of_mem inside
  have offered : .proceed (startState.insertDone (target.toString queries.config))
      (follow queries target) ∈ (queryCode queries).actions (.doPath target) config.shared.state := by
    rw [isStart]
    exact List.mem_singleton_self _
  have step : Step (queryCode queries) targets.length config _ := .item before after thread selected
    isRunning offered (.proceed (startState.insertDone (target.toString queries.config)) (follow queries target))
  have entered := reached.tail (.inl step)
  obtain ⟨calm, good⟩ := query_missing_good never entered
  have seen : target.toString queries.config ∈
      (startState.insertDone (target.toString queries.config)).done := Finset.mem_insert_self _ _
  have here : follow queries target ∈ runningItems (before ++ thread.moveTo
      (.running ticket (follow queries target)) :: after) := by
    rw [items_cons before after rfl]
    exact mem_cons_self _ _
  obtain ⟨last, moves, returned⟩ := query_missing_can_end never entered
  obtain ⟨calmLast, run⟩ := calm_continues (query_calm never) entered calm moves
  have lastReached := entered.trans moves
  obtain ⟨goodLast, seenLast⟩ := good_continues never
    { good with
      duties := by
        rintro req (alone | rfl) isSeen
        · exact good.duties req alone isSeen
        · exact .inl here } seen run
  rw [calm_returned (owned_reached lastReached) calmLast returned] at goodLast seenLast
  exact ⟨targets.length, last, lastReached, returned, goodLast, seenLast⟩

end

section

def exampleDrv : StorePath := ⟨List.replicate 32 48 ++ ascii "-a.drv", by decide⟩

def exampleOut : StorePath := ⟨List.replicate 32 49 ++ ascii "-a", by decide⟩

/-- One derivation is valid, its output is not, and nothing can be substituted. -/
def exampleQueries : Queries where
  config := usualStore
  isValidPath path := decide (path = exampleDrv)
  queryPartialDerivationOutputMap _ :=
    ⟨[(ascii "out", some exampleOut)], List.pairwise_singleton _ _⟩
  derivationFromPath _ := ⟨ascii "a", .empty, ∅, [], [], [], .empty, .empty⟩
  staticOutputHashes _ := .empty
  defaultSubstituters := []
  querySubstitutablePathInfo _ _ := none
  substitutesAllowed _ := .ok true
  useSubstitutes := false
  caDerivations := true

theorem example_never_throws (targets : List DerivedPath) : NeverThrows exampleQueries targets :=
  never_throws_of_features targets (fun _ => ⟨true, rfl⟩) rfl

def allOutputs : DerivedPath := .built (.opaquePath exampleDrv) .all

def returnedWith (test : State → Bool) (config : QueryConfig) : Bool :=
  match config.phase with
  | .returned => test config.shared.state
  | _ => false

theorem returned_with {queries : Queries} {targets : List DerivedPath} {test : State → Bool}
    (choices : List Choice)
    (runs : (schedule (queryCode queries) 2 (initial (submitTargets targets) startState)
      choices).any (returnedWith test) = true) :
    ∃ config, Reached (queryCode queries) 2 (submitTargets targets) startState config ∧
      config.phase = .returned ∧ test config.shared.state = true := by
  cases scheduled : schedule (queryCode queries) 2 (initial (submitTargets targets) startState)
      choices with
  | none =>
    rw [scheduled] at runs
    cases runs
  | some config =>
    rw [scheduled, Option.any_some] at runs
    refine ⟨config, schedule_reached scheduled, ?_⟩
    unfold returnedWith at runs
    split at runs
    next returned => exact ⟨returned, runs⟩
    · cases runs

def exampleLib : StorePath := ⟨List.replicate 32 50 ++ ascii "-lib", by decide⟩

/-- The output can be substituted, but not what it refers to. -/
def substituteQueries : Queries :=
  { exampleQueries with
    useSubstitutes := true
    querySubstitutablePathInfo := fun path _ =>
      if path = exampleOut then some ⟨{exampleLib}, 5, 7⟩ else none }

/-- The output is wanted twice: as an output of the derivation, and as it is. -/
def outTargets : List DerivedPath := [allOutputs, .opaquePath exampleOut]

theorem out_never_throws : NeverThrows substituteQueries outTargets :=
  never_throws_of_features outTargets (fun _ => ⟨true, rfl⟩) rfl

theorem opaque_jobs_singleton (path : StorePath) :
    opaqueJobs {path} = [.doPath (.opaquePath path)] := by
  rw [opaqueJobs, Finset.sort_singleton, List.map_singleton]

theorem out_asked (asked : Asked substituteQueries outTargets req) :
    req ∈ [allOutputs, .opaquePath exampleOut, .opaquePath exampleLib] := by
  have isCheck : plan substituteQueries allOutputs = .ok (.check exampleDrv {exampleOut}) := rfl
  have isFetched : plan substituteQueries (.opaquePath exampleOut) =
      .ok (.substitute exampleOut ⟨{exampleLib}, 5, 7⟩) := rfl
  have isUnknown : plan substituteQueries (.opaquePath exampleLib) = .ok (.unknown exampleLib) := rfl
  induction asked with
  | target member => exact List.mem_append_left [_] member
  | child _ isPlan member ih =>
    simp only [List.mem_cons, List.not_mem_nil, or_false] at ih ⊢
    rcases ih with rfl | rfl | rfl
    · cases isCheck.symm.trans isPlan
      rw [Plan.children] at member
      split at member
      · rw [opaque_jobs_singleton] at member
        exact .inr (.inl (Job.doPath.inj (List.mem_singleton.mp member)))
      · cases member
    · cases isFetched.symm.trans isPlan
      rw [Plan.children, opaque_jobs_singleton] at member
      exact .inr (.inr (Job.doPath.inj (List.mem_singleton.mp member)))
    · cases isUnknown.symm.trans isPlan
      cases member

theorem out_unambiguous : Unambiguous substituteQueries outTargets := by
  have distinct : ([allOutputs, .opaquePath exampleOut, .opaquePath exampleLib].map
      (DerivedPath.toString usualStore)).Nodup := by decide +kernel
  intro left right leftAsked rightAsked same
  rw [List.inj_on_of_nodup_map distinct (out_asked leftAsked) (out_asked rightAsked) same]

def inTurns : List Choice :=
  List.replicate 3 .owner ++ (List.replicate 13 [.thread 1 0, .thread 0 0]).flatten ++
    [.thread 1 0, .owner]

def givesOut (state : State) : Bool :=
  state.willBuild = ∅ && state.willSubstitute = {exampleOut} && state.unknown = {exampleLib} &&
    state.downloadSize = 5 && state.narSize = 7

theorem out_returned : ∃ config,
    Reached (queryCode substituteQueries) 2 (submitTargets outTargets) startState config ∧
      config.phase = .returned ∧ givesOut config.shared.state = true :=
  returned_with inTurns (by decide +kernel)

theorem query_missing_deterministic_for_output :
    (∃ config,
      Reached (queryCode substituteQueries) 2 (submitTargets outTargets) startState config ∧
        config.phase = .returned) ∧
    ∀ maxThreads config,
      Reached (queryCode substituteQueries) maxThreads (submitTargets outTargets) startState config →
      config.phase = .returned →
        Missing.after ⟨∅, ∅, ∅, 0, 0⟩ config.shared.state = ⟨∅, {exampleOut}, {exampleLib}, 5, 7⟩ := by
  obtain ⟨first, firstReached, firstReturned, given⟩ := out_returned
  refine ⟨⟨first, firstReached, firstReturned⟩, ?_⟩
  intro maxThreads config reached returned
  rw [(query_missing_deterministic substituteQueries outTargets out_never_throws).2.1
    out_unambiguous maxThreads 2 config first ⟨∅, ∅, ∅, 0, 0⟩ reached firstReached returned
    firstReturned]
  simp only [givesOut, Bool.and_eq_true, decide_eq_true_eq] at given
  obtain ⟨⟨⟨⟨build, substitute⟩, unknown⟩, download⟩, nar⟩ := given
  rw [Missing.after, build, substitute, unknown, download, nar]
  simp

theorem query_missing_exact_for_output : ∃ config,
    Reached (queryCode substituteQueries) 2 (submitTargets outTargets) startState config ∧
      config.phase = .returned ∧ givesOut config.shared.state = true ∧
      Sound substituteQueries outTargets config.shared.state ∧
      (∃ fetching, Fetching substituteQueries config.shared.state fetching) ∧
      Results substituteQueries outTargets config.shared.state := by
  obtain ⟨config, reached, returned, given⟩ := out_returned
  obtain ⟨sound, fetching⟩ := query_missing_exact.1 out_never_throws reached
  exact ⟨config, reached, returned, given, sound, fetching,
    query_missing_exact.2 out_never_throws out_unambiguous reached returned⟩

def starOutput : DerivedPath :=
  .built (.opaquePath exampleDrv) (.names {ascii "*"} (Finset.singleton_nonempty _))

def bothTaken : List Choice := [.owner, .owner, .owner, .thread 0 0, .thread 1 0]

/-- The worker, which has taken the first target, is the first to look it up. -/
def workerFirst : List Choice :=
  bothTaken ++ List.replicate 4 (.thread 0 0) ++ List.replicate 3 (.thread 1 0) ++ [.owner]

/-- The other thread is the first to look its target up. -/
def mainFirst : List Choice :=
  bothTaken ++ List.replicate 3 (.thread 1 0) ++ List.replicate 3 (.thread 0 0) ++
    [.thread 1 0, .owner]

/-- The two targets have the same text, and whichever is looked up first decides whether
the derivation is built. -/
theorem same_text_race : NeverThrows exampleQueries [allOutputs, starOutput] ∧
    (∃ config, Reached (queryCode exampleQueries) 2 (submitTargets [allOutputs, starOutput])
      startState config ∧ config.phase = .returned ∧
      config.shared.state.willBuild = {exampleDrv}) ∧
    ∃ config, Reached (queryCode exampleQueries) 2 (submitTargets [allOutputs, starOutput])
      startState config ∧ config.phase = .returned ∧ config.shared.state.willBuild = ∅ := by
  have builds : ∀ willBuild choices, (schedule (queryCode exampleQueries) 2
      (initial (submitTargets [allOutputs, starOutput]) startState) choices).any
        (returnedWith fun state => decide (state.willBuild = willBuild)) = true →
      ∃ config, Reached (queryCode exampleQueries) 2 (submitTargets [allOutputs, starOutput])
        startState config ∧ config.phase = .returned ∧
        config.shared.state.willBuild = willBuild := by
    intro willBuild choices runs
    obtain ⟨config, reached, returned, built⟩ := returned_with choices runs
    exact ⟨config, reached, returned, of_decide_eq_true built⟩
  refine ⟨example_never_throws _, ?_, ?_⟩
  · exact builds _ workerFirst (by decide +kernel)
  · exact builds _ mainFirst (by decide +kernel)

end

end Bsd.Store.QueryMissing
