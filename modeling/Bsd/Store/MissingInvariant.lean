import Mathlib.Data.BitVec
import Bsd.Store.QueryMissing

/-!
# What the items of queryMissing keep

Which requests come up does not depend on the schedule: a request that is met for the first
time leads to the same further requests whenever that is, as long as no two requests with
different consequences have the same text. An item that has started to do something owes
the rest of it, and the invariant says that what is owed is either done or still to be done
by an item.
-/

namespace Bsd.Store.QueryMissing

open Lib.Occurrences Util.ThreadPool Store.Path Store.ContentAddresses
  Multiset
open Store.DerivedPaths

section

variable (queries : Queries)

def Substitutable (drvPath outPath : StorePath) : Prop :=
  (outputInfo queries drvPath outPath).isSome = true

instance (drvPath outPath : StorePath) : Decidable (Substitutable queries drvPath outPath) :=
  inferInstanceAs (Decidable (_ = true))

def AllSubstitutable (drvPath : StorePath) (outputs : Finset StorePath) : Prop :=
  ∀ outPath ∈ outputs, Substitutable queries drvPath outPath

instance (drvPath : StorePath) (outputs : Finset StorePath) :
    Decidable (AllSubstitutable queries drvPath outputs) :=
  inferInstanceAs (Decidable (∀ outPath ∈ outputs, _))

def Plan.builds : Plan → Option StorePath
  | .build drvPath => some drvPath
  | .check drvPath invalid =>
    if AllSubstitutable queries drvPath invalid then none else some drvPath
  | _ => none

def Plan.children : Plan → List Job
  | .substitute _ info => opaqueJobs info.references
  | .build drvPath => inputJobs queries drvPath
  | .check drvPath invalid =>
    if AllSubstitutable queries drvPath invalid then opaqueJobs invalid
    else inputJobs queries drvPath
  | _ => []

variable (targets : List DerivedPath)

inductive Asked : DerivedPath → Prop where
  | target {req : DerivedPath} (member : req ∈ targets) : Asked req
  | child {req next : DerivedPath} {planned : Plan} (asked : Asked req)
      (isPlan : plan queries req = .ok planned) (member : .doPath next ∈ planned.children queries) :
      Asked next

def Planned (planned : Plan) : Prop :=
  ∃ req, Asked queries targets req ∧ plan queries req = .ok planned

def Builds (drvPath : StorePath) : Prop :=
  ∃ planned, Planned queries targets planned ∧ planned.builds queries = some drvPath

/-- Requests with the same text have the same consequences. -/
def Unambiguous : Prop :=
  ∀ left right, Asked queries targets left → Asked queries targets right →
    left.toString queries.config = right.toString queries.config →
    plan queries left = plan queries right

/-- No query throws for a request that comes up. -/
def NeverThrows : Prop := ∀ req error, Asked queries targets req → plan queries req ≠ .error error

variable {queries}

theorem never_throws_of_features (allowed : ∀ drv, ∃ allow, queries.substitutesAllowed drv = .ok allow)
    (feature : queries.caDerivations = true) : NeverThrows queries targets := by
  intro req error _ failed
  cases req with
  | opaquePath path =>
    rw [plan] at failed
    split at failed
    · cases failed
    · split at failed <;> cases failed
  | built drvPath outputs =>
    cases drvPath with
    | built => cases failed
    | opaquePath drvPath =>
      obtain ⟨allow, isAllowed⟩ := allowed (queries.derivationFromPath drvPath)
      simp only [plan, planBuilt, isAllowed, feature, if_true] at failed
      repeat' split at failed
      all_goals cases failed

end

abbrev QueryLoad := Load Job ItemPlace State

def ItemPlace.todo : ItemPlace → Multiset Job
  | .doPath req => {.doPath req}
  | .checkOutput drvPath outPath index => {.checkOutput drvPath outPath index}
  | .query drvPath outPath index => {.checkOutput drvPath outPath index}
  | .countDown drvPath outPath index => {.checkOutput drvPath outPath index}
  | .enqueue jobs _ => jobs
  | _ => 0

def todo (load : QueryLoad) : Multiset Job :=
  load.unsubmitted + load.jobs + load.items.bind ItemPlace.todo

def ItemPlace.substituting : ItemPlace → Option StorePath
  | .insertSubstitute path _ => some path
  | _ => none

section Owing

variable (queries : Queries)

def Started (load : QueryLoad) (req : DerivedPath) : Prop :=
  req.toString queries.config ∈ load.state.done ∨ .doPath req ∈ todo load

def InputsStarted (load : QueryLoad) (drvPath : StorePath) : Prop :=
  drvPath ∈ load.state.willBuild ∧
    ∀ req ∈ inputPaths (queries.derivationFromPath drvPath), Started queries load req

def Settled (load : QueryLoad) : ItemPlace → Prop
  | .insertUnknown path => path ∈ load.state.unknown
  | .insertSubstitute path info => path ∈ load.state.willSubstitute ∧
      ∀ reference ∈ info.references, Started queries load (.opaquePath reference)
  | .mustBuildDrv drvPath => InputsStarted queries load drvPath
  | .makeDrvState drvPath invalid => ∃ index < load.state.created,
      (load.state.drvStates index).drvPath = drvPath ∧
      (load.state.drvStates index).outputs = invalid
  | .giveUp drvPath _ => .mustBuildDrv drvPath ∈ load.items ∨ InputsStarted queries load drvPath
  | _ => True

def Owed (load : QueryLoad) (place : ItemPlace) : Prop :=
  place ∈ load.items ∨ Settled queries load place

variable (targets : List DerivedPath)

def PlaceGood (state : State) : ItemPlace → Prop
  | .insertUnknown path => Planned queries targets (.unknown path)
  | .insertSubstitute path info => Planned queries targets (.substitute path info)
  | .mustBuildDrv drvPath => Builds queries targets drvPath
  | .makeDrvState drvPath invalid => Planned queries targets (.check drvPath invalid)
  | .giveUp drvPath index => index < state.created ∧ (state.drvStates index).drvPath = drvPath ∧
      ¬AllSubstitutable queries drvPath (state.drvStates index).outputs
  | .countDown drvPath outPath _ => Substitutable queries drvPath outPath
  | .unwind _ => False
  | .failing _ => False
  | _ => True

/-- The sets hold nothing but what some request asks for. -/
structure Sound (state : State) : Prop where
  unknown : ∀ path ∈ state.unknown, Planned queries targets (.unknown path)
  willSubstitute : ∀ path ∈ state.willSubstitute, ∃ info,
    Planned queries targets (.substitute path info)
  willBuild : ∀ drvPath ∈ state.willBuild, Builds queries targets drvPath

structure Outstanding (state : State) (jobs : Multiset Job) : Prop where
  about : ∀ drvPath outPath index, .checkOutput drvPath outPath index ∈ jobs →
    index < state.created ∧ (state.drvStates index).drvPath = drvPath ∧
    outPath ∈ (state.drvStates index).outputs ∧ outPath ∉ (state.drvStates index).outPaths
  once : ∀ drvPath outPath index, jobs.count (.checkOutput drvPath outPath index) ≤ 1

structure DrvGood (load : QueryLoad) (index : Nat) (drv : DrvState) : Prop where
  planned : Planned queries targets (.check drv.drvPath drv.outputs)
  counted : drv.left + drv.outPaths.card = drv.outputs.card
  within : drv.outPaths ⊆ drv.outputs
  able : ∀ outPath ∈ drv.outPaths, Substitutable queries drv.drvPath outPath
  gaveUp : drv.done = true → ¬AllSubstitutable queries drv.drvPath drv.outputs ∧
    Owed queries load (.mustBuildDrv drv.drvPath)
  whole : AllSubstitutable queries drv.drvPath drv.outputs →
    (∀ outPath ∈ drv.outputs, Started queries load (.opaquePath outPath)) ∨
    (drv.left ≠ 0 ∧ ∀ outPath ∈ drv.outputs,
      outPath ∈ drv.outPaths ∨ .checkOutput drv.drvPath outPath index ∈ todo load)
  short : ¬AllSubstitutable queries drv.drvPath drv.outputs →
    Owed queries load (.giveUp drv.drvPath index) ∨
    (drv.done = false ∧ ∃ outPath ∈ drv.outputs, ¬Substitutable queries drv.drvPath outPath ∧
      .checkOutput drv.drvPath outPath index ∈ todo load)
  locks : drv.locked = true → ∃ jobs, .enqueue jobs (some index) ∈ load.items

def substitutedSize (size : SubstitutablePathInfo → BitVec 64) (path : StorePath) : BitVec 64 :=
  (queries.querySubstitutablePathInfo path none).elim 0 size

/-- A path is added to the sizes once. -/
structure Fetching (state : State) (fetching : Multiset StorePath) : Prop where
  once : (fetching + state.willSubstitute.val).Nodup
  seen : ∀ path ∈ fetching + state.willSubstitute.val,
    (DerivedPath.opaquePath path).toString queries.config ∈ state.done
  downloadSize : state.downloadSize =
    ∑ path ∈ state.willSubstitute, substitutedSize queries SubstitutablePathInfo.downloadSize path
  narSize : state.narSize =
    ∑ path ∈ state.willSubstitute, substitutedSize queries SubstitutablePathInfo.narSize path

/-- The invariant. A request that is `sure` has the consequences that it should have once
its text was seen. -/
structure Good (sure : DerivedPath → Prop) (load : QueryLoad) : Prop where
  begun : ∀ req ∈ targets, Started queries load req
  asked : ∀ req, .doPath req ∈ todo load → Asked queries targets req
  places : ∀ place ∈ load.items, PlaceGood queries targets load.state place
  duties : ∀ req, sure req → req.toString queries.config ∈ load.state.done →
    Owed queries load (follow queries req)
  sound : Sound queries targets load.state
  outstanding : Outstanding load.state (todo load)
  drvs : ∀ index < load.state.created,
    DrvGood queries targets load index (load.state.drvStates index)
  fetching : Fetching queries load.state (load.items.filterMap ItemPlace.substituting)

end Owing

variable {drvPath : StorePath} {req : DerivedPath} {index : Nat}

section Facts

variable {queries : Queries} {targets : List DerivedPath}

@[simp] theorem do_path_mem_opaque_jobs {paths : Finset StorePath} :
    .doPath req ∈ opaqueJobs paths ↔ ∃ path ∈ paths, .opaquePath path = req := by
  simp [opaqueJobs]

@[simp] theorem do_path_mem_input_jobs : .doPath req ∈ inputJobs queries drvPath ↔
      req ∈ inputPaths (queries.derivationFromPath drvPath) := by
  simp [inputJobs]

@[simp] theorem do_path_mem_output_jobs {invalid : Finset StorePath} :
    .doPath req ∉ outputJobs drvPath invalid index := by
  simp [outputJobs]

variable {outPath : StorePath}

@[simp] theorem check_mem_opaque_jobs {paths : Finset StorePath} :
    .checkOutput drvPath outPath index ∉ opaqueJobs paths := by
  simp [opaqueJobs]

@[simp] theorem check_mem_input_jobs {built : StorePath} :
    .checkOutput drvPath outPath index ∉ inputJobs queries built := by
  simp [inputJobs]

@[simp] theorem check_mem_output_jobs {built : StorePath} {invalid : Finset StorePath}
    {number : Nat} : .checkOutput drvPath outPath index ∈ outputJobs built invalid number ↔
      built = drvPath ∧ outPath ∈ invalid ∧ number = index := by
  simp only [outputJobs, List.mem_map, Finset.mem_sort, Job.checkOutput.injEq]
  constructor
  · rintro ⟨_, member, rfl, rfl, rfl⟩
    exact ⟨rfl, member, rfl⟩
  · rintro ⟨rfl, member, rfl⟩
    exact ⟨outPath, member, rfl, rfl, rfl⟩

theorem todo_cons (state : State) (unsubmitted : List Job) (jobs : Multiset Job) (place : ItemPlace)
    (rest : Multiset ItemPlace) : todo ⟨state, unsubmitted, jobs, place ::ₘ rest⟩ =
      place.todo + todo ⟨state, unsubmitted, jobs, rest⟩ := by
  simp only [todo, cons_bind]
  rw [add_left_comm]

theorem mem_todo_cons {state : State} {unsubmitted : List Job} {job : Job} {jobs : Multiset Job}
    {place : ItemPlace} {rest : Multiset ItemPlace} :
    job ∈ todo ⟨state, unsubmitted, jobs, place ::ₘ rest⟩ ↔
      job ∈ place.todo ∨ job ∈ todo ⟨state, unsubmitted, jobs, rest⟩ := by
  rw [todo_cons, mem_add]

theorem todo_take (state : State) (unsubmitted : List Job) (job : Job) (jobs : Multiset Job)
    (items : Multiset ItemPlace) : todo ⟨state, unsubmitted, job ::ₘ jobs, items⟩ =
      job ::ₘ todo ⟨state, unsubmitted, jobs, items⟩ := by
  simp [todo]

theorem start_item_todo (job : Job) : (startItem job).todo = {job} := by
  cases job <;> rfl

theorem plan_substitute {path : StorePath} {info : SubstitutablePathInfo}
    (isPlan : plan queries req = .ok (.substitute path info)) :
    req = .opaquePath path ∧ queries.querySubstitutablePathInfo path none = some info := by
  cases req with
  | opaquePath wanted =>
    rw [plan] at isPlan
    split at isPlan
    · cases isPlan
    split at isPlan
    · cases isPlan
    next isInfo =>
      cases isPlan
      exact ⟨rfl, isInfo⟩
  | built drvPath outputs =>
    cases drvPath with
    | built => cases isPlan
    | opaquePath drvPath =>
      simp only [plan, planBuilt] at isPlan
      repeat' split at isPlan
      all_goals cases isPlan

end Facts

section

structure Grows (before after : State) : Prop where
  done : before.done ⊆ after.done
  unknown : before.unknown ⊆ after.unknown
  willSubstitute : before.willSubstitute ⊆ after.willSubstitute
  willBuild : before.willBuild ⊆ after.willBuild
  created : before.created ≤ after.created
  drvs : ∀ index < before.created,
    (after.drvStates index).drvPath = (before.drvStates index).drvPath ∧
    (after.drvStates index).outputs = (before.drvStates index).outputs

theorem Grows.refl (state : State) : Grows state state :=
  ⟨subset_rfl, subset_rfl, subset_rfl, subset_rfl, Nat.le_refl _, fun _ _ => ⟨rfl, rfl⟩⟩

structure Extends (queries : Queries) (before after : QueryLoad) : Prop where
  grows : Grows before.state after.state
  started : ∀ req, .doPath req ∈ todo before → Started queries after req
  kept : ∀ place ∈ before.items, Owed queries after place

variable {queries : Queries} {targets : List DerivedPath} {sure : DerivedPath → Prop}
  {before after : QueryLoad}

theorem Extends.goesOn (ext : Extends queries before after) (started : Started queries before req) :
    Started queries after req := by
  obtain seen | waits := started
  · exact .inl (ext.grows.done seen)
  · exact ext.started req waits

theorem Extends.inputs (ext : Extends queries before after)
    (started : InputsStarted queries before drvPath) : InputsStarted queries after drvPath :=
  ⟨ext.grows.willBuild started.1, fun req member => ext.goesOn (started.2 req member)⟩

variable {place : ItemPlace}

theorem Extends.owed (ext : Extends queries before after)
    (owed : Owed queries before place) : Owed queries after place := by
  obtain here | settled := owed
  · exact ext.kept place here
  refine .inr ?_
  cases place with
  | insertUnknown path => exact ext.grows.unknown settled
  | insertSubstitute path info =>
    exact ⟨ext.grows.willSubstitute settled.1,
      fun reference member => ext.goesOn (settled.2 reference member)⟩
  | mustBuildDrv drvPath => exact ext.inputs settled
  | makeDrvState drvPath invalid =>
    obtain ⟨index, inside, isDrv, isOutputs⟩ := settled
    obtain ⟨sameDrv, sameOutputs⟩ := ext.grows.drvs index inside
    exact ⟨index, Nat.lt_of_lt_of_le inside ext.grows.created, sameDrv.trans isDrv,
      sameOutputs.trans isOutputs⟩
  | giveUp drvPath index =>
    obtain here | started := settled
    · exact ext.kept _ here
    · exact .inr (ext.inputs started)
  | _ => trivial

theorem PlaceGood.grow {state next : State} (grows : Grows state next)
    (good : PlaceGood queries targets state place) : PlaceGood queries targets next place := by
  cases place with
  | giveUp drvPath index =>
    obtain ⟨inside, isDrv, some⟩ := good
    obtain ⟨sameDrv, sameOutputs⟩ := grows.drvs index inside
    exact ⟨Nat.lt_of_lt_of_le inside grows.created, sameDrv.trans isDrv, sameOutputs ▸ some⟩
  | _ => exact good

def OutputKept (queries : Queries) (after : QueryLoad) (index : Nat) (drv : DrvState)
    (outPath : StorePath) : Prop :=
  .checkOutput drv.drvPath outPath index ∈ todo after ∨ drv.done = true ∨
    (Owed queries after (.giveUp drv.drvPath index) ∧ ¬Substitutable queries drv.drvPath outPath)

theorem DrvGood.extend {drv : DrvState} (good : DrvGood queries targets before index drv)
    (ext : Extends queries before after)
    (outputs : ∀ outPath, .checkOutput drv.drvPath outPath index ∈ todo before →
      OutputKept queries after index drv outPath) {locked : Bool}
    (locks : locked = true → ∃ jobs, .enqueue jobs (some index) ∈ after.items) :
    DrvGood queries targets after index { drv with locked } where
  __ := good
  gaveUp isDone := ⟨(good.gaveUp isDone).1, ext.owed (good.gaveUp isDone).2⟩
  whole all := by
    obtain started | ⟨left, each⟩ := good.whole all
    · exact .inl fun outPath member => ext.goesOn (started outPath member)
    refine .inr ⟨left, fun outPath member => ?_⟩
    obtain counted | waits := each outPath member
    · exact .inl counted
    obtain kept | isDone | ⟨_, unable⟩ := outputs outPath waits
    · exact .inr kept
    · exact absurd all (good.gaveUp isDone).1
    · exact absurd (all outPath member) unable
  short notAll := by
    obtain owed | ⟨undone, outPath, member, unable, waits⟩ := good.short notAll
    · exact .inl (ext.owed owed)
    obtain kept | isDone | ⟨owed, _⟩ := outputs outPath waits
    · exact .inr ⟨undone, outPath, member, unable, kept⟩
    · exact .inl (.inr (ext.owed (good.gaveUp isDone).2))
    · exact .inl owed
  locks := locks

section

variable (good : Good queries targets sure before) (ext : Extends queries before after)
  (asked : ∀ req, .doPath req ∈ todo after → Asked queries targets req)
  (places : ∀ place ∈ after.items, place ∈ before.items ∨
    PlaceGood queries targets after.state place)
  (entered : ∀ req, sure req → req.toString queries.config ∈ after.state.done →
    req.toString queries.config ∈ before.state.done ∨ Owed queries after (follow queries req))
  (sound : Sound queries targets after.state)

include good ext asked places entered sound

theorem Good.extend (outstanding : Outstanding after.state (todo after))
    (drvs : ∀ index < after.state.created,
      DrvGood queries targets after index (after.state.drvStates index))
    (fetching : Fetching queries after.state (after.items.filterMap ItemPlace.substituting)) :
    Good queries targets sure after where
  begun req member := ext.goesOn (good.begun req member)
  asked := asked
  places place member := by
    obtain old | new := places place member
    · exact (good.places place old).grow ext.grows
    · exact new
  duties req isSure seen := by
    obtain old | new := entered req isSure seen
    · exact ext.owed (good.duties req isSure old)
    · exact new
  sound := sound
  outstanding := outstanding
  drvs := drvs
  fetching := fetching

/-- Steps that do not change the states of the derivations. -/
theorem Good.grow (created : after.state.created = before.state.created)
    (drvStates : after.state.drvStates = before.state.drvStates)
    (fewer : ∀ drvPath outPath index, (todo after).count (.checkOutput drvPath outPath index) ≤
      (todo before).count (.checkOutput drvPath outPath index))
    (outputs : ∀ drvPath outPath index, .checkOutput drvPath outPath index ∈ todo before →
      (before.state.drvStates index).drvPath = drvPath →
      OutputKept queries after index (before.state.drvStates index) outPath)
    (locks : ∀ jobs index, .enqueue jobs (some index) ∈ before.items →
      ∃ jobs, .enqueue jobs (some index) ∈ after.items)
    (fetching : Fetching queries after.state (after.items.filterMap ItemPlace.substituting)) :
    Good queries targets sure after := by
  refine good.extend ext asked places entered sound ⟨?_, ?_⟩ ?_ fetching
  · intro drvPath outPath index member
    rw [created, drvStates]
    refine good.outstanding.about drvPath outPath index (count_pos.mp ?_)
    exact Nat.lt_of_lt_of_le (count_pos.mpr member) (fewer drvPath outPath index)
  · intro drvPath outPath index
    exact Nat.le_trans (fewer drvPath outPath index) (good.outstanding.once drvPath outPath index)
  · intro index inside
    rw [created] at inside
    rw [drvStates]
    refine (good.drvs index inside).extend ext (fun outPath waits => outputs _ _ _ waits rfl) ?_
    intro locked
    obtain ⟨jobs, member⟩ := (good.drvs index inside).locks locked
    exact locks jobs index member

end

end

end Bsd.Store.QueryMissing
