import Bsd.Store.MissingInvariant

/-!
# The steps of queryMissing

Every step of an item keeps the invariant. The steps that change the state of a derivation
are the ones that make it, that give up, that count down and that release its mutex.
-/

namespace Bsd.Store.QueryMissing

open Multiset Lib.Occurrences Store.Path Store.ContentAddresses Store.DerivedPaths
  ItemPlace

variable {queries : Queries} {targets : List DerivedPath} {sure : DerivedPath → Prop}
  {state next : State}
  {unsubmitted : List Job} {jobs : Multiset Job} {item place : ItemPlace} {rest : Multiset ItemPlace}

variable {items others : Multiset ItemPlace} {queue later : Multiset Job} {before after : List Job}

section

variable (good : Good queries targets sure ⟨state, before, queue, items⟩)
  (kept : ∀ place ∈ items, Owed queries ⟨state, after, later, others⟩ place)
  (places : ∀ place ∈ others, place ∈ items ∨ PlaceGood queries targets state place)
  (locks : ∀ jobs index, .enqueue jobs (some index) ∈ items →
    ∃ jobs, .enqueue jobs (some index) ∈ others)
  (fetches : others.filterMap substituting = items.filterMap substituting)

include good kept places locks fetches

theorem Good.still (fewer : todo ⟨state, after, later, others⟩ ≤ todo ⟨state, before, queue, items⟩)
    (started : ∀ req, .doPath req ∈ todo ⟨state, before, queue, items⟩ →
      Started queries ⟨state, after, later, others⟩ req)
    (outputs : ∀ drvPath outPath index,
      .checkOutput drvPath outPath index ∈ todo ⟨state, before, queue, items⟩ →
      (state.drvStates index).drvPath = drvPath →
      OutputKept queries ⟨state, after, later, others⟩ index (state.drvStates index) outPath) :
    Good queries targets sure ⟨state, after, later, others⟩ := by
  refine good.grow ⟨.refl state, started, kept⟩ ?_ places (fun _ _ seen => .inl seen)
    good.sound rfl rfl ?_ outputs locks ?_
  · exact fun req member => good.asked req (mem_of_le fewer member)
  · exact fun drvPath outPath index => count_le_of_le _ fewer
  · rw [fetches]
    exact good.fetching

theorem Good.pass (same : todo ⟨state, after, later, others⟩ = todo ⟨state, before, queue, items⟩) :
    Good queries targets sure ⟨state, after, later, others⟩ := by
  refine good.still kept places locks fetches (le_of_eq same) ?_ ?_
  · exact fun req member => .inr (same ▸ member)
  · rintro drvPath outPath index member rfl
    exact .inl (same ▸ member)

end

variable {load : QueryLoad}

theorem kept_of_free (free : Settled queries load item)
    (inside : ∀ place ∈ rest, place ∈ load.items) :
    ∀ place ∈ item ::ₘ rest, Owed queries load place := by
  intro place member
  obtain rfl | old := mem_cons.mp member
  · exact .inr free
  · exact .inl (inside place old)

theorem places_of_move (good : PlaceGood queries targets next place) :
    ∀ other ∈ place ::ₘ rest, other ∈ item ::ₘ rest ∨ PlaceGood queries targets next other := by
  intro other member
  obtain rfl | old := mem_cons.mp member
  · exact .inr good
  · exact .inl (mem_cons_of_mem old)

theorem locks_of_move (free : ∀ jobs index, item = .enqueue jobs (some index) →
      ∃ jobs, .enqueue jobs (some index) ∈ others) (inside : rest ⊆ others) :
    ∀ jobs index, .enqueue jobs (some index) ∈ item ::ₘ rest →
      ∃ jobs, .enqueue jobs (some index) ∈ others := by
  intro jobs index member
  obtain same | old := mem_cons.mp member
  · exact free jobs index same.symm
  · exact ⟨jobs, inside old⟩

theorem fetches_of_move (same : place.substituting = item.substituting) :
    (place ::ₘ rest).filterMap substituting = (item ::ₘ rest).filterMap substituting := by
  cases at_ : item.substituting with
  | none =>
    rw [filterMap_cons_none _ _ at_, filterMap_cons_none _ _ (same.trans at_)]
  | some path =>
    rw [filterMap_cons_some _ _ _ at_, filterMap_cons_some _ _ _ (same.trans at_)]

variable {job : Job}

theorem Good.submit (good : Good queries targets sure ⟨state, job :: unsubmitted, jobs, items⟩) :
    Good queries targets sure ⟨state, unsubmitted, job ::ₘ jobs, items⟩ := by
  refine good.pass (fun _ => .inl) (fun _ => .inl) (fun jobs _ member => ⟨jobs, member⟩) rfl ?_
  rw [todo_take]
  simp [todo, ← cons_coe]

theorem start_item_good (job : Job) : PlaceGood queries targets state (startItem job) := by
  cases job <;> trivial

theorem Good.take (good : Good queries targets sure ⟨state, unsubmitted, job ::ₘ jobs, items⟩) :
    Good queries targets sure ⟨state, unsubmitted, jobs, startItem job ::ₘ items⟩ := by
  have idle : (startItem job).substituting = none := by cases job <;> rfl
  refine good.pass (fun _ member => .inl (mem_cons_of_mem member)) ?_
    (fun jobs _ member => ⟨jobs, mem_cons_of_mem member⟩) (filterMap_cons_none _ _ idle) ?_
  · intro place member
    obtain rfl | old := mem_cons.mp member
    · exact .inr (start_item_good job)
    · exact .inl old
  · rw [todo_cons, start_item_todo, singleton_add, todo_take]

section

variable (good : Good queries targets sure ⟨state, unsubmitted, jobs, item ::ₘ rest⟩)

include good

theorem Good.finish (ends : item = .done ∨ item = .enqueue [] none) :
    Good queries targets sure ⟨state, unsubmitted, jobs, rest⟩ := by
  have nothing : item.todo = 0 ∧ item.substituting = none := by
    obtain rfl | rfl := ends <;> exact ⟨rfl, rfl⟩
  refine good.pass (kept_of_free ?_ fun _ => id) (fun _ member => .inl (mem_cons_of_mem member))
    (locks_of_move ?_ fun _ => id) (filterMap_cons_none _ _ nothing.2).symm ?_
  · obtain rfl | rfl := ends <;> trivial
  · rintro others index rfl
    obtain same | same := ends <;> cases same
  · rw [todo_cons, nothing.1, zero_add]

omit good in
theorem Good.enqueue {others : List Job} {held : Option Nat}
    (good : Good queries targets sure ⟨state, unsubmitted, jobs, .enqueue (job :: others) held ::ₘ rest⟩) :
    Good queries targets sure ⟨state, unsubmitted, job ::ₘ jobs, .enqueue others held ::ₘ rest⟩ := by
  refine good.pass (kept_of_free trivial fun _ => mem_cons_of_mem) (places_of_move trivial)
    (locks_of_move ?_ (subset_cons _ _)) (fetches_of_move rfl) ?_
  · intro some index same
    cases same
    exact ⟨others, mem_cons_self _ _⟩
  · rw [todo_cons, todo_cons, todo_take, ItemPlace.todo, ItemPlace.todo, ← cons_coe,
      add_cons, cons_add]

theorem Good.handOn (same : place.todo = item.todo) (free : ∀ load, Settled queries load item)
    (placeGood : PlaceGood queries targets state place)
    (unlocked : ∀ jobs index, item ≠ .enqueue jobs (some index))
    (fetches : place.substituting = item.substituting) :
    Good queries targets sure ⟨state, unsubmitted, jobs, place ::ₘ rest⟩ := by
  refine good.pass (kept_of_free (free _) fun _ => mem_cons_of_mem)
    (places_of_move placeGood) (locks_of_move (fun jobs index same => absurd same (unlocked jobs index))
    (subset_cons _ _)) (fetches_of_move fetches) ?_
  rw [todo_cons, todo_cons, same]

end

variable {drvPath outPath : StorePath} {index : Nat}

theorem Good.dropOutput (good : Good queries targets sure ⟨state, unsubmitted, jobs, item ::ₘ rest⟩)
    (about : item.todo = {.checkOutput drvPath outPath index}) (nothing : place.todo = 0)
    (free : ∀ load, Settled queries load item) (placeGood : PlaceGood queries targets state place)
    (unlocked : ∀ jobs index, item ≠ .enqueue jobs (some index))
    (fetches : place.substituting = item.substituting)
    (reason : (state.drvStates index).drvPath = drvPath → (state.drvStates index).done = true ∨
      (place = .giveUp drvPath index ∧ ¬Substitutable queries drvPath outPath)) :
    Good queries targets sure ⟨state, unsubmitted, jobs, place ::ₘ rest⟩ := by
  have isTodo : todo ⟨state, unsubmitted, jobs, item ::ₘ rest⟩ =
      .checkOutput drvPath outPath index ::ₘ todo ⟨state, unsubmitted, jobs, place ::ₘ rest⟩ := by
    rw [todo_cons, todo_cons, about, nothing, zero_add, singleton_add]
  refine good.still (kept_of_free (free _) fun _ => mem_cons_of_mem)
    (places_of_move placeGood) (locks_of_move (fun jobs index same => absurd same (unlocked jobs index))
    (subset_cons _ _)) (fetches_of_move fetches) ?_ ?_ ?_
  · rw [isTodo]
    exact le_cons_self _ _
  · intro req member
    rw [isTodo] at member
    obtain same | old := mem_cons.mp member
    · cases same
    · exact .inr old
  · intro otherDrv otherPath number member isDrv
    rw [isTodo] at member
    obtain same | old := mem_cons.mp member
    · cases same
      obtain isDone | ⟨gives, unable⟩ := reason isDrv
      · exact .inr (.inl isDone)
      · refine .inr (.inr ⟨.inl ?_, isDrv ▸ unable⟩)
        rw [isDrv, gives]
        exact mem_cons_self _ _
    · exact .inl (isDrv ▸ old)

theorem extends_of_move (grows : Grows state next) (requests : ∀ req, .doPath req ∈ item.todo →
      Started queries ⟨next, unsubmitted, jobs, place ::ₘ rest⟩ req)
    (settles : Owed queries ⟨next, unsubmitted, jobs, place ::ₘ rest⟩ item) :
    Extends queries ⟨state, unsubmitted, jobs, item ::ₘ rest⟩
      ⟨next, unsubmitted, jobs, place ::ₘ rest⟩ := by
  refine ⟨grows, fun req member => ?_, fun other member => ?_⟩
  · obtain new | old := mem_todo_cons.mp member
    · exact requests req new
    · exact .inr (mem_todo_cons.mpr (.inr old))
  · obtain rfl | old := mem_cons.mp member
    · exact settles
    · exact .inl (mem_cons_of_mem old)

section

variable (good : Good queries targets sure ⟨state, unsubmitted, jobs, item ::ₘ rest⟩)

include good

theorem Good.askedOfMove (asked : ∀ req, .doPath req ∈ place.todo → Asked queries targets req)
    (req : DerivedPath) (member : .doPath req ∈ todo ⟨next, unsubmitted, jobs, place ::ₘ rest⟩) :
    Asked queries targets req := by
  obtain new | old := mem_todo_cons.mp member
  · exact asked req new
  · exact good.asked req (mem_todo_cons.mpr (.inr old))

/-- Steps that change no state of a derivation and look no output up. -/
theorem Good.request (isAfter : load = ⟨next, unsubmitted, jobs, place ::ₘ rest⟩)
    (grows : Grows state next) (created : next.created = state.created)
    (drvStates : next.drvStates = state.drvStates)
    (requests : ∀ req, .doPath req ∈ item.todo → Started queries load req)
    (settles : Owed queries load item)
    (asked : ∀ req, .doPath req ∈ place.todo → Asked queries targets req)
    (placeGood : PlaceGood queries targets next place)
    (entered : ∀ req, sure req → req.toString queries.config ∈ next.done →
      req.toString queries.config ∈ state.done ∨ Owed queries load (follow queries req))
    (sound : Sound queries targets next)
    (noOutput : ∀ drvPath outPath index, .checkOutput drvPath outPath index ∉ item.todo ∧
      .checkOutput drvPath outPath index ∉ place.todo)
    (unlocked : ∀ jobs index, item ≠ .enqueue jobs (some index))
    (fetching : Fetching queries next ((place ::ₘ rest).filterMap substituting)) :
    Good queries targets sure load := by
  have sameCount : ∀ drvPath outPath index, (todo load).count (.checkOutput drvPath outPath index) =
      (todo ⟨state, unsubmitted, jobs, item ::ₘ rest⟩).count
        (.checkOutput drvPath outPath index) := by
    intro drvPath outPath index
    rw [isAfter, todo_cons, todo_cons, count_add, count_add,
      count_eq_zero_of_notMem (noOutput drvPath outPath index).1,
      count_eq_zero_of_notMem (noOutput drvPath outPath index).2]
    rfl
  subst isAfter
  refine good.grow (extends_of_move grows requests settles)
    (good.askedOfMove asked) (places_of_move placeGood) entered sound created drvStates
    (fun drvPath outPath index => Nat.le_of_eq (sameCount drvPath outPath index)) ?_
    (locks_of_move (fun jobs index same => absurd same (unlocked jobs index))
      (subset_cons _ _)) fetching
  rintro drvPath outPath index member rfl
  refine .inl (count_pos.mp ?_)
  rw [sameCount]
  exact count_pos.mpr member

end

variable {req : DerivedPath}

theorem follow_ok {planned : Plan} (isPlan : plan queries req = .ok planned) :
    follow queries req = planned.place := by
  rw [follow, isPlan]

theorem fetches_none (idle : place.substituting = none) :
    (place ::ₘ rest).filterMap substituting = rest.filterMap substituting :=
  filterMap_cons_none _ _ idle

theorem Good.fetchingRest (good : Good queries targets sure ⟨state, unsubmitted, jobs, item ::ₘ rest⟩)
    (idle : item.substituting = none) :
    Fetching queries state (rest.filterMap substituting) :=
  fetches_none idle ▸ good.fetching

theorem follow_good (never : NeverThrows queries targets) (asked : Asked queries targets req)
    (state : State) :
    (follow queries req).todo = 0 ∧ PlaceGood queries targets state (follow queries req) ∧
      ∀ path, (follow queries req).substituting = some path → req = .opaquePath path := by
  cases isPlan : plan queries req with
  | error error => exact absurd isPlan (never req error asked)
  | ok planned =>
    rw [follow_ok isPlan]
    have isPlanned : Planned queries targets planned := ⟨req, asked, isPlan⟩
    cases planned with
    | nothing => exact ⟨rfl, trivial, nofun⟩
    | unknown path | check drvPath invalid => exact ⟨rfl, isPlanned, nofun⟩
    | build drvPath => exact ⟨rfl, ⟨.build drvPath, isPlanned, rfl⟩, nofun⟩
    | substitute path info =>
      refine ⟨rfl, isPlanned, fun other same => ?_⟩
      cases same
      exact (plan_substitute isPlan).1

theorem path_todo_no_output : .checkOutput drvPath outPath index ∉ (doPath req).todo := by
  intro member
  cases mem_singleton.mp member

theorem Good.seenPath
    (good : Good queries targets sure ⟨state, unsubmitted, jobs, .doPath req ::ₘ rest⟩)
    (seen : req.toString queries.config ∈ state.done) :
    Good queries targets sure ⟨state, unsubmitted, jobs, .done ::ₘ rest⟩ := by
  refine good.request rfl (.refl state) rfl rfl ?_ (.inr trivial) nofun trivial
    (fun _ _ => .inl) good.sound ?_ nofun ?_
  · intro other member
    cases mem_singleton.mp member
    exact .inl seen
  · exact fun drvPath outPath index => ⟨path_todo_no_output, nofun⟩
  · rw [fetches_none rfl]
    exact good.fetchingRest rfl

variable {fetching : Multiset StorePath}

theorem Fetching.enter (good : Fetching queries state fetching) (text : Bytes) :
    Fetching queries (state.insertDone text) fetching :=
  ⟨good.once, fun path member => Finset.mem_insert_of_mem (good.seen path member),
    good.downloadSize, good.narSize⟩

variable {path : StorePath}

theorem Fetching.enterPath (good : Fetching queries state fetching) {text : Bytes}
    (isText : (DerivedPath.opaquePath path).toString queries.config = text)
    (fresh : text ∉ state.done) : Fetching queries (state.insertDone text) (path ::ₘ fetching) := by
  refine ⟨?_, ?_, good.downloadSize, good.narSize⟩
  · rw [cons_add]
    exact nodup_cons.mpr ⟨fun member => fresh (isText ▸ good.seen path member), good.once⟩
  intro other member
  rw [cons_add] at member
  obtain rfl | old := mem_cons.mp member
  · exact isText ▸ Finset.mem_insert_self _ _
  · exact Finset.mem_insert_of_mem (good.seen other old)

theorem Good.newPath (never : NeverThrows queries targets)
    (good : Good queries targets sure ⟨state, unsubmitted, jobs, .doPath req ::ₘ rest⟩)
    (fresh : req.toString queries.config ∉ state.done)
    (certain : ∀ other, sure other → other.toString queries.config = req.toString queries.config →
      plan queries other = plan queries req) :
    Good queries targets sure ⟨state.insertDone (req.toString queries.config), unsubmitted, jobs,
      follow queries req ::ₘ rest⟩ := by
  have asked : Asked queries targets req :=
    good.asked req (mem_todo_cons.mpr (.inl (mem_singleton_self _)))
  obtain ⟨nothing, placeGood, fetches⟩ := follow_good never asked
    (state.insertDone (req.toString queries.config))
  have old : Fetching queries state (rest.filterMap substituting) :=
    good.fetchingRest rfl
  refine good.request rfl ⟨Finset.subset_insert _ _, subset_rfl, subset_rfl, subset_rfl, Nat.le_refl _,
    fun _ _ => ⟨rfl, rfl⟩⟩ rfl rfl ?_ (.inr trivial) ?_ placeGood ?_
    { good.sound with } ?_ nofun ?_
  · intro other member
    cases mem_singleton.mp member
    exact .inl (Finset.mem_insert_self _ _)
  · rw [nothing]
    exact nofun
  · intro other isSure seen
    obtain same | before := Finset.mem_insert.mp seen
    · have sameFollow : follow queries other = follow queries req := by
        rw [follow, follow, certain other isSure same]
      exact .inr (.inl (sameFollow ▸ mem_cons_self _ _))
    · exact .inl before
  · rw [nothing]
    exact fun drvPath outPath index => ⟨path_todo_no_output, nofun⟩
  · cases at_ : (follow queries req).substituting with
    | none =>
      rw [filterMap_cons_none _ _ at_]
      exact old.enter _
    | some path =>
      rw [filterMap_cons_some _ _ _ at_]
      exact old.enterPath (congrArg _ (fetches path at_).symm) fresh

theorem Good.fetchingStill
    (good : Good queries targets sure ⟨state, unsubmitted, jobs, item ::ₘ rest⟩)
    (idle : item.substituting = none) (placeIdle : place.substituting = none)
    (done : state.done = next.done) (same : state.willSubstitute = next.willSubstitute)
    (downloadSize : next.downloadSize = state.downloadSize)
    (narSize : next.narSize = state.narSize) :
    Fetching queries next ((place ::ₘ rest).filterMap substituting) := by
  obtain ⟨once, seen, oldDownloadSize, oldNarSize⟩ := good.fetchingRest idle
  rw [fetches_none placeIdle]
  exact ⟨same ▸ once, done ▸ same ▸ seen, same ▸ downloadSize.trans oldDownloadSize,
    same ▸ narSize.trans oldNarSize⟩

theorem Good.insertUnknown
    (good : Good queries targets sure ⟨state, unsubmitted, jobs, .insertUnknown path ::ₘ rest⟩) :
    Good queries targets sure ⟨state.insertUnknown path, unsubmitted, jobs, .done ::ₘ rest⟩ := by
  have isPlanned : Planned queries targets (.unknown path) :=
    good.places _ (mem_cons_self _ _)
  refine good.request rfl ⟨subset_rfl, Finset.subset_insert _ _, subset_rfl, subset_rfl, Nat.le_refl _,
    fun _ _ => ⟨rfl, rfl⟩⟩ rfl rfl nofun (.inr (Finset.mem_insert_self _ _)) nofun trivial
    (fun _ _ => .inl) ⟨?_, good.sound.willSubstitute, good.sound.willBuild⟩
    (fun _ _ _ => ⟨nofun, nofun⟩) nofun (good.fetchingStill rfl rfl rfl rfl rfl rfl)
  intro other member
  obtain rfl | old := Finset.mem_insert.mp member
  · exact isPlanned
  · exact good.sound.unknown other old

variable {info : SubstitutablePathInfo}

theorem Fetching.insertSubstitute (good : Fetching queries state (path ::ₘ fetching))
    (isInfo : queries.querySubstitutablePathInfo path none = some info) :
    Fetching queries (state.insertSubstitute path info) fetching := by
  obtain ⟨once, seen, downloadSize, narSize⟩ := good
  have fresh : path ∉ state.willSubstitute := by
    rw [cons_add] at once
    exact fun member => (nodup_cons.mp once).1 (mem_add.mpr (.inr member))
  have moved : fetching + (insert path state.willSubstitute).val =
      path ::ₘ fetching + state.willSubstitute.val := by
    rw [Finset.insert_val_of_notMem fresh, add_cons, cons_add]
  have summed : ∀ size : SubstitutablePathInfo → BitVec 64,
      ∑ other ∈ insert path state.willSubstitute, substitutedSize queries size other =
        ∑ other ∈ state.willSubstitute, substitutedSize queries size other + size info := by
    intro size
    rw [Finset.sum_insert fresh, add_comm, substitutedSize, isInfo]
    rfl
  refine ⟨?_, ?_, ?_, ?_⟩
  · exact moved ▸ once
  · intro other member
    refine seen other ?_
    rw [← moved]
    exact member
  · rw [State.insertSubstitute, downloadSize, summed]
  · rw [State.insertSubstitute, narSize, summed]

theorem Good.insertSubstitute (good : Good queries targets sure
      ⟨state, unsubmitted, jobs, .insertSubstitute path info ::ₘ rest⟩) :
    Good queries targets sure ⟨state.insertSubstitute path info, unsubmitted, jobs,
      .enqueue (opaqueJobs info.references) none ::ₘ rest⟩ := by
  obtain ⟨req, asked, isPlan⟩ : Planned queries targets (.substitute path info) :=
    good.places _ (mem_cons_self _ _)
  refine good.request rfl ⟨subset_rfl, subset_rfl, Finset.subset_insert _ _, subset_rfl, Nat.le_refl _,
    fun _ _ => ⟨rfl, rfl⟩⟩ rfl rfl nofun (.inr ⟨Finset.mem_insert_self _ _, ?_⟩) ?_ trivial
    (fun _ _ => .inl) ⟨good.sound.unknown, ?_, good.sound.willBuild⟩
    (fun _ _ _ => ⟨nofun, check_mem_opaque_jobs⟩) nofun ?_
  · intro reference member
    exact .inr (mem_todo_cons.mpr (.inl (do_path_mem_opaque_jobs.mpr ⟨reference, member, rfl⟩)))
  · exact fun next member => .child asked isPlan member
  · intro other member
    obtain rfl | old := Finset.mem_insert.mp member
    · exact ⟨info, req, asked, isPlan⟩
    · exact good.sound.willSubstitute other old
  · have old : Fetching queries state (path ::ₘ rest.filterMap substituting) :=
      filterMap_cons_some substituting (.insertSubstitute path info) rest
        (b := path) rfl ▸ good.fetching
    rw [fetches_none rfl]
    exact old.insertSubstitute (plan_substitute isPlan).2

theorem Builds.inputs (builds : Builds queries targets drvPath)
    (member : .doPath req ∈ inputJobs queries drvPath) : Asked queries targets req := by
  obtain ⟨planned, ⟨parent, asked, isPlan⟩, isDrv⟩ := builds
  refine .child asked isPlan ?_
  cases planned with
  | build other =>
    cases isDrv
    exact member
  | check other invalid =>
    rw [Plan.builds] at isDrv
    split at isDrv
    · cases isDrv
    next notAll =>
      cases isDrv
      rw [Plan.children, if_neg notAll]
      exact member
  | _ => cases isDrv

theorem Good.mustBuildDrv
    (good : Good queries targets sure ⟨state, unsubmitted, jobs, .mustBuildDrv drvPath ::ₘ rest⟩) :
    Good queries targets sure ⟨state.insertBuild drvPath, unsubmitted, jobs,
      .enqueue (inputJobs queries drvPath) none ::ₘ rest⟩ := by
  have builds : Builds queries targets drvPath := good.places _ (mem_cons_self _ _)
  refine good.request rfl ⟨subset_rfl, subset_rfl, subset_rfl, Finset.subset_insert _ _, Nat.le_refl _,
    fun _ _ => ⟨rfl, rfl⟩⟩ rfl rfl nofun (.inr ⟨Finset.mem_insert_self _ _, ?_⟩)
    (fun _ => builds.inputs) trivial (fun _ _ => .inl)
    ⟨good.sound.unknown, good.sound.willSubstitute, ?_⟩
    (fun _ _ _ => ⟨nofun, check_mem_input_jobs⟩) nofun
    (good.fetchingStill rfl rfl rfl rfl rfl rfl)
  · intro req member
    exact .inr (mem_todo_cons.mpr (.inl (do_path_mem_input_jobs.mpr member)))
  intro other member
  obtain rfl | old := Finset.mem_insert.mp member
  · exact builds
  · exact good.sound.willBuild other old

theorem set_drv_same (state : State) (index : Nat) (drv : DrvState) :
    (state.setDrv index drv).drvStates index = drv := Function.update_self _ _ _

theorem set_drv_other (state : State) {other : Nat} (drv : DrvState) (differ : other ≠ index) :
    (state.setDrv index drv).drvStates other = state.drvStates other :=
  Function.update_of_ne differ _ _

variable {drv : DrvState}

section

variable (good : Good queries targets sure ⟨state, unsubmitted, jobs, item ::ₘ rest⟩)

include good

theorem Good.locksOfMove (inside : index < state.created)
    (unlocked : ∀ others, item ≠ .enqueue others (some index))
    (locked : (state.drvStates index).locked = true) :
    ∃ others, .enqueue others (some index) ∈ place ::ₘ rest := by
  obtain ⟨others, member⟩ := (good.drvs index inside).locks locked
  obtain isItem | old := mem_cons.mp member
  · exact absurd isItem.symm (unlocked others)
  · exact ⟨others, mem_cons_of_mem old⟩

/-- Steps that change the state of one derivation. -/
theorem Good.setDrv (isAfter : load = ⟨state.setDrv index drv, unsubmitted, jobs, place ::ₘ rest⟩)
    (sameDrv : drv.drvPath = (state.drvStates index).drvPath)
    (sameOutputs : drv.outputs = (state.drvStates index).outputs)
    (requests : ∀ req, .doPath req ∉ item.todo) (settles : Owed queries load item)
    (asked : ∀ req, .doPath req ∈ place.todo → Asked queries targets req)
    (placeGood : PlaceGood queries targets (state.setDrv index drv) place)
    (outputs : ∀ drvPath outPath other, other ≠ index →
      .checkOutput drvPath outPath other ∉ item.todo)
    (noOutput : ∀ drvPath outPath other, .checkOutput drvPath outPath other ∉ place.todo)
    (counted : ∀ outPath ∈ drv.outPaths, outPath ∉ (state.drvStates index).outPaths →
      .checkOutput (state.drvStates index).drvPath outPath index ∈ item.todo)
    (locks : ∀ others other, other ≠ index → item ≠ .enqueue others (some other))
    (drvGood : index < state.created →
      Extends queries ⟨state, unsubmitted, jobs, item ::ₘ rest⟩ load →
      DrvGood queries targets load index drv)
    (idle : item.substituting = none) (placeIdle : place.substituting = none) :
    Good queries targets sure load := by
  have fewer : ∀ drvPath outPath other, (todo load).count (.checkOutput drvPath outPath other) +
      item.todo.count (.checkOutput drvPath outPath other) =
      (todo ⟨state, unsubmitted, jobs, item ::ₘ rest⟩).count
        (.checkOutput drvPath outPath other) := by
    intro drvPath outPath other
    rw [isAfter, todo_cons, todo_cons, count_add, count_add,
      count_eq_zero_of_notMem (noOutput drvPath outPath other), Nat.zero_add, Nat.add_comm]
    rfl
  subst isAfter
  have grows : Grows state (state.setDrv index drv) := by
    refine ⟨subset_rfl, subset_rfl, subset_rfl, subset_rfl, Nat.le_refl _, fun other _ => ?_⟩
    by_cases same : other = index
    · rw [same, set_drv_same]
      exact ⟨sameDrv, sameOutputs⟩
    · rw [set_drv_other state drv same]
      exact ⟨rfl, rfl⟩
  have ext := extends_of_move grows
    (fun req member => absurd member (requests req)) settles
  refine good.extend ext (good.askedOfMove asked) (places_of_move placeGood) (fun _ _ => .inl)
    { good.sound with } ⟨?_, ?_⟩ ?_
    (good.fetchingStill idle placeIdle rfl rfl rfl rfl)
  · intro drvPath outPath other member
    have count := fewer drvPath outPath other
    have here := count_pos.mpr member
    obtain ⟨inside, isDrv, wanted, fresh⟩ := good.outstanding.about drvPath outPath other
      (count_pos.mp (by omega))
    refine ⟨inside, ?_⟩
    by_cases same : other = index
    · subst same
      rw [set_drv_same]
      refine ⟨sameDrv.trans isDrv, sameOutputs ▸ wanted, fun inPaths => ?_⟩
      -- the item was the only one about this output
      have onItem := count_pos.mpr (counted outPath inPaths fresh)
      rw [isDrv] at onItem
      have once := good.outstanding.once drvPath outPath other
      omega
    · rw [set_drv_other state drv same]
      exact ⟨isDrv, wanted, fresh⟩
  · intro drvPath outPath other
    have count := fewer drvPath outPath other
    have once := good.outstanding.once drvPath outPath other
    omega
  · intro other inside
    by_cases same : other = index
    · subst same
      rw [set_drv_same]
      exact drvGood inside ext
    rw [set_drv_other state drv same]
    refine (good.drvs other inside).extend ext (fun outPath waits => .inl ?_)
      (good.locksOfMove inside fun others => locks others other same)
    obtain new | old := mem_todo_cons.mp waits
    · exact absurd new (outputs _ outPath other same)
    · exact mem_todo_cons.mpr (.inr old)

end

theorem Good.giveUp
    (good : Good queries targets sure ⟨state, unsubmitted, jobs, .giveUp drvPath index ::ₘ rest⟩) :
    Good queries targets sure ⟨state.giveUp index, unsubmitted, jobs, .mustBuildDrv drvPath ::ₘ rest⟩ := by
  obtain ⟨inside, isDrv, notAll⟩ := good.places _ (mem_cons_self _ _)
  have isPlanned := (good.drvs index inside).planned
  refine good.setDrv rfl rfl rfl nofun (.inr (.inl (mem_cons_self _ _))) nofun ?_ nofun nofun
    (fun outPath counted fresh => absurd counted fresh) nofun ?_ rfl rfl
  · refine ⟨.check drvPath (state.drvStates index).outputs, isDrv ▸ isPlanned, ?_⟩
    rw [Plan.builds, if_neg notAll]
  intro _ ext
  have old : DrvGood queries targets ⟨state.giveUp index, unsubmitted, jobs,
      .mustBuildDrv drvPath ::ₘ rest⟩ index (state.drvStates index) := by
    refine (good.drvs index inside).extend ext (fun outPath waits => .inl ?_)
      (good.locksOfMove inside nofun)
    rw [todo_cons] at waits ⊢
    exact waits
  have owed : Owed queries ⟨state.giveUp index, unsubmitted, jobs,
      .mustBuildDrv drvPath ::ₘ rest⟩ (.mustBuildDrv (state.drvStates index).drvPath) :=
    .inl (isDrv ▸ mem_cons_self _ _)
  refine ⟨old.planned, old.counted, old.within, old.able, fun _ => ⟨?_, owed⟩, old.whole,
    fun _ => .inl (.inr owed), old.locks⟩
  rw [isDrv]
  exact notAll

theorem Good.release
    (good : Good queries targets sure ⟨state, unsubmitted, jobs, .enqueue [] (some index) ::ₘ rest⟩) :
    Good queries targets sure ⟨state.setLocked index false, unsubmitted, jobs, .done ::ₘ rest⟩ := by
  refine good.setDrv rfl rfl rfl nofun (.inr trivial) nofun trivial nofun nofun
    (fun outPath counted fresh => absurd counted fresh) ?_ ?_ rfl rfl
  · intro others other differ same
    cases same
    exact differ rfl
  intro inside ext
  refine (good.drvs index inside).extend ext (fun outPath waits => .inl ?_) nofun
  rw [todo_cons] at waits ⊢
  exact waits

theorem DrvGood.filled (good : DrvGood queries targets load index drv)
    (wanted : outPath ∈ drv.outputs) (fresh : outPath ∉ drv.outPaths) (last : drv.left - 1 = 0) :
    insert outPath drv.outPaths = drv.outputs := by
  refine Finset.eq_of_subset_of_card_le (Finset.insert_subset wanted good.within) ?_
  have counted := good.counted
  rw [Finset.card_insert_of_notMem fresh]
  omega

inductive CountedTo (outPath : StorePath) (index : Nat) (drv : DrvState) : Bool → ItemPlace → Prop where
  | all (last : drv.left - 1 = 0) : CountedTo outPath index drv true
      (.enqueue (opaqueJobs (insert outPath drv.outPaths)) (some index))
  | some (more : drv.left - 1 ≠ 0) : CountedTo outPath index drv drv.locked .done

theorem Good.countDown {locked : Bool}
    (good : Good queries targets sure ⟨state, unsubmitted, jobs, .countDown drvPath outPath index ::ₘ rest⟩)
    (undone : (state.drvStates index).done = false) (left : (state.drvStates index).left ≠ 0)
    (ends : CountedTo outPath index (state.drvStates index) locked place) :
    Good queries targets sure ⟨state.setDrv index { state.drvStates index with
        left := (state.drvStates index).left - 1
        outPaths := insert outPath (state.drvStates index).outPaths
        locked }, unsubmitted, jobs, place ::ₘ rest⟩ := by
  have able : Substitutable queries drvPath outPath := good.places _ (mem_cons_self _ _)
  obtain ⟨inside, isDrv, wanted, fresh⟩ := good.outstanding.about drvPath outPath index
    (mem_todo_cons.mpr (.inl (mem_singleton_self _)))
  have old := good.drvs index inside
  generalize isState : state.drvStates index = drv at undone left ends isDrv wanted fresh old
  subst isDrv
  have ableAll : ∀ other ∈ insert outPath drv.outPaths, Substitutable queries drv.drvPath other := by
    intro other member
    obtain rfl | counted := Finset.mem_insert.mp member
    · exact able
    · exact old.able other counted
  have requests : ∀ req, .doPath req ∈ place.todo → Asked queries targets req := by
    cases ends with
    | some => exact nofun
    | all last =>
      have filled := old.filled wanted fresh last
      have all : AllSubstitutable queries drv.drvPath drv.outputs := filled ▸ ableAll
      obtain ⟨parent, asked, isPlan⟩ := old.planned
      intro req member
      refine .child asked isPlan ?_
      rw [Plan.children, if_pos all, ← filled]
      exact member
  have noOutput : ∀ drvPath outPath other, .checkOutput drvPath outPath other ∉ place.todo := by
    cases ends with
    | some => exact nofun
    | all => exact fun _ _ _ => check_mem_opaque_jobs
  refine good.setDrv rfl (isState ▸ rfl) (isState ▸ rfl) ?_ (.inr trivial) requests
    (by cases ends <;> trivial) ?_ noOutput ?_ nofun ?_ rfl (by cases ends <;> rfl)
  · intro req member
    cases mem_singleton.mp member
  · intro otherDrv otherPath other differ member
    cases mem_singleton.mp member
    exact differ rfl
  · intro other member isFresh
    rw [isState] at isFresh ⊢
    obtain rfl | counted := Finset.mem_insert.mp member
    · exact mem_singleton_self _
    · exact absurd counted isFresh
  · intro _ ext
    have stays : ∀ other, other ≠ outPath → .checkOutput drv.drvPath other index ∈
          todo ⟨state, unsubmitted, jobs, .countDown drv.drvPath outPath index ::ₘ rest⟩ →
        .checkOutput drv.drvPath other index ∈ todo ⟨state.setDrv index { drv with
          locked }, unsubmitted, jobs, place ::ₘ rest⟩ := by
      intro other differ waits
      obtain same | older := mem_todo_cons.mp waits
      · cases mem_singleton.mp same
        exact absurd rfl differ
      · exact mem_todo_cons.mpr (.inr older)
    refine ⟨old.planned, ?_, Finset.insert_subset wanted old.within, ableAll, ?_, ?_, ?_, ?_⟩
    · dsimp only
      have counted := old.counted
      rw [Finset.card_insert_of_notMem fresh]
      omega
    · intro isDone
      cases undone.symm.trans isDone
    · intro all
      obtain started | ⟨_, each⟩ := old.whole all
      · exact .inl fun other member => ext.goesOn (started other member)
      cases ends with
      | all last =>
        refine .inl fun other member =>
          .inr (mem_todo_cons.mpr (.inl (do_path_mem_opaque_jobs.mpr ⟨other, ?_, rfl⟩)))
        rw [old.filled wanted fresh last]
        exact member
      | some more =>
        refine .inr ⟨more, fun other member => ?_⟩
        by_cases same : other = outPath
        · exact .inl (same ▸ Finset.mem_insert_self _ _)
        · obtain counted | waits := each other member
          · exact .inl (Finset.mem_insert_of_mem counted)
          · exact .inr (stays other same waits)
    · intro notAll
      obtain owed | ⟨_, other, member, unable, waits⟩ := old.short notAll
      · exact .inl (ext.owed owed)
      · refine .inr ⟨undone, other, member, unable, stays other ?_ waits⟩
        rintro rfl
        exact unable able
    · intro isLocked
      cases ends with
      | all => exact ⟨_, mem_cons_self _ _⟩
      | some => exact good.locksOfMove inside nofun (isState ▸ isLocked)

theorem Good.makeDrvState {invalid : Finset StorePath}
    (good : Good queries targets sure ⟨state, unsubmitted, jobs, .makeDrvState drvPath invalid ::ₘ rest⟩) :
    Good queries targets sure ⟨state.makeDrvState drvPath invalid, unsubmitted, jobs,
      .enqueue (outputJobs drvPath invalid state.created) none ::ₘ rest⟩ := by
  have isPlanned : Planned queries targets (.check drvPath invalid) :=
    good.places _ (mem_cons_self _ _)
  have new : (state.makeDrvState drvPath invalid).drvStates state.created =
      ⟨invalid.card, false, ∅, false, drvPath, invalid⟩ := Function.update_self _ _ _
  have older : ∀ index < state.created,
      (state.makeDrvState drvPath invalid).drvStates index = state.drvStates index :=
    fun index inside => Function.update_of_ne (Nat.ne_of_lt inside) _ _
  have grows : Grows state (state.makeDrvState drvPath invalid) :=
    ⟨subset_rfl, subset_rfl, subset_rfl, subset_rfl, Nat.le_succ _,
      fun index inside => older index inside ▸ ⟨rfl, rfl⟩⟩
  generalize isAfter : (⟨state.makeDrvState drvPath invalid, unsubmitted, jobs,
    .enqueue (outputJobs drvPath invalid state.created) none ::ₘ rest⟩ : QueryLoad) = after
  have isNext : todo after = (outputJobs drvPath invalid state.created : Multiset Job) +
      todo ⟨state, unsubmitted, jobs, .makeDrvState drvPath invalid ::ₘ rest⟩ := by
    rw [← isAfter, todo_cons, todo_cons]
    exact congrArg _ (zero_add _).symm
  have ext : Extends queries
      ⟨state, unsubmitted, jobs, .makeDrvState drvPath invalid ::ₘ rest⟩ after := by
    rw [← isAfter]
    refine extends_of_move grows nofun (.inr ⟨state.created, Nat.lt_succ_self _, ?_⟩)
    rw [new]
    exact ⟨rfl, rfl⟩
  have waits : ∀ outPath ∈ invalid, .checkOutput drvPath outPath state.created ∈ todo after := by
    intro outPath member
    rw [isNext]
    exact mem_add.mpr (.inl (check_mem_output_jobs.mpr ⟨rfl, member, rfl⟩))
  subst isAfter
  refine good.extend ext ?_ (places_of_move trivial) (fun _ _ => .inl)
    { good.sound with } ⟨?_, ?_⟩ ?_
    (good.fetchingStill rfl rfl rfl rfl rfl rfl)
  · intro req member
    rw [isNext] at member
    obtain fresh | old := mem_add.mp member
    · exact absurd fresh do_path_mem_output_jobs
    · exact good.asked req old
  · intro otherDrv outPath index member
    rw [isNext] at member
    obtain fresh | old := mem_add.mp member
    · obtain ⟨rfl, wanted, rfl⟩ := check_mem_output_jobs.mp fresh
      rw [new]
      exact ⟨Nat.lt_succ_self _, rfl, wanted, Finset.notMem_empty _⟩
    · obtain ⟨inside, about⟩ := good.outstanding.about otherDrv outPath index old
      rw [older index inside]
      exact ⟨Nat.lt_succ_of_lt inside, about⟩
  · intro otherDrv outPath index
    rw [isNext, count_add]
    have once := good.outstanding.once otherDrv outPath index
    by_cases fresh : .checkOutput otherDrv outPath index ∈ outputJobs drvPath invalid state.created
    · obtain ⟨rfl, wanted, rfl⟩ := check_mem_output_jobs.mp fresh
      have none : .checkOutput drvPath outPath state.created ∉
          todo ⟨state, unsubmitted, jobs, .makeDrvState drvPath invalid ::ₘ rest⟩ := fun member =>
        Nat.lt_irrefl _ (good.outstanding.about _ _ _ member).1
      rw [count_eq_zero_of_notMem none]
      refine nodup_iff_count_le_one.mp (coe_nodup.mpr ?_) _
      refine (Finset.sort_nodup _ _).map fun left right same => ?_
      cases same
      rfl
    · rw [count_eq_zero_of_notMem (by exact fresh), Nat.zero_add]
      exact once
  · intro index inside
    obtain old | rfl := Nat.lt_succ_iff_lt_or_eq.mp inside
    · rw [older index old]
      refine (good.drvs index old).extend ext (fun outPath waits => .inl ?_)
        (good.locksOfMove old nofun)
      exact isNext ▸ mem_add.mpr (.inr waits)
    rw [new]
    refine ⟨isPlanned, rfl, Finset.empty_subset _, nofun, nofun, fun all => ?_, fun notAll => ?_,
      nofun⟩
    · by_cases empty : invalid = ∅
      · exact .inl fun outPath member => absurd member (empty ▸ Finset.notMem_empty outPath)
      · refine .inr ⟨?_, fun outPath member => .inr (waits outPath member)⟩
        exact fun none => empty (Finset.card_eq_zero.mp none)
    · obtain ⟨outPath, member, unable⟩ : ∃ outPath ∈ invalid, ¬Substitutable queries drvPath outPath := by
        by_contra none
        push Not at none
        exact notAll none
      exact .inr ⟨rfl, outPath, member, unable, waits outPath member⟩

end Bsd.Store.QueryMissing
