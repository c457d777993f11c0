import Bsd.Store.RestrictedStore

/-!
# What restricted stores disclose

A request that names something forbidden is refused in the same way whatever the store
below holds, with two exceptions. A query for a realisation invokes its callback a second
time, and `queryMissing` looks below the targets that are allowed.
-/

namespace Bsd.Store.RestrictedStore

open Lib.Occurrences Lib.OrdMap Util.Hashes Util.ThreadPool Store.Path List Finset
open Store.DerivedPaths Store.Realisations Store.QueryMissing Store.PathInfoCache

variable {context : RestrictionContext} {next : NextStore}

variable {path : StorePath} {id : DrvOutput}

section

theorem build_refused {paths : List DerivedPath}
    (forbidden : ∃ req ∈ paths, context.isAllowedReq req = false) :
    ∃ req : DerivedPath, ∀ next buildMode evalStore,
      buildPathsWithResults context next paths buildMode evalStore =
        if evalStore then ⟨.aborted, context⟩
        else if buildMode ≠ .normal then
          ⟨.threw (.error (ascii "unsupported build mode")), context⟩
        else ⟨.threw (.invalidPath (ascii "cannot build " ++
          quoted (req.toString next.queries.config) ++
          ascii " in recursive Bsd because path is unknown")), context⟩ := by
  have found : (paths.find? fun req => !context.isAllowedReq req).isSome = true := by
    obtain ⟨req, member, isForbidden⟩ := forbidden
    rw [find?_isSome]
    exact ⟨req, member, by rw [isForbidden]; rfl⟩
  obtain ⟨req, isFirst⟩ := Option.isSome_iff_exists.mp found
  refine ⟨req, fun next buildMode evalStore => ?_⟩
  rw [buildPathsWithResults, isFirst]

theorem realisation_invoked_twice (forbidden : context.isAllowedOutput id = false) :
    queryRealisationUncached context next id = [.value none, .assertionFailed] := by
  rw [queryRealisationUncached, forbidden]
  dsimp only
  rw [if_neg Bool.false_ne_true, NextStore.answerRealisation]
  cases next.queryRealisation id <;> rfl

end

variable {req : DerivedPath} {given : Missing}

section Dynamic

variable {queries : Queries} {targets : List DerivedPath}

section

variable (dynamic : ∀ req ∈ targets, IsDynamic req)

include dynamic

theorem asked_dynamic (asked : Asked queries targets req) : plan queries req = .ok .nothing := by
  induction asked with
  | target member =>
    obtain ⟨drvPath, output, outputs, rfl⟩ := dynamic _ member
    rfl
  | child _ isPlan member ih =>
    cases ih.symm.trans isPlan
    cases member

theorem dynamic_never_throws : NeverThrows queries targets := by
  intro req error asked failed
  cases (asked_dynamic dynamic asked).symm.trans failed

theorem dynamic_unambiguous : Unambiguous queries targets :=
  fun _ _ leftAsked rightAsked _ =>
    (asked_dynamic dynamic leftAsked).trans (asked_dynamic dynamic rightAsked).symm

theorem not_planned {planned : Plan}
    (isPlanned : Planned queries targets planned) : planned = .nothing := by
  obtain ⟨req, asked, isPlan⟩ := isPlanned
  cases (asked_dynamic dynamic asked).symm.trans isPlan
  rfl

theorem results_of_dynamic {state : State} (results : Results queries targets state)
    (given : Missing) : given.after state = { given with downloadSize := 0, narSize := 0 } := by
  have unknown : state.unknown = ∅ := by
    refine eq_empty_of_forall_notMem fun path member => ?_
    cases not_planned dynamic ((results.unknown path).mp member)
  have willSubstitute : state.willSubstitute = ∅ := by
    refine eq_empty_of_forall_notMem fun path member => ?_
    obtain ⟨info, isPlanned⟩ := (results.willSubstitute path).mp member
    cases not_planned dynamic isPlanned
  have willBuild : state.willBuild = ∅ := by
    refine eq_empty_of_forall_notMem fun path member => ?_
    obtain ⟨planned, isPlanned, builds⟩ := (results.willBuild path).mp member
    cases not_planned dynamic isPlanned
    cases builds
  rw [Missing.after, results.downloadSize, results.narSize, unknown, willSubstitute, willBuild,
    union_empty, union_empty, union_empty]
  rfl

theorem missing_ends_dynamic {outcome : Outcome} : MissingEnds next targets given outcome ↔
      outcome = .missing { given with downloadSize := 0, narSize := 0 } := by
  have never : NeverThrows next.queries targets := dynamic_never_throws dynamic
  have onlyReturns : ∀ {maxThreads : Nat} {config : QueryConfig},
      Reached (queryCode next.queries) maxThreads (submitTargets targets) startState config →
      config.phase.isOver = true → config.phase = .returned :=
    fun reached => (query_missing_goes_on never reached).1
  constructor
  · intro ends
    cases ends with
    | returned reached returned =>
      have results := query_missing_results never (dynamic_unambiguous dynamic) reached returned
      rw [results_of_dynamic dynamic results given]
    | threw reached threw => cases threw.symm.trans (onlyReturns reached (threw ▸ rfl))
    | refused reached refused => cases refused.symm.trans (onlyReturns reached (refused ▸ rfl))
    | aborted reached aborted => cases aborted.symm.trans (onlyReturns reached (aborted ▸ rfl))
  · rintro rfl
    have start : Reached (queryCode next.queries) 0 (submitTargets targets) startState
      (initial (submitTargets targets) startState) := .refl
    obtain ⟨config, reached, returned⟩ := query_missing_can_end never start
    have results := query_missing_results never (dynamic_unambiguous dynamic) reached returned
    rw [← results_of_dynamic dynamic results given]
    exact .returned reached returned

end

end Dynamic

variable {request : Request}

theorem undisclosed_of_same (answerOf : NextStore → Answer)
    (observes : ∀ next answer, Observes context next request answer ↔ answer = answerOf next)
    (same : ∀ left right, Agree context left right → answerOf left = answerOf right)
    (once : ∀ next, InvokedOnce (answerOf next).outcome) : Undisclosed context request := by
  intro left right agree
  refine ⟨fun answer => ?_, fun answer observed => ?_⟩
  · rw [observes, observes, same left right agree]
  · rw [(observes left answer).mp observed]
    exact once left

theorem undisclosed_of_discreet (names : NamesForbidden context request)
    (discreet : Discreet context request) : Undisclosed context request := by
  cases request with
  | queryPathInfo path =>
    refine undisclosed_of_same (fun _ => ⟨.pathInfo [.value none], context⟩)
      (fun next answer => ?_) (fun _ _ _ => rfl) fun _ => rfl
    have refused : queryPathInfoUncached context next path = some [.value none] := by
      rw [queryPathInfoUncached, show context.isAllowed path = false from names]
      rfl
    constructor
    · rintro ⟨⟩
      rw [refused]
      rfl
    rintro rfl
    have observed : Observes context next (.queryPathInfo path) _ := .queryPathInfo path
    rw [refused] at observed
    exact observed
  | queryRealisation id => exact discreet.elim
  | ensurePath path =>
    refine undisclosed_of_same (fun next => ⟨ensurePath context next path, context⟩)
      (fun next answer => ⟨?_, ?_⟩) (fun left right agree => ?_) fun next => ?_
    · rintro ⟨⟩
      rfl
    · rintro rfl
      exact .ensurePath path
    · rw [ensurePath, ensurePath, agree.config]
    · rw [ensurePath]
      split <;> trivial
  | narFromPath path =>
    have forbidden : context.isAllowed path = false := names
    refine undisclosed_of_same (fun next => ⟨narFromPath context next path, context⟩)
      (fun next answer => ⟨?_, ?_⟩) (fun left right agree => ?_) fun next => ?_
    · rintro ⟨⟩
      rfl
    · rintro rfl
      exact .narFromPath path
    · rw [narFromPath, narFromPath, forbidden, agree.config]
      rfl
    · rw [narFromPath, forbidden]
      trivial
  | buildPathsWithResults paths buildMode evalStore =>
    obtain ⟨req, refused⟩ := build_refused names
    refine undisclosed_of_same
      (fun next => buildPathsWithResults context next paths buildMode evalStore)
      (fun next answer => ⟨?_, ?_⟩) (fun left right agree => ?_) fun next => ?_
    · rintro ⟨⟩
      rfl
    · rintro rfl
      exact .buildPathsWithResults paths buildMode evalStore
    · rw [refused, refused, agree.config]
    · rw [refused]
      split
      · trivial
      · split <;> trivial
  | queryMissing targets given =>
    have dynamic : ∀ req ∈ allowedTargets context targets, IsDynamic req := by
      intro req member
      obtain ⟨inside, allowed⟩ := mem_filter.mp member
      exact discreet req inside allowed
    refine undisclosed_of_same (fun _ => ⟨.missing
        { insertUnknown context targets given with downloadSize := 0, narSize := 0 }, context⟩)
      (fun next answer => ⟨?_, ?_⟩) (fun _ _ _ => rfl) fun _ => trivial
    · rintro ⟨⟩
      next outcome ends => rw [(missing_ends_dynamic dynamic).mp ends]
    · rintro rfl
      exact .queryMissing targets given ((missing_ends_dynamic dynamic).mpr rfl)

section

theorem single_text (config : StoreDirConfig) (drvPath : SingleDerivedPath) :
    ∃ path rest, drvPath.toString config = printStorePath config path ++ rest := by
  induction drvPath with
  | opaquePath path => exact ⟨path, [], (append_nil _).symm⟩
  | built drvPath output ih =>
    obtain ⟨path, rest, isText⟩ := ih
    refine ⟨path, rest ++ (ascii "^" ++ output), ?_⟩
    rw [SingleDerivedPath.toString, isText, append_assoc, append_assoc]

theorem opaque_text {config : StoreDirConfig}
    (same : (DerivedPath.opaquePath path).toString config = req.toString config) :
    .opaquePath path = req := by
  cases req with
  | opaquePath other =>
    have sameName : path.baseName = other.baseName := append_cancel_left same
    rw [base_name_injective sameName]
  | built drvPath outputs =>
    obtain ⟨drv, rest, isText⟩ := single_text config drvPath
    have texts : printStorePath config path =
        printStorePath config drv ++ (rest ++ (ascii "^" ++ outputs.toString)) := by
      rw [DerivedPath.toString, DerivedPath.toString, isText] at same
      rw [same, append_assoc, append_assoc]
    have names : path.baseName = drv.baseName ++ (rest ++ (ascii "^" ++ outputs.toString)) :=
      append_cancel_left (texts.trans (append_assoc _ _ _))
    -- the caret comes after the hash part, where no path has one
    have caret : (94 : Byte) ∈ path.name := by
      rw [StorePath.name, nameOf, names, drop_append_of_le_length drv.size]
      exact mem_append_right _ (mem_append_right _ (mem_append_left _ mem_cons_self))
    have isName := path.goodName.characters 94 caret
    have notName : isNameCharacter 94 = false := by decide
    cases notName.symm.trans isName

/-- A store in which an allowed path leads to a hidden one that may be valid. The allowed
path is a derivation or refers to the hidden path. -/
structure Bait where
  hidden : StorePath
  shown : StorePath
  isDrv : Bool
  outputName : Bytes

variable {targets : List DerivedPath}

namespace Bait

variable (bait : Bait) (valid : Bool)

def queries : Queries where
  config := usualStore
  isValidPath path :=
    (bait.isDrv && decide (path = bait.shown)) || (valid && decide (path = bait.hidden))
  queryPartialDerivationOutputMap _ :=
    ⟨[(bait.outputName, some bait.hidden)], List.pairwise_singleton _ _⟩
  derivationFromPath _ := ⟨[], .empty, ∅, [], [], [], .empty, .empty⟩
  staticOutputHashes _ := .empty
  defaultSubstituters := []
  querySubstitutablePathInfo path _ :=
    if path = bait.hidden then some ⟨∅, 1, 0⟩
    else if path = bait.shown then some ⟨{bait.hidden}, 0, 0⟩ else none
  substitutesAllowed _ := .ok true
  useSubstitutes := true
  caDerivations := true

def pathInfo (path : StorePath) : ValidPathInfo where
  path := path
  deriver := none
  narHash := ⟨.sha256, List.replicate 32 0, zero_hash_size⟩
  references := ∅
  registrationTime := 0
  narSize := 0
  id := 0
  ultimate := false
  sigs := ∅
  ca := none

def store : NextStore where
  queries := bait.queries valid
  queryPathInfo path :=
    if (bait.queries valid).isValidPath path then .ok (pathInfo path)
    else .error (.invalidPath (ascii "path " ++ quoted (printStorePath usualStore path) ++
      ascii " is not valid"))
  queryRealisation _ := .ok none
  dumpPath _ := .ok []
  buildPathsWithResults _ := .ok []
  computeFSClosure paths := .ok paths
  realisationClosure _ := .ok ∅
  isValid path := by
    split
    next isValid => exact isValid
    next invalid => exact Bool.eq_false_iff.mpr invalid

theorem agree (forbidden : context.isAllowed bait.hidden = false) :
    Agree context (bait.store false) (bait.store true) := by
  refine ⟨rfl, rfl, rfl, rfl, fun path allowed => ?_, fun _ _ => rfl, fun _ _ => rfl, fun _ _ => rfl,
    fun _ _ _ => rfl, fun _ _ => rfl, fun _ _ => rfl⟩
  have differ : path ≠ bait.hidden := by
    rintro rfl
    cases forbidden.symm.trans allowed
  have same : (bait.queries false).isValidPath path = (bait.queries true).isValidPath path := by
    simp [queries, decide_eq_false differ]
  simp [store, same]

theorem never_throws (targets : List DerivedPath) : NeverThrows (bait.queries valid) targets :=
  never_throws_of_features targets (fun _ => ⟨true, rfl⟩) rfl

variable {bait valid}

theorem size_of (path : StorePath) :
    substitutedSize (bait.queries valid) SubstitutablePathInfo.downloadSize path =
      if path = bait.hidden then 1 else 0 := by
  simp only [substitutedSize, queries]
  split
  · rfl
  · split <;> rfl

theorem size_of_valid {maxThreads : Nat} {config : QueryConfig}
    (reached : Reached (queryCode (bait.queries true)) maxThreads (submitTargets targets) startState
      config) : config.shared.state.downloadSize = 0 := by
  have good := (query_missing_good (bait.never_throws true targets) reached).2
  have total : config.shared.state.downloadSize = _ := good.fetching.downloadSize
  rw [total]
  refine sum_eq_zero fun path member => ?_
  obtain ⟨info, req, _, isPlan⟩ := good.sound.willSubstitute path member
  obtain ⟨rfl, _⟩ := plan_substitute isPlan
  rw [size_of, if_neg]
  rintro rfl
  have isValid : (bait.queries true).isValidPath bait.hidden = true := by
    simp [queries]
  rw [plan, if_pos isValid] at isPlan
  cases isPlan

theorem plan_hidden (differ : bait.shown ≠ bait.hidden) :
    plan (bait.queries false) (.opaquePath bait.hidden) = .ok (.substitute bait.hidden ⟨∅, 1, 0⟩) := by
  have invalid : (bait.queries false).isValidPath bait.hidden = false := by
    simp [queries, decide_eq_false differ.symm]
  rw [plan, if_neg (Bool.eq_false_iff.mp invalid)]
  simp [queries]

def Taken (bait : Bait) (target : DerivedPath) : Prop :=
  ∃ planned, plan (bait.queries false) target = .ok planned ∧
    .doPath (.opaquePath bait.hidden) ∈ planned.children (bait.queries false)

variable {target : DerivedPath}

theorem size_of_invalid (member : target ∈ targets) (differ : bait.shown ≠ bait.hidden)
    (taken : bait.Taken target) : ∃ maxThreads config,
      Reached (queryCode (bait.queries false)) maxThreads (submitTargets targets) startState config ∧
      config.phase = .returned ∧ config.shared.state.downloadSize = 1 := by
  obtain ⟨maxThreads, config, reached, returned, good, seen⟩ :=
    first_target (bait.never_throws false targets) member
  refine ⟨maxThreads, config, reached, returned, ?_⟩
  obtain ⟨planned, isPlan, leads⟩ := taken
  have hiddenSeen := (good.achieved (.inr rfl) seen isPlan).1 _ leads
  have alone : Alone (bait.queries false) targets (.opaquePath bait.hidden) := by
    intro other _ same
    rw [opaque_text same]
  have settled := settled_of_over good (.inl alone) hiddenSeen
  rw [follow_ok (plan_hidden differ)] at settled
  have total : config.shared.state.downloadSize = _ := good.fetching.downloadSize
  rw [total, sum_eq_single bait.hidden]
  · rw [size_of, if_pos rfl]
  · intro other _ otherwise
    rw [size_of, if_neg otherwise]
  · exact fun absent => absurd settled.1 absent

theorem taken_opaque (invalid : bait.isDrv = false) (differ : bait.shown ≠ bait.hidden) :
    bait.Taken (.opaquePath bait.shown) := by
  refine ⟨.substitute bait.shown ⟨{bait.hidden}, 0, 0⟩, ?_, ?_⟩
  · have isInvalid : (bait.queries false).isValidPath bait.shown = false := by
      simp [queries, invalid]
    have isInfo : (bait.queries false).querySubstitutablePathInfo bait.shown none =
        some ⟨{bait.hidden}, 0, 0⟩ := by
      simp [queries, if_neg differ]
    rw [plan, isInvalid, isInfo]
    rfl
  · exact do_path_mem_opaque_jobs.mpr ⟨bait.hidden, Finset.mem_singleton_self _, rfl⟩

theorem taken_built (valid : bait.isDrv = true) (differ : bait.shown ≠ bait.hidden)
    {outputs : OutputsSpec} (contains : outputs.contains bait.outputName = true) :
    bait.Taken (.built (.opaquePath bait.shown) outputs) := by
  have isValid : (bait.queries false).isValidPath bait.shown = true := by
    simp [queries, valid]
  have isInvalid : (bait.queries false).isValidPath bait.hidden = false := by
    simp [queries, decide_eq_false differ.symm]
  have scanned : scanOutputs (bait.queries false) outputs
      ((bait.queries false).queryPartialDerivationOutputMap bait.shown).entries =
        (true, {bait.hidden}) := by
    change scanOutputs (bait.queries false) outputs [(bait.outputName, some bait.hidden)] = _
    rw [scanOutputs, contains, isInvalid]
    rfl
  have able : AllSubstitutable (bait.queries false) bait.shown {bait.hidden} := by
    intro outPath member
    rw [Finset.mem_singleton.mp member]
    change (if bait.hidden = bait.hidden then _ else _ : Option SubstitutablePathInfo).isSome = true
    rw [if_pos rfl]
    rfl
  refine ⟨.check bait.shown {bait.hidden}, ?_, ?_⟩
  · rw [plan, if_pos isValid, planBuilt, scanned]
    rfl
  · rw [Plan.children, if_pos able]
    exact do_path_mem_opaque_jobs.mpr ⟨bait.hidden, Finset.mem_singleton_self _, rfl⟩

theorem disclosed (bait : Bait) (member : target ∈ targets)
    (allowed : context.isAllowedReq target = true)
    (forbidden : context.isAllowed bait.hidden = false) (differ : bait.shown ≠ bait.hidden)
    (taken : bait.Taken target) : ¬Undisclosed context (.queryMissing targets given) := by
  intro undisclosed
  obtain ⟨maxThreads, config, reached, returned, one⟩ :=
    size_of_invalid (mem_filter.mpr ⟨member, allowed⟩) differ taken
  have observed : Observes context (bait.store false) (.queryMissing targets given)
      ⟨.missing ((insertUnknown context targets given).after config.shared.state), context⟩ :=
    .queryMissing targets given (.returned reached returned)
  have other := ((undisclosed _ _ (bait.agree forbidden)).1 _).mp observed
  generalize isOutcome : Outcome.missing
    ((insertUnknown context targets given).after config.shared.state) = outcome at other
  cases other with
  | queryMissing _ _ ends =>
    cases ends with
    | returned otherReached _ =>
      have sizes := congrArg Missing.downloadSize (Outcome.missing.inj isOutcome)
      change config.shared.state.downloadSize = _ at sizes
      rw [one] at sizes
      have zero := size_of_valid otherReached
      cases sizes.trans zero
    | _ => cases isOutcome

end Bait

theorem missing_disclosed (names : NamesForbidden context (.queryMissing targets given))
    (indiscreet : ¬Discreet context (.queryMissing targets given)) :
    ¬Undisclosed context (.queryMissing targets given) := by
  obtain ⟨req, _, forbidden⟩ := names
  have someTarget : ∃ target ∈ targets, context.isAllowedReq target = true ∧ ¬IsDynamic target := by
    by_contra none
    push Not at none
    exact indiscreet none
  obtain ⟨target, member, allowed, static⟩ := someTarget
  have differ : pathPartOfReq target ≠ pathPartOfReq req := by
    intro same
    rw [RestrictionContext.isAllowedReq, same] at allowed
    cases forbidden.symm.trans allowed
  cases target with
  | opaquePath path =>
    exact Bait.disclosed ⟨pathPartOfReq req, path, false, []⟩ member allowed forbidden
      differ (Bait.taken_opaque rfl differ)
  | built drvPath outputs =>
    cases drvPath with
    | built inner output => exact absurd ⟨inner, output, outputs, rfl⟩ static
    | opaquePath drvPath =>
      have wanted : ∃ outputName, outputs.contains outputName = true := by
        cases outputs with
        | all => exact ⟨[], rfl⟩
        | names outputNames nonempty =>
          obtain ⟨outputName, inside⟩ := nonempty
          exact ⟨outputName, decide_eq_true inside⟩
      obtain ⟨outputName, contains⟩ := wanted
      exact Bait.disclosed ⟨pathPartOfReq req, drvPath, true, outputName⟩ member allowed
        forbidden differ (Bait.taken_built rfl differ contains)

theorem agree_refl (store : NextStore) : Agree context store store :=
  ⟨rfl, rfl, rfl, rfl, fun _ _ => rfl, fun _ _ => rfl, fun _ _ => rfl, fun _ _ => rfl,
    fun _ _ _ => rfl, fun _ _ => rfl, fun _ _ => rfl⟩

def exampleStore : NextStore := Bait.store ⟨exampleDrv, exampleOut, false, []⟩ false

theorem realisation_disclosed (forbidden : context.isAllowedOutput id = false) :
    ¬Undisclosed context (.queryRealisation id) := by
  intro undisclosed
  have once := (undisclosed exampleStore exampleStore (agree_refl _)).2 _ (.queryRealisation id)
  rw [realisation_invoked_twice forbidden] at once
  cases once

end

/-- A request that names something forbidden is answered without regard to what is
forbidden, with one invocation of the callback, unless it asks for a realisation or for what
is missing for an allowed path. -/
theorem undisclosed_iff_discreet (context : RestrictionContext) (request : Request)
    (names : NamesForbidden context request) :
    Undisclosed context request ↔ Discreet context request := by
  refine ⟨fun undisclosed => ?_, undisclosed_of_discreet names⟩
  by_contra indiscreet
  cases request with
  | queryRealisation id => exact realisation_disclosed names undisclosed
  | queryMissing targets given => exact missing_disclosed names indiscreet undisclosed
  | _ => exact indiscreet trivial

def emptyContext : RestrictionContext := ⟨∅, ∅, ∅⟩

def exampleId : DrvOutput := ⟨⟨.sha256, List.replicate 32 0, zero_hash_size⟩, ascii "out"⟩

def inputContext : RestrictionContext := ⟨{exampleDrv}, ∅, ∅⟩

def missingBeside (allowed : DerivedPath) : Request :=
  .queryMissing [allowed, .opaquePath exampleOut] ⟨∅, ∅, ∅, 0, 0⟩

theorem undisclosed_iff_discreet_for_input :
    Undisclosed inputContext
      (missingBeside (.built (.built (.opaquePath exampleDrv) (ascii "out")) .all)) ∧
    ¬Undisclosed inputContext (missingBeside (.opaquePath exampleDrv)) := by
  have names : ∀ req, NamesForbidden inputContext (missingBeside req) := fun req =>
    ⟨.opaquePath exampleOut, by simp, by decide +kernel⟩
  constructor
  · refine (undisclosed_iff_discreet inputContext _ (names _)).mpr ?_
    intro req member allowed
    rcases List.mem_pair.mp member with rfl | rfl
    · exact ⟨_, _, _, rfl⟩
    · exact absurd allowed (by decide +kernel)
  · intro undisclosed
    have discreet := (undisclosed_iff_discreet inputContext _ (names _)).mp undisclosed
    obtain ⟨drvPath, output, outputs, same⟩ :=
      discreet (.opaquePath exampleDrv) List.mem_cons_self (by decide +kernel)
    cases same

/-- The callback of a query for a realisation that is not allowed is invoked twice, and the
second time its assertion fails. -/
theorem forbidden_realisation_query : NamesForbidden emptyContext (.queryRealisation exampleId) ∧
      Observes emptyContext exampleStore (.queryRealisation exampleId)
        ⟨.realisation [.value none, .assertionFailed], emptyContext⟩ ∧
      ¬Undisclosed emptyContext (.queryRealisation exampleId) :=
  ⟨rfl, .queryRealisation exampleId, realisation_disclosed rfl⟩

end Bsd.Store.RestrictedStore
