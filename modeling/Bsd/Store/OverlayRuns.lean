import Bsd.Store.OverlayCopies

/-!
# Runs of the overlay store

A query for the validity of a path of the lower store copies the closure of the path. A
reference that is cached but not in the upper database is not copied, and the path
that refers to it is then refused.
-/

namespace Bsd.Store.OverlayStore

open Lib.Occurrences Lib.OrdMap Lib.Machines Lib.Memo Util.FilePath Util.Hashes Store.Path Function
  Relation
open Store.HashModulo Store.DerivationReread Store.PathInfoCache Store.ValidPaths Store.Registration
open Bsd.Store.LocalStore (invalidPath)

section

variable (config : StoreDirConfig) (lower : LowerStore) (sha : Sha256)
  (readFile : ReadFile) (start : Db)

/-- What is cached is valid in one of the layers. -/
structure Truthful (registry : Registry) : Prop where
  closed : UpperClosed config lower start registry.db
  grown : Grows start registry.db
  cached : ∀ (path : StorePath) value, registry.pathInfoCache path.baseName = some value →
    value.isSome = true ∧
      (registry.db.has (pathColumn config path) || lower.isValidPath path) = true
  filled : Filled config sha readFile registry.drvHashes

/-- Between two states only pending paths have been copied, and cached when they were. -/
structure Synced (before after : Registry) : Prop where
  grows : Grows before.db after.db
  kept : ∀ (path : StorePath) value, before.pathInfoCache path.baseName = some value →
    after.pathInfoCache path.baseName = some value
  cached : ∀ path : StorePath, before.pathInfoCache path.baseName = none →
    after.pathInfoCache path.baseName ≠ none → after.db.has (pathColumn config path) = true
  copied : ∀ path, lower.isValidPath path = true → after.db.has (pathColumn config path) = true →
    before.db.has (pathColumn config path) = false → before.pathInfoCache path.baseName = none

variable {config lower sha readFile start} {before between after : Registry} {path : StorePath}

theorem synced_refl (registry : Registry) : Synced config lower registry registry := by
  refine ⟨grows_refl registry.db, fun _ _ cached => cached, ?_, ?_⟩
  · intro path uncached cached
    exact absurd uncached cached
  · intro path _ has absent
    rw [has] at absent
    cases absent

namespace Synced

theorem uncached (synced : Synced config lower before after)
    (uncached : after.pathInfoCache path.baseName = none) :
    before.pathInfoCache path.baseName = none := by
  cases cached : before.pathInfoCache path.baseName with
  | none => rfl
  | some value =>
    rw [synced.kept path value cached] at uncached
    cases uncached

theorem absent (synced : Synced config lower before after)
    (absent : after.db.has (pathColumn config path) = false) :
    before.db.has (pathColumn config path) = false := by
  rw [Bool.eq_false_iff] at absent ⊢
  exact fun has => absent (synced.grows.has has)

theorem trans (earlier : Synced config lower before between)
    (later : Synced config lower between after) : Synced config lower before after := by
  refine ⟨earlier.grows.trans later.grows, ?_, ?_, ?_⟩
  · intro path value cached
    exact later.kept path value (earlier.kept path value cached)
  · intro path uncached cached
    by_cases uncachedBetween : between.pathInfoCache path.baseName = none
    · exact later.cached path uncachedBetween cached
    · exact later.grows.has (earlier.cached path uncached uncachedBetween)
  · intro path valid has absent
    cases hasBetween : between.db.has (pathColumn config path) with
    | true => exact earlier.copied path valid hasBetween absent
    | false => exact earlier.uncached (later.copied path valid has hasBetween)

section

variable (synced : Synced config lower before after)

include synced

theorem stale (stale : Stale config after path) : Stale config before path := by
  refine ⟨?_, synced.absent stale.absent⟩
  intro uncached
  have has := synced.cached path uncached stale.cached
  rw [stale.absent] at has
  cases has

theorem pending (pending : Pending config lower after path) : Pending config lower before path :=
  ⟨synced.uncached pending.uncached, synced.absent pending.absent, pending.valid⟩

theorem unobstructed
    (free : Unobstructed config lower before path) : Unobstructed config lower after path := by
  intro reference reached stale
  have weaker : Syncs config lower after ≤ Syncs config lower before :=
    fun _ _ syncs => ⟨synced.pending syncs.1, syncs.2⟩
  exact free reference (TransGen.mono weaker path reference reached) (synced.stale stale)

end

end Synced

end

section

variable {config : StoreDirConfig} {lower : LowerStore} {sha : Sha256}
  {readFile : ReadFile} {nesting : Nat} {start : Db}
  {before after : Registry} {path : StorePath} {info : ValidPathInfo}

theorem get_valid (found : lower.infos.get path = some info) : lower.isValidPath path = true := by
  rw [LowerStore.isValidPath, found]
  rfl

section

variable (distinct : lower.Distinct config) (found : lower.infos.get path = some info)
  (registered : Registered config sha readFile info before after)

include distinct found registered

theorem Registered.synced
    (notStale : ¬Stale config before path) : Synced config lower before after := by
  have isPath := lower.named path info found
  have cacheOther : ∀ other : StorePath, other ≠ path →
      after.pathInfoCache other.baseName = before.pathInfoCache other.baseName := by
    intro other differs
    rw [registered.cache]
    split
    · rfl
    · rw [PathInfoCache.upsert, isPath, update_of_ne]
      exact fun names => differs (base_name_injective names)
  have uncached : before.db.has (pathColumn config path) = false →
      before.pathInfoCache path.baseName = none := by
    intro absent
    by_contra cached
    exact notStale ⟨cached, absent⟩
  refine ⟨registered.grows, ?_, ?_, ?_⟩
  · intro other value cached
    by_cases same : other = path
    · rw [registered.cache, isPath, if_pos, cached]
      rw [← Bool.not_eq_false]
      intro absent
      rw [same, uncached absent] at cached
      cases cached
    · rw [cacheOther other same, cached]
  · intro other uncachedBefore cached
    by_cases same : other = path
    · rw [registered.has, same, isPath]
      exact .inl rfl
    · rw [cacheOther other same] at cached
      exact absurd uncachedBefore cached
  · intro other valid has absent
    rcases (registered.has _).mp has with same | old
    · rw [isPath] at same
      rw [distinct other path valid (get_valid found) same] at absent ⊢
      exact uncached absent
    · rw [old] at absent
      cases absent

theorem Registered.truthful (truthful : Truthful config lower sha readFile start before) :
    Truthful config lower sha readFile start after := by
  have isPath := lower.named path info found
  refine ⟨⟨registered.refsValid truthful.closed.refs, ?_⟩, truthful.grown.trans registered.grows,
    ?_, registered.filled⟩
  · intro other otherInfo foundOther has new
    rcases (registered.has _).mp has with same | old
    · rw [isPath] at same
      rw [distinct other path (get_valid foundOther) (get_valid found) same, found] at foundOther
      rw [← Option.some.inj foundOther]
      exact registered.copied
    · exact registered.grows.copied (truthful.closed.copied other otherInfo foundOther old new)
  · intro other value cached
    have kept : before.pathInfoCache other.baseName = some value → value.isSome = true ∧
        (after.db.has (pathColumn config other) || lower.isValidPath other) = true := by
      intro wasCached
      obtain ⟨isSome, valid⟩ := truthful.cached other value wasCached
      refine ⟨isSome, ?_⟩
      rw [Bool.or_eq_true] at valid ⊢
      exact valid.imp_left registered.grows.has
    rw [registered.cache] at cached
    split at cached
    · exact kept cached
    by_cases same : other = path
    · rw [PathInfoCache.upsert, isPath, same, update_self] at cached
      rw [← Option.some.inj cached, same, get_valid found, Bool.or_true]
      exact ⟨rfl, rfl⟩
    · rw [PathInfoCache.upsert, isPath,
        update_of_ne fun names => same (base_name_injective names)] at cached
      exact kept cached

end

end

variable {now : StorePath → Int} {answer : Bool}

section Queries

variable {config : StoreDirConfig} {lower : LowerStore} {sha : Sha256}
  {readFile : ReadFile} {nesting : Nat} {start : Db}

/-- What a query for the validity of `path` has done when it returns. -/
structure Served (config : StoreDirConfig) (lower : LowerStore) (sha : Sha256)
    (readFile : ReadFile) (start : Db) (path : StorePath)
    (before after : Registry) : Prop where
  truthful : Truthful config lower sha readFile start after
  synced : Synced config lower before after
  present : lower.isValidPath path = true → ¬Stale config before path →
    after.db.has (pathColumn config path) = true

def Serves (config : StoreDirConfig) (lower : LowerStore) (sha : Sha256)
    (readFile : ReadFile) (start : Db)
    (isValid : StorePath → Registry → Except Failure Bool × Registry) : Prop :=
  ∀ path before answer after, Truthful config lower sha readFile start before →
    isValid path before = (.ok answer, after) →
      answer = (before.db.has (pathColumn config path) || lower.isValidPath path) ∧
        Served config lower sha readFile start path before after

variable {isValid : StorePath → Registry → Except Failure Bool × Registry}

theorem serves_through_cache
    (uncached : ∀ path before answer after, Truthful config lower sha readFile start before →
      before.pathInfoCache path.baseName = none → isValid path before = (.ok answer, after) →
        answer = (before.db.has (pathColumn config path) || lower.isValidPath path) ∧
          Served config lower sha readFile start path before after) :
    Serves config lower sha readFile start (throughCache isValid) := by
  intro path before answer after truthful ran
  rw [throughCache] at ran
  cases cached : before.pathInfoCache path.baseName with
  | none =>
    rw [cached] at ran
    exact uncached path before answer after truthful cached ran
  | some value =>
    rw [cached] at ran
    cases ran
    obtain ⟨isSome, valid⟩ := truthful.cached path value cached
    refine ⟨by rw [isSome, valid], truthful, synced_refl before, ?_⟩
    intro _ notStale
    by_contra absent
    apply notStale
    refine ⟨?_, Bool.eq_false_iff.mpr absent⟩
    rw [cached]
    exact nofun

variable {before : Registry} {path : StorePath} {after : Registry} {references : List StorePath}

section

variable (serves : Serves config lower sha readFile start isValid)
  (truthful : Truthful config lower sha readFile start before)

include serves truthful

theorem sync_served (ran : syncReferences isValid path references before = (.ok (), after)) :
    Truthful config lower sha readFile start after ∧ Synced config lower before after ∧
      ∀ reference ∈ references, reference ≠ path → lower.isValidPath reference = true →
        ¬Stale config before reference → after.db.has (pathColumn config reference) = true := by
  induction references generalizing before with
  | nil =>
    cases ran
    exact ⟨truthful, synced_refl _, nofun⟩
  | cons first rest ih =>
    rw [syncReferences] at ran
    by_cases itself : first = path
    · rw [if_pos itself] at ran
      obtain ⟨truthfulAfter, synced, present⟩ := ih truthful ran
      exact ⟨truthfulAfter, synced, List.forall_mem_cons.mpr ⟨absurd itself, present⟩⟩
    rw [if_neg itself] at ran
    cases asked : isValid first before with
    | mk outcome between =>
      rw [asked] at ran
      cases outcome with
      | error failure => cases ran
      | ok answer =>
        have served := (serves first before answer between truthful asked).2
        obtain ⟨truthfulAfter, synced, present⟩ := ih served.truthful ran
        refine ⟨truthfulAfter, served.synced.trans synced, List.forall_mem_cons.mpr ⟨?_, ?_⟩⟩
        · intro _ valid notStale
          exact synced.grows.has (served.present valid notStale)
        · intro reference later other valid notStale
          exact present reference later other valid
            fun stale => notStale (served.synced.stale stale)

theorem sync_goes_on (answers : ∀ reference ∈ references, reference ≠ path → ∀ between,
      Synced config lower before between → Truthful config lower sha readFile start between →
        ∃ answer after, isValid reference between = (.ok answer, after)) :
    ∃ after, syncReferences isValid path references before = (.ok (), after) := by
  induction references generalizing before with
  | nil => exact ⟨before, rfl⟩
  | cons first rest ih =>
    rw [List.forall_mem_cons] at answers
    rw [syncReferences]
    by_cases itself : first = path
    · rw [if_pos itself]
      exact ih truthful answers.2
    obtain ⟨answer, between, asked⟩ := answers.1 itself before (synced_refl before) truthful
    have served := (serves first before answer between truthful asked).2
    rw [if_neg itself, asked]
    apply ih served.truthful
    intro reference member other later synced
    exact answers.2 reference member other later (served.synced.trans synced)

end

theorem uncached_ok
    (ran : isValidPathUncached config lower sha readFile nesting isValid now path before =
      (.ok answer, after)) :
    (before.db.has (pathColumn config path) = true ∧ answer = true ∧ after = before) ∨
      before.db.has (pathColumn config path) = false ∧
        ((lower.infos.get path = none ∧ answer = false ∧ after = before) ∨
          ∃ info synced, lower.infos.get path = some info ∧
            syncReferences isValid path info.references.sort before = (.ok (), synced) ∧
            registerValidPath config lower sha readFile nesting (now path) info synced =
              (.ok (), after) ∧ answer = true) := by
  rw [isValidPathUncached] at ran
  cases has : before.db.has (pathColumn config path) with
  | true =>
    rw [if_pos has] at ran
    cases ran
    exact .inl ⟨rfl, rfl, rfl⟩
  | false =>
    rw [if_neg (Bool.eq_false_iff.mp has)] at ran
    refine .inr ⟨rfl, ?_⟩
    cases found : lower.infos.get path with
    | none =>
      rw [found] at ran
      cases ran
      exact .inl ⟨rfl, rfl, rfl⟩
    | some info =>
      rw [found] at ran
      dsimp only at ran
      rcases looped : syncReferences isValid path info.references.sort before with
        ⟨outcome, synced⟩
      rw [looped] at ran
      cases outcome with
      | error failure => cases ran
      | ok done =>
        dsimp only at ran
        rcases copied : registerValidPath config lower sha readFile nesting (now path) info
          synced with ⟨result, last⟩
        rw [copied] at ran
        cases result with
        | error failure => cases ran
        | ok registered =>
          cases ran
          exact .inr ⟨info, synced, rfl, looped, copied, rfl⟩

variable (closed : lower.Closed) (distinct : lower.Distinct config)
  (registrable : ∀ path info, lower.infos.get path = some info →
    Registrable config sha readFile nesting info)

include closed distinct registrable

variable {info : ValidPathInfo}

theorem copy_linked {now : Int} (found : lower.infos.get path = some info)
    (ran : registerValidPath config lower sha readFile nesting now info before = (.ok (), after))
    {reference : StorePath} (member : reference ∈ info.references) (other : reference ≠ info.path) :
    before.db.has (pathColumn config reference) = true := by
  have isPath := lower.named path info found
  rw [← isPath] at found
  by_contra absent
  have columns : pathColumn config reference ≠ pathColumn config info.path := by
    intro same
    exact other (distinct reference info.path (closed _ info found reference member)
      (get_valid found) same)
  obtain ⟨failure, afterwards, fails⟩ := copy_dangling found (registrable _ info found) member
    columns (Bool.eq_false_iff.mpr absent)
  rw [fails] at ran
  cases ran

theorem copy_registered {now : Int} (found : lower.infos.get path = some info)
    (truthful : Truthful config lower sha readFile start before)
    (ran : registerValidPath config lower sha readFile nesting now info before = (.ok (), after)) :
    Registered config sha readFile info before after := by
  have isPath := lower.named path info found
  have linked : ∀ reference ∈ info.references, reference ≠ info.path →
      before.db.has (pathColumn config reference) = true :=
    fun _ => copy_linked closed distinct registrable found ran
  rw [← isPath] at found
  obtain ⟨last, ranAgain, copy⟩ := copy_ok found (registrable _ info found) linked truthful.filled
  rw [ran] at ranAgain
  cases ranAgain
  exact copy

theorem serves_uncached (serves : Serves config lower sha readFile start isValid)
    (now : StorePath → Int) (path : StorePath) (before : Registry) (answer : Bool)
    (after : Registry) (truthful : Truthful config lower sha readFile start before)
    (uncached : before.pathInfoCache path.baseName = none)
    (ran : isValidPathUncached config lower sha readFile nesting isValid now path before =
      (.ok answer, after)) :
    answer = (before.db.has (pathColumn config path) || lower.isValidPath path) ∧
      Served config lower sha readFile start path before after := by
  rcases uncached_ok ran with ⟨has, rfl, rfl⟩ | ⟨absent, ⟨missing, rfl, rfl⟩ | copies⟩
  · rw [has]
    exact ⟨rfl, truthful, synced_refl _, fun _ _ => has⟩
  · have invalid : lower.isValidPath path = false := by
      rw [LowerStore.isValidPath, missing]
      rfl
    rw [absent, invalid]
    refine ⟨rfl, truthful, synced_refl _, ?_⟩
    intro valid
    rw [invalid] at valid
    cases valid
  · obtain ⟨info, synced, found, looped, ranCopy, rfl⟩ := copies
    obtain ⟨truthfulSynced, isSynced, _⟩ := sync_served serves truthful looped
    have copy := copy_registered closed distinct registrable found truthfulSynced ranCopy
    have notStale : ¬Stale config synced path :=
      fun stale => (isSynced.stale stale).cached uncached
    rw [get_valid found, Bool.or_true]
    refine ⟨rfl, copy.truthful distinct found truthfulSynced,
      isSynced.trans (copy.synced distinct found notStale), ?_⟩
    intro _ _
    rw [copy.has, lower.named path info found]
    exact .inl rfl

theorem is_valid_serves (now : StorePath → Int) (depth : Nat) :
    Serves config lower sha readFile start
      (isValidPath config lower sha readFile nesting now depth) := by
  induction depth with
  | zero =>
    apply serves_through_cache
    intro path before answer after _ _ ran
    cases ran
  | succ depth ih =>
    exact serves_through_cache (serves_uncached closed distinct registrable ih now)

omit distinct in
theorem pending_answers (serves : Serves config lower sha readFile start isValid)
    (now : StorePath → Int)
    (found : lower.infos.get path = some info) (pending : Pending config lower before path)
    (truthful : Truthful config lower sha readFile start before)
    (free : Unobstructed config lower before path)
    (answers : ∀ reference, lower.Refers path reference → ∀ between,
      Truthful config lower sha readFile start between →
        Unobstructed config lower between reference →
          ∃ answer after, isValid reference between = (.ok answer, after)) :
    ∃ after, isValidPathUncached config lower sha readFile nesting isValid now path before =
      (.ok true, after) := by
  have isPath := lower.named path info found
  have syncs : ∀ reference ∈ info.references, reference ≠ path →
      Syncs config lower before path reference :=
    fun reference member other => ⟨pending, info, found, member, other⟩
  have listed : ∀ {reference}, reference ∈ info.references.sort ↔ reference ∈ info.references :=
    Finset.mem_sort (· ≤ ·)
  have loops : ∃ synced,
      syncReferences isValid path info.references.sort before = (.ok (), synced) := by
    apply sync_goes_on serves truthful
    intro reference member other between isSynced truthfulBetween
    have first := syncs reference (listed.mp member) other
    apply answers reference first.2 between truthfulBetween
    apply isSynced.unobstructed
    intro further reached
    exact free further (.head first reached)
  obtain ⟨synced, looped⟩ := loops
  obtain ⟨truthfulSynced, _, present⟩ := sync_served serves truthful looped
  obtain ⟨after, copied, _⟩ : ∃ after,
      registerValidPath config lower sha readFile nesting (now path) info synced = (.ok (), after) ∧
        Registered config sha readFile info synced after := by
    apply copy_ok (isPath.symm ▸ found) (registrable path info found) _ truthfulSynced.filled
    intro reference member other
    rw [isPath] at other
    exact present reference (listed.mpr member) other (closed path info found reference member)
      (free reference (.single (syncs reference member other)))
  refine ⟨after, ?_⟩
  rw [isValidPathUncached, if_neg (Bool.eq_false_iff.mp pending.absent), found]
  dsimp only
  rw [looped]
  dsimp only
  rw [copied]

theorem is_valid_answers {rank : StorePath → Nat}
    (smaller : ∀ path reference, lower.Refers path reference → rank reference < rank path)
    (now : StorePath → Int) {depth : Nat} (deep : rank path < depth)
    (truthful : Truthful config lower sha readFile start before)
    (free : Unobstructed config lower before path) :
    ∃ answer after, isValidPath config lower sha readFile nesting now depth path before =
      (.ok answer, after) := by
  induction depth generalizing path before with
  | zero => exact absurd deep (Nat.not_lt_zero _)
  | succ depth ih =>
    rw [isValidPath, throughCache]
    cases uncached : before.pathInfoCache path.baseName with
    | some value => exact ⟨value.isSome, before, rfl⟩
    | none =>
      cases has : before.db.has (pathColumn config path) with
      | true =>
        rw [isValidPathUncached, if_pos has]
        exact ⟨true, before, rfl⟩
      | false =>
        cases found : lower.infos.get path with
        | none =>
          rw [isValidPathUncached, if_neg (Bool.eq_false_iff.mp has), found]
          exact ⟨false, before, rfl⟩
        | some info =>
          refine ⟨true, pending_answers closed registrable
            (is_valid_serves closed distinct registrable now depth) now found
            ⟨uncached, has, get_valid found⟩ truthful free ?_⟩
          intro reference refers between
          exact ih (Nat.lt_of_lt_of_le (smaller path reference refers)
            (Nat.le_of_lt_succ deep))

/-- A query that is answered has not come across a stale reference: all that it came
across is in the upper database, and nothing that was cached has been copied. -/
theorem unobstructed_of_answer {depth : Nat}
    (truthful : Truthful config lower sha readFile start before)
    (ran : isValidPath config lower sha readFile nesting now depth path before =
      (.ok answer, after)) : Unobstructed config lower before path := by
  have served := (is_valid_serves closed distinct registrable now depth path before answer after
    truthful ran).2
  have next : ∀ {referrer reference : StorePath}, Syncs config lower before referrer reference →
      after.db.has (pathColumn config referrer) = true → lower.isValidPath reference = true ∧
          after.db.has (pathColumn config reference) = true := by
    intro referrer reference syncs has
    obtain ⟨pending, info, found, member, _⟩ := syncs
    have new : start.has (pathColumn config referrer) = false := by
      rw [Bool.eq_false_iff]
      intro old
      have hasBefore := truthful.grown.has old
      rw [pending.absent] at hasBefore
      cases hasBefore
    obtain ⟨_, _, targets⟩ := served.truthful.closed.copied referrer info found has new
    obtain ⟨target, foundTarget, _⟩ := targets reference member
    exact ⟨closed referrer info found reference member, row_has foundTarget⟩
  have all : ∀ reference, TransGen (Syncs config lower before) path reference →
      lower.isValidPath reference = true ∧ after.db.has (pathColumn config reference) = true := by
    intro reference reached
    induction reached with
    | single syncs =>
      apply next syncs
      exact served.present syncs.1.valid fun stale => stale.cached syncs.1.uncached
    | tail _ syncs ih => exact next syncs ih.2
  intro reference reached stale
  obtain ⟨valid, has⟩ := all reference reached
  exact stale.cached (served.synced.copied reference valid has stale.absent)

end Queries

section

variable {config : StoreDirConfig} {lower : LowerStore} {sha : Sha256}
  {readFile : ReadFile} {nesting : Nat} {start : Db} {registry : Registry}
  {path : StorePath}

theorem query_uncached_ok {value : Option ValidPathInfo}
    (found : queryPathInfoUncached config lower registry.db path = .ok value) :
    value.isSome = true ∧
      (registry.db.has (pathColumn config path) || lower.isValidPath path) = true := by
  rw [queryPathInfoUncached] at found
  split at found
  · cases found
  next info upper =>
    obtain ⟨_, row, isRow, _⟩ := query_internal_some upper
    rw [← Except.ok.inj found, row_has isRow]
    exact ⟨rfl, rfl⟩
  · rw [LowerStore.queryPathInfo] at found
    cases inLower : lower.infos.get path with
    | none =>
      rw [inLower] at found
      cases found
    | some info =>
      rw [inLower] at found
      rw [← Except.ok.inj found, get_valid inLower, Bool.or_true]
      exact ⟨rfl, rfl⟩

theorem query_truthful (truthful : Truthful config lower sha readFile start registry)
    (path : StorePath) :
    Truthful config lower sha readFile start (queryPathInfo config lower path registry).2 := by
  rw [queryPathInfo, PathInfoCache.queryPathInfo, queryPathInfoFromClientCache]
  dsimp only
  rcases registry.pathInfoCache path.baseName with _ | _ | value
  · rcases found : queryPathInfoUncached config lower registry.db path with failure | _ | value
    · exact truthful
    all_goals
      refine ⟨truthful.closed, truthful.grown, ?_, truthful.filled⟩
      intro other known cached
      change PathInfoCache.upsert registry.pathInfoCache path.baseName _ _ = _ at cached
      by_cases same : other = path
      · rw [same, PathInfoCache.upsert, update_self] at cached
        rw [same, ← Option.some.inj cached]
        exact query_uncached_ok found
      · rw [PathInfoCache.upsert, update_of_ne fun names => same (base_name_injective names)] at cached
        exact truthful.cached other known cached
  · exact truthful
  · exact truthful

theorem exists_rank_below (acyclic : lower.Acyclic) : ∃ (rank : StorePath → Nat) (bound : Nat),
    (∀ path reference, lower.Refers path reference → rank reference < rank path) ∧
      ∀ path, rank path < bound := by
  let below : StorePath → StorePath → Prop := TransGen (swap lower.Refers)
  have irreflexive : Std.Irrefl below := by
    constructor
    intro path cycle
    exact acyclic path (transGen_swap.mp cycle)
  have founded : WellFounded below := Finite.wellFounded_of_trans_of_irrefl below
  obtain ⟨rank, smaller⟩ := exists_rank founded fun _ => Set.toFinite _
  obtain ⟨bound, all⟩ := (Set.finite_range rank).bddAbove
  refine ⟨rank, bound + 1, ?_, ?_⟩
  · intro path reference refers
    exact smaller reference path (.single refers)
  · intro path
    exact Nat.lt_succ_of_le (all (Set.mem_range_self path))

section

variable (closed : lower.Closed) (distinct : lower.Distinct config)
  (registrable : ∀ path info, lower.infos.get path = some info →
    Registrable config sha readFile nesting info)

include closed distinct registrable

variable (start) in
/-- Which steps present the union of the layers, and what they keep. -/
theorem step_presents_iff {rank : StorePath → Nat} {depth : Nat}
    (smaller : ∀ path reference, lower.Refers path reference → rank reference < rank path)
    (deep : ∀ path, rank path < depth) (registry : Registry) (event : Event)
    (truthful : Truthful config lower sha readFile start registry) :
    (PresentsUnion config lower sha readFile nesting depth start registry event ↔
        Allowed config lower registry event) ∧
      (Allowed config lower registry event → Truthful config lower sha readFile start
        (act config lower sha readFile nesting depth registry event)) := by
  cases event with
  | queryPathInfo path =>
    have later := query_truthful truthful path
    exact ⟨iff_of_true ⟨later.closed, nofun⟩ trivial, fun _ => later⟩
  | isValidPath now path =>
    have presents : Allowed config lower registry (.isValidPath now path) →
        PresentsUnion config lower sha readFile nesting depth start registry
            (.isValidPath now path) ∧
          Truthful config lower sha readFile start
            (act config lower sha readFile nesting depth registry (.isValidPath now path)) := by
      intro free
      obtain ⟨answer, after, ran⟩ :=
        is_valid_answers closed distinct registrable smaller now (deep path) truthful free
      obtain ⟨right, served⟩ := is_valid_serves closed distinct registrable now depth path registry
        answer after truthful ran
      rw [PresentsUnion, act, ran]
      refine ⟨⟨served.truthful.closed, ?_⟩, served.truthful⟩
      intro otherNow otherPath same
      cases same
      rw [ran, right]
    refine ⟨⟨?_, fun free => (presents free).1⟩, fun free => (presents free).2⟩
    intro union
    exact unobstructed_of_answer closed distinct registrable truthful
      (Prod.ext (union.2 now path rfl) rfl)

end

/-- In a run that starts with an empty cache, every query for the validity of a path is
answered for the union of both layers, and the upper database stays closed, exactly if
no such query comes across a reference that is cached but not in the upper database. -/
theorem presents_union_iff (closed : lower.Closed) (acyclic : lower.Acyclic)
    (distinct : lower.Distinct config)
    (registrable : ∀ path info, lower.infos.get path = some info →
      Registrable config sha readFile nesting info) :
    ∃ bound, ∀ depth ≥ bound, ∀ start : Registry, (start.pathInfoCache = fun _ => none) →
      RefsValid start.db → Filled config sha readFile start.drvHashes → ∀ events,
        AllSteps (act config lower sha readFile nesting depth)
            (PresentsUnion config lower sha readFile nesting depth start.db) start events ↔
          AllSteps (act config lower sha readFile nesting depth) (Allowed config lower) start
            events := by
  obtain ⟨rank, bound, smaller, bounded⟩ := exists_rank_below acyclic
  refine ⟨bound, ?_⟩
  intro depth deep start fresh refs filled events
  have initially : Truthful config lower sha readFile start.db start := by
    refine ⟨upper_closed_start config lower refs, grows_refl start.db, ?_, filled⟩
    intro path value cached
    rw [fresh] at cached
    cases cached
  have step := step_presents_iff start.db closed distinct registrable smaller
    fun path => Nat.lt_of_lt_of_le (bounded path) deep
  constructor
  · apply all_steps_of_invariant _ _ _ initially
    · intro registry event truthful presents
      exact (step registry event truthful).2 ((step registry event truthful).1.mp presents)
    · intro registry event truthful presents
      exact (step registry event truthful).1.mp presents
  · apply all_steps_of_invariant _ _ _ initially
    · intro registry event truthful
      exact (step registry event truthful).2
    · intro registry event truthful
      exact (step registry event truthful).1.mpr

end

def libraryPath : StorePath := ⟨List.replicate 32 49 ++ ascii "-library", by decide +kernel⟩

def libraryInfo : ValidPathInfo := { helloInfo with path := libraryPath }

def programInfo : ValidPathInfo := { helloInfo with references := {libraryPath} }

theorem example_get {path : StorePath} {info : ValidPathInfo}
    (found : (SortedMap.assignAll [(helloPath, programInfo), (libraryPath, libraryInfo)]).get path =
      some info) :
    (path = helloPath ∧ info = programInfo) ∨ (path = libraryPath ∧ info = libraryInfo) := by
  have ascending : (SortedMap.assignAll [(helloPath, programInfo), (libraryPath, libraryInfo)]).entries =
      [(helloPath, programInfo), (libraryPath, libraryInfo)] := by
    decide +kernel
  have member := SortedMap.mem_iff_get.mpr found
  rw [ascending] at member
  simpa using member

def exampleLower : LowerStore where
  infos := SortedMap.assignAll [(helloPath, programInfo), (libraryPath, libraryInfo)]
  named := by
    intro path info found
    rcases example_get found with ⟨rfl, rfl⟩ | ⟨rfl, rfl⟩
    · rfl
    · rfl

theorem example_closed : exampleLower.Closed := by
  intro path info found reference member
  rcases example_get found with ⟨_, rfl⟩ | ⟨_, rfl⟩
  · rw [Finset.mem_singleton.mp member]
    decide +kernel
  · cases member

theorem example_refers {path reference : StorePath} (refers : exampleLower.Refers path reference) :
    path = helloPath ∧ reference = libraryPath := by
  obtain ⟨info, found, member, _⟩ := refers
  rcases example_get found with ⟨isHello, rfl⟩ | ⟨_, rfl⟩
  · exact ⟨isHello, Finset.mem_singleton.mp member⟩
  · cases member

theorem example_acyclic : exampleLower.Acyclic := by
  intro path cycle
  obtain ⟨_, first, _⟩ := TransGen.head'_iff.mp cycle
  obtain ⟨_, _, last⟩ := TransGen.tail'_iff.mp cycle
  have both := (example_refers first).1.symm.trans (example_refers last).2
  revert both
  decide +kernel

theorem example_distinct : exampleLower.Distinct usualStore := by
  intro left right validLeft validRight same
  obtain ⟨leftInfo, foundLeft⟩ := Option.isSome_iff_exists.mp validLeft
  obtain ⟨rightInfo, foundRight⟩ := Option.isSome_iff_exists.mp validRight
  rcases example_get foundLeft with ⟨rfl, _⟩ | ⟨rfl, _⟩
  · rcases example_get foundRight with ⟨rfl, _⟩ | ⟨rfl, _⟩
    · rfl
    · revert same
      decide +kernel
  · rcases example_get foundRight with ⟨rfl, _⟩ | ⟨rfl, _⟩
    · revert same
      decide +kernel
    · rfl

theorem example_registrable (path : StorePath) (info : ValidPathInfo)
    (found : exampleLower.infos.get path = some info) :
    Registrable usualStore zeroSha noFiles 0 info := by
  rcases example_get found with ⟨_, rfl⟩ | ⟨_, rfl⟩
  · exact ⟨rfl, by decide +kernel, fun _ _ => rfl⟩
  · exact ⟨rfl, by decide +kernel, fun _ _ => rfl⟩

/-- The info of the library has been asked for before the validity of the program. -/
theorem stale_library_refused :
    exampleLower.Closed ∧ exampleLower.Acyclic ∧ RefsValid emptyRegistry.db ∧
      exampleLower.isValidPath helloPath = true ∧
      (isValidPath usualStore exampleLower zeroSha noFiles 0 (fun _ => 0) 2 helloPath
        (queryPathInfo usualStore exampleLower libraryPath emptyRegistry).2).1 =
        .error (invalidPath usualStore libraryPath) := by
  refine ⟨example_closed, example_acyclic, nofun, ?_, ?_⟩
  · decide +kernel
  · decide +kernel

theorem presents_union_program : ∃ bound, ∀ depth ≥ bound,
      AllSteps (act usualStore exampleLower zeroSha noFiles 0 depth)
        (PresentsUnion usualStore exampleLower zeroSha noFiles 0 depth emptyRegistry.db) emptyRegistry
        [.isValidPath (fun _ => 0) helloPath, .queryPathInfo libraryPath] := by
  obtain ⟨bound, exact⟩ := presents_union_iff example_closed example_acyclic example_distinct
    example_registrable
  refine ⟨bound, fun depth deep => ?_⟩
  apply (exact depth deep emptyRegistry rfl nofun .empty _).mpr
  refine ⟨?_, trivial, trivial⟩
  intro reference _ stale
  exact stale.cached rfl

end Bsd.Store.OverlayStore
