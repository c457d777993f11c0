import Bsd.Store.ValidPaths

/-!
# Verifying the valid paths

`verifyAllValidPaths` removes from the database the paths that have disappeared from
disk. The referrers of such a path are verified first, and it is removed unless one of
them is on disk. A referrer that has disappeared and had to stay is overlooked.
-/

namespace Bsd.Store.VerifyStore

open Finset Lib.Occurrences Lib.OrdMap Lib.Outcomes Util.FilePath Store.Path Store.LocalStore
  Relation
open Bsd.Store.ValidPaths (constraintFailed)

structure Verification (tables : Tables) where
  db : Database tables
  done : Finset StorePath
  validPaths : Finset StorePath
  errors : Bool

section

variable {tables : Tables}

/-- Statement `InvalidatePath`: a path may not be deleted under another referrer. -/
def deletePath (db : Database tables) (path : StorePath) : Except Failure (Database tables) :=
  if unused : (queryReferrers db path).erase path = ∅ then .ok (invalidatePath db path unused)
  else .error constraintFailed

variable (onDisk : Finset StorePath) (inOrder : Finset StorePath → List StorePath)

/-- `verifyPath` without repair. The sets of the source are gone through in the order
that `inOrder` gives. -/
def verifyPath : Nat → StorePath → Verification tables → Except Failure (Verification tables)
  | 0, path, state => if path ∈ state.done then .ok state else .error .outOfDepth
  | depth + 1, path, state =>
    if path ∈ state.done then .ok state
    else if path ∈ onDisk then
      .ok { state with
        done := insert path state.done
        validPaths := insert path state.validPaths }
    else do
      let (state, canInvalidate) ← (inOrder (queryReferrers state.db path)).foldlM
        (fun (state, canInvalidate) referrer =>
          if referrer = path then .ok (state, canInvalidate)
          else do
            let state ← verifyPath depth referrer state
            .ok (state, canInvalidate && decide (referrer ∉ state.validPaths)))
        ({ state with done := insert path state.done }, true)
      if canInvalidate then do
        let db ← deletePath state.db path
        .ok { state with db }
      else .ok { state with errors := true }

def verifyAllValidPaths (db : Database tables) : Except Failure (Verification tables) :=
  (inOrder db.valid).foldlM
    (fun state path => verifyPath onDisk inOrder db.valid.card path state)
    ⟨db, ∅, ∅, false⟩

end

variable {path : StorePath}

section Search

variable {tables : Tables} (start : Database tables) (onDisk : Finset StorePath)

def Other (referrer path : StorePath) : Prop :=
  tables.Refers start.valid referrer path ∧ path ≠ referrer

def Held (path : StorePath) : Prop := ∃ referrer ∈ onDisk, Other start referrer path

/-- The paths of `inside` are still being verified. The others that are done have been
removed unless they are held. -/
structure Good (inside : Finset StorePath) (state : Verification tables) : Prop where
  known : state.done ⊆ start.valid
  begun : inside ⊆ state.done
  fewer : state.db.valid ⊆ start.valid
  listed : ∀ path, path ∈ state.validPaths ↔ path ∈ state.done ∧ path ∈ onDisk
  present : ∀ path ∈ start.valid, path ∈ onDisk → path ∈ state.db.valid
  waiting : ∀ path ∈ start.valid, path ∉ state.done ∨ path ∈ inside → path ∈ state.db.valid
  decided : ∀ path ∈ state.done, path ∉ inside → path ∉ onDisk →
    (path ∈ state.db.valid ↔ Held start onDisk path)
  errors : state.errors = true ↔
    ∃ path ∈ state.done, path ∉ inside ∧ path ∉ onDisk ∧ Held start onDisk path

/-- A path that has disappeared and is not held has a referrer that has disappeared and
is held. -/
def Overlooked : Prop :=
  ∃ path ∈ start.valid, path ∉ onDisk ∧ ¬Held start onDisk path ∧
    ∃ referrer, referrer ∉ onDisk ∧ Other start referrer path ∧ Held start onDisk referrer

structure Went (inside : Finset StorePath) (before : Verification tables)
    (finished : List StorePath) (after : Verification tables) : Prop where
  good : Good start onDisk inside after
  fewer : after.db.valid ⊆ before.db.valid
  more : before.done ⊆ after.done
  done : ∀ path ∈ finished, path ∈ after.done ∧ path ∉ inside

/-- What a visit needs: the path refers to those that are being verified, and the depth
is enough for what is not done. -/
structure Ready (inside : Finset StorePath) (depth : Nat) (path : StorePath)
    (state : Verification tables) : Prop where
  good : Good start onDisk inside state
  valid : path ∈ start.valid
  above : ∀ item ∈ inside, TransGen (Other start) path item
  deep : (start.valid \ state.done).card ≤ depth

variable {start onDisk} {inside : Finset StorePath} {state : Verification tables}

theorem went_nil (good : Good start onDisk inside state) : Went start onDisk inside state [] state :=
  ⟨good, subset_rfl, subset_rfl, by simp⟩

variable {before : Verification tables}

theorem went_snoc {between after : Verification tables} {finished : List StorePath}
    (first : Went start onDisk inside before finished between)
    (second : Went start onDisk inside between [path] after) :
    Went start onDisk inside before (finished ++ [path]) after where
  good := second.good
  fewer := second.fewer.trans first.fewer
  more := first.more.trans second.more
  done := by
    refine List.forall_mem_append.mpr ⟨?_, second.done⟩
    intro other earlier
    obtain ⟨isDone, outside⟩ := first.done other earlier
    exact ⟨second.more isDone, outside⟩

section

variable (good : Good start onDisk inside state) (valid : path ∈ start.valid)

include good valid

theorem good_on_disk (isPresent : path ∈ onDisk) : Good start onDisk inside { state with
      done := insert path state.done
      validPaths := insert path state.validPaths } where
  known := insert_subset valid good.known
  begun := good.begun.trans (subset_insert path state.done)
  fewer := good.fewer
  listed := by
    intro other
    rw [mem_insert, mem_insert, good.listed]
    constructor
    · rintro (same | old)
      · rw [same]
        exact ⟨.inl rfl, isPresent⟩
      · exact ⟨.inr old.1, old.2⟩
    · rintro ⟨same | old, present⟩
      · exact .inl same
      · exact .inr ⟨old, present⟩
  present := good.present
  waiting := by
    intro other otherValid open_
    apply good.waiting other otherValid
    exact open_.imp_left fun notDone isDone => notDone (mem_insert_of_mem isDone)
  decided := by
    intro other isDone outside absent
    rcases mem_insert.mp isDone with same | old
    · rw [same] at absent
      exact absurd isPresent absent
    · exact good.decided other old outside absent
  errors := by
    rw [good.errors]
    constructor
    · rintro ⟨other, isDone, rest⟩
      exact ⟨other, mem_insert_of_mem isDone, rest⟩
    rintro ⟨other, isDone, outside, absent, held⟩
    rcases mem_insert.mp isDone with same | old
    · rw [same] at absent
      exact absurd isPresent absent
    · exact ⟨other, old, outside, absent, held⟩

theorem good_enter (fresh : path ∉ state.done) (absent : path ∉ onDisk) :
    Good start onDisk (insert path inside) { state with done := insert path state.done } where
  known := insert_subset valid good.known
  begun := insert_subset_insert path good.begun
  fewer := good.fewer
  listed := by
    intro other
    rw [mem_insert, good.listed]
    constructor
    · exact fun old => ⟨.inr old.1, old.2⟩
    rintro ⟨same | old, present⟩
    · rw [same] at present
      exact absurd present absent
    · exact ⟨old, present⟩
  present := good.present
  waiting := by
    intro other otherValid open_
    rw [mem_insert, mem_insert] at open_
    by_cases same : other = path
    · rw [same]
      exact good.waiting path valid (.inl fresh)
    apply good.waiting other otherValid
    rcases open_ with notDone | isOpen
    · exact .inl fun isDone => notDone (.inr isDone)
    · exact .inr (isOpen.resolve_left same)
  decided := by
    intro other isDone outside
    rw [mem_insert, not_or] at outside
    have old := (mem_insert.mp isDone).resolve_left outside.1
    exact good.decided other old outside.2
  errors := by
    rw [good.errors]
    constructor
    · rintro ⟨other, isDone, outside, rest⟩
      refine ⟨other, mem_insert_of_mem isDone, ?_, rest⟩
      rw [mem_insert, not_or]
      refine ⟨?_, outside⟩
      intro same
      rw [same] at isDone
      exact fresh isDone
    · rintro ⟨other, isDone, outside, rest⟩
      rw [mem_insert, not_or] at outside
      exact ⟨other, (mem_insert.mp isDone).resolve_left outside.1, outside.2, rest⟩

end

variable {db : Database tables}

theorem good_leave (good : Good start onDisk (insert path inside) state) (outside : path ∉ inside)
    (valid : path ∈ start.valid) (absent : path ∉ onDisk) {errors : Bool}
    (deleted : ¬Held start onDisk path → db.valid = state.db.valid.erase path)
    (kept : Held start onDisk path → db.valid = state.db.valid)
    (reported : errors = true ↔ state.errors = true ∨ Held start onDisk path) :
    Good start onDisk inside { state with db, errors } := by
  have fewer : db.valid ⊆ state.db.valid := by
    by_cases held : Held start onDisk path
    · rw [kept held]
    · rw [deleted held]
      exact erase_subset _ _
  have others : ∀ other, other ≠ path → (other ∈ db.valid ↔ other ∈ state.db.valid) := by
    intro other differs
    by_cases held : Held start onDisk path
    · rw [kept held]
    · rw [deleted held, mem_erase, and_iff_right differs]
  have isDone : path ∈ state.done := good.begun (mem_insert_self path inside)
  have notIn : ∀ other, other ≠ path → other ∉ inside → other ∉ insert path inside := by
    intro other differs notInside member
    exact (mem_insert.mp member).elim differs notInside
  refine ⟨good.known, ?_, fewer.trans good.fewer, good.listed, ?_, ?_, ?_, ?_⟩
  · exact (subset_insert path inside).trans good.begun
  · intro other otherValid present
    rw [others other fun same => absent (by rwa [← same])]
    exact good.present other otherValid present
  · intro other otherValid open_
    have differs : other ≠ path := by
      intro same
      rw [same] at open_
      exact open_.elim (fun notDone => notDone isDone) outside
    rw [others other differs]
    exact good.waiting other otherValid (open_.imp_right (mem_insert_of_mem))
  · intro other otherDone notInside otherAbsent
    by_cases same : other = path
    · rw [same]
      by_cases held : Held start onDisk path
      · rw [kept held]
        have there := good.waiting path valid (.inr (mem_insert_self path inside))
        exact iff_of_true there held
      · rw [deleted held]
        exact iff_of_false (notMem_erase path _) held
    · rw [others other same]
      exact good.decided other otherDone (notIn other same notInside) otherAbsent
  · rw [reported, good.errors]
    constructor
    · rintro (⟨other, otherDone, notInside, rest⟩ | held)
      · exact ⟨other, otherDone, fun member => notInside (mem_insert_of_mem member), rest⟩
      · exact ⟨path, isDone, outside, absent, held⟩
    rintro ⟨other, otherDone, notInside, otherAbsent, held⟩
    by_cases same : other = path
    · rw [same] at held
      exact .inr held
    · exact .inl ⟨other, otherDone, notIn other same notInside, otherAbsent, held⟩

variable {inOrder : Finset StorePath → List StorePath}
  (complete : ∀ paths path, path ∈ inOrder paths ↔ path ∈ paths) {depth : Nat}

theorem verify_seen (ready : Ready start onDisk inside depth path state)
    (seen : path ∈ state.done) : Went start onDisk inside state [path] state := by
  have outside : path ∉ inside := fun isOpen => start.acyclic path (ready.above path isOpen)
  exact ⟨ready.good, subset_rfl, subset_rfl,
    List.forall_mem_singleton.mpr ⟨seen, outside⟩⟩

variable {past : List StorePath} {referrer : StorePath}

theorem ready_referrer {between : Verification tables}
    (ready : Ready start onDisk inside (depth + 1) path state) (fresh : path ∉ state.done)
    (went : Went start onDisk (insert path inside)
      { state with done := insert path state.done } past between)
    (refers : tables.Refers start.valid referrer path) (differs : referrer ≠ path) :
    Ready start onDisk (insert path inside) depth referrer between where
  good := went.good
  valid := refers.1
  above := by
    have edge : Other start referrer path := ⟨refers, differs.symm⟩
    intro item isOpen
    rcases mem_insert.mp isOpen with same | older
    · rw [same]
      exact TransGen.single edge
    · exact TransGen.head edge (ready.above item older)
  deep := by
    have left : (start.valid \ insert path state.done).card ≤ depth := by
      rw [sdiff_insert, card_erase_of_mem
        (mem_sdiff.mpr ⟨ready.valid, fresh⟩)]
      exact Nat.sub_le_of_le_add ready.deep
    exact le_trans (card_le_card
      (sdiff_subset_sdiff (subset_refl start.valid) went.more)) left

def Looped (start : Database tables) (onDisk inside : Finset StorePath) (path : StorePath)
    (before : Verification tables) (past : List StorePath)
    (result : Verification tables × Bool) : Prop :=
  Went start onDisk (insert path inside) before (past.filter (· ≠ path)) result.1 ∧
    (result.2 = true ↔ ∀ referrer ∈ past, referrer ≠ path → referrer ∉ onDisk)

variable {result : Verification tables × Bool}

section

variable (looped : Looped start onDisk inside path before past result)

include looped

theorem looped_same : Looped start onDisk inside path before (past ++ [path]) result := by
  obtain ⟨went, answer⟩ := looped
  constructor
  · rw [List.filter_append]
    simpa using went
  · rw [answer, List.forall_mem_append, List.forall_mem_singleton]
    exact (and_iff_left (absurd rfl)).symm

end

include complete

theorem looped_held (good : Good start onDisk inside state)
    (looped : Looped start onDisk inside path { state with done := insert path state.done }
      (inOrder (queryReferrers state.db path)) result) :
    result.2 = true ↔ ¬Held start onDisk path := by
  rw [looped.2]
  constructor
  · rintro all ⟨referrer, present, refers, differs⟩
    have there : referrer ∈ queryReferrers state.db path :=
      (mem_query_referrers _).mpr ⟨good.present referrer refers.1 present, refers.2⟩
    exact all referrer ((complete _ _).mpr there) differs.symm present
  · intro free referrer member differs present
    have refers := (mem_query_referrers _).mp ((complete _ _).mp member)
    exact free ⟨referrer, present, ⟨good.fewer refers.1, refers.2⟩, differs.symm⟩

theorem delete_looped (good : Good start onDisk inside state) (valid : path ∈ start.valid)
    (absent : path ∉ onDisk) (free : ¬Held start onDisk path)
    (looped : Looped start onDisk inside path { state with done := insert path state.done }
      (inOrder (queryReferrers state.db path)) result) :
    Meets (fun after : Database tables => after.valid = result.1.db.valid.erase path)
      (fun _ => Overlooked start onDisk) (deletePath result.1.db path) := by
  rw [deletePath]
  split
  · exact Meets.ok rfl
  next used =>
    apply Meets.error
    obtain ⟨referrer, inUse⟩ := nonempty_iff_ne_empty.mpr used
    obtain ⟨differs, isReferrer⟩ := mem_erase.mp inUse
    have refers := (mem_query_referrers _).mp isReferrer
    have went := looped.1
    have before : tables.Refers state.db.valid referrer path := ⟨went.fewer refers.1, refers.2⟩
    have edge : Other start referrer path := ⟨⟨good.fewer before.1, refers.2⟩, differs.symm⟩
    have gone : referrer ∉ onDisk := fun present => free ⟨referrer, present, edge⟩
    have member : referrer ∈ (inOrder (queryReferrers state.db path)).filter (· ≠ path) := by
      rw [List.mem_filter, decide_eq_true_eq]
      exact ⟨(complete _ _).mpr ((mem_query_referrers _).mpr before), differs⟩
    obtain ⟨isDone, outside⟩ := went.done referrer member
    have held := (went.good.decided referrer isDone outside gone).mp refers.1
    exact ⟨path, valid, absent, free, referrer, gone, edge, held⟩

theorem verify_path_meets (ready : Ready start onDisk inside depth path state) :
    Meets (Went start onDisk inside state [path]) (fun _ => Overlooked start onDisk)
      (verifyPath onDisk inOrder depth path state) := by
  induction depth generalizing inside path state with
  | zero =>
    have nothing : start.valid \ state.done = ∅ := card_eq_zero.mp (Nat.le_zero.mp ready.deep)
    have seen := sdiff_eq_empty_iff_subset.mp nothing ready.valid
    rw [verifyPath, if_pos seen]
    exact Meets.ok (verify_seen ready seen)
  | succ depth ih =>
    rw [verifyPath]
    by_cases seen : path ∈ state.done
    · rw [if_pos seen]
      exact Meets.ok (verify_seen ready seen)
    rw [if_neg seen]
    have outside : path ∉ inside := fun isOpen => seen (ready.good.begun isOpen)
    by_cases present : path ∈ onDisk
    · rw [if_pos present]
      apply Meets.ok
      exact ⟨good_on_disk ready.good ready.valid present, subset_rfl,
        subset_insert _ _, List.forall_mem_singleton.mpr ⟨mem_insert_self path _, outside⟩⟩
    rw [if_neg present]
    have enter := good_enter ready.good ready.valid seen present
    have begin_ : Looped start onDisk inside path
        { state with done := insert path state.done } []
        ({ state with done := insert path state.done }, true) :=
      ⟨went_nil enter, iff_of_true rfl nofun⟩
    apply meets_bind (meets_foldlM begin_ ?_)
    · rintro ⟨between, canInvalidate⟩ looped
      have isHeld := looped_held complete ready.good looped
      have went := looped.1
      -- What remains is the same whether or not the path was deleted.
      have leave : ∀ {db : Database tables} {errors : Bool}, db.valid ⊆ between.db.valid →
          Good start onDisk inside { between with db, errors } →
          Went start onDisk inside state [path] { between with db, errors } := by
        intro db errors fewer good
        have isDone := went.good.begun (mem_insert_self path inside)
        exact ⟨good, fewer.trans went.fewer, (subset_insert _ _).trans went.more,
          List.forall_mem_singleton.mpr ⟨isDone, outside⟩⟩
      cases canInvalidate with
      | true =>
        have free := isHeld.mp rfl
        apply meets_bind
          (delete_looped complete ready.good ready.valid present free looped)
        intro db deleted
        have fewer : db.valid ⊆ between.db.valid := by
          rw [deleted]
          exact erase_subset _ _
        apply Meets.ok
        apply leave fewer
        exact good_leave went.good outside ready.valid present (fun _ => deleted)
          (fun held => absurd held free) (by rw [or_iff_left free])
      | false =>
        have held : Held start onDisk path := by
          by_contra free
          exact Bool.false_ne_true (isHeld.mpr free)
        apply Meets.ok
        apply leave (subset_rfl)
        exact good_leave went.good outside ready.valid present
          (fun free => absurd held free) (fun _ => rfl) (iff_of_true rfl (.inr held))
    · rintro past referrer member ⟨between, canInvalidate⟩ looped
      dsimp only
      by_cases same : referrer = path
      · rw [if_pos same, same]
        exact Meets.ok (looped_same looped)
      rw [if_neg same]
      have refers := (mem_query_referrers _).mp ((complete _ _).mp member)
      have referrerReady := ready_referrer ready seen looped.1
        ⟨ready.good.fewer refers.1, refers.2⟩ same
      apply meets_bind (ih referrerReady)
      intro after further
      refine Meets.ok ⟨?_, ?_⟩
      · rw [List.filter_append, List.filter_singleton, decide_eq_true same]
        exact went_snoc looped.1 further
      · have isDone := (further.done referrer (List.mem_singleton_self referrer)).1
        rw [Bool.and_eq_true, looped.2, decide_eq_true_eq, further.good.listed, and_iff_right isDone,
          List.forall_mem_append, List.forall_mem_singleton, imp_iff_right same]

theorem verify_all_meets : Meets (fun result : Verification tables =>
        (∀ path, path ∈ result.db.valid ↔
          path ∈ start.valid ∧ (path ∈ onDisk ∨ Held start onDisk path)) ∧
        (result.errors = true ↔ ∃ path ∈ start.valid, path ∉ onDisk ∧ Held start onDisk path))
      (fun _ => Overlooked start onDisk)
      (verifyAllValidPaths onDisk inOrder start) := by
  have begin_ : Good start onDisk ∅ ⟨start, ∅, ∅, false⟩ := by
    refine ⟨empty_subset _, empty_subset _, subset_rfl, ?_, ?_, ?_, ?_, ?_⟩
    · simp
    · exact fun path valid _ => valid
    · exact fun path valid _ => valid
    · simp
    · simp
  apply meets_mono (meets_foldlM (went_nil begin_) ?_)
  · intro result went
    have allDone : ∀ path ∈ start.valid, path ∈ result.done := fun path valid =>
      (went.done path ((complete _ _).mpr valid)).1
    constructor
    · intro path
      by_cases valid : path ∈ start.valid
      · rw [and_iff_right valid]
        by_cases present : path ∈ onDisk
        · exact iff_of_true (went.good.present path valid present) (.inl present)
        · rw [or_iff_right present]
          exact went.good.decided path (allDone path valid) (notMem_empty path) present
      · exact iff_of_false (fun stays => valid (went.good.fewer stays)) fun both => valid both.1
    · rw [went.good.errors]
      constructor
      · rintro ⟨path, isDone, _, rest⟩
        exact ⟨path, went.good.known isDone, rest⟩
      · rintro ⟨path, valid, rest⟩
        exact ⟨path, allDone path valid, notMem_empty path, rest⟩
  · intro past path member state went
    have ready : Ready start onDisk ∅ start.valid.card path state :=
      ⟨went.good, (complete _ _).mp member, nofun, card_le_card sdiff_subset⟩
    exact meets_mono (verify_path_meets complete ready) fun after further => went_snoc went further

end Search

section

variable {tables : Tables} (start : Database tables) (onDisk : Finset StorePath)

/-- A path that has disappeared, together with all that refers to it. -/
def Removable (path : StorePath) : Prop :=
  path ∉ onDisk ∧ ∀ referrer, referrer ≠ path → TransGen (Other start) referrer path →
    referrer ∉ onDisk

/-- No deletion fails, the removable paths are removed and no other one, and errors are
reported exactly if a path that has disappeared remains. -/
def VerifiedRight (outcome : Except Failure (Verification tables)) : Prop :=
  ∃ result, outcome = .ok result ∧
    (∀ path, path ∈ result.db.valid ↔ path ∈ start.valid ∧ ¬Removable start onDisk path) ∧
    (result.errors = true ↔ ∃ path ∈ result.db.valid, path ∉ onDisk)

/-- Every path that has disappeared and has a direct or indirect referrer on disk has a
direct referrer on disk. -/
def HeldDirectly : Prop :=
  ∀ path ∈ start.valid, path ∉ onDisk →
    (∃ referrer ∈ onDisk, referrer ≠ path ∧ TransGen (Other start) referrer path) →
    ∃ referrer ∈ onDisk, referrer ≠ path ∧ tables.Refers start.valid referrer path

variable {start onDisk}

theorem held_of_direct (direct : HeldDirectly start onDisk) (valid : path ∈ start.valid)
    (absent : path ∉ onDisk) : ¬Removable start onDisk path ↔ Held start onDisk path := by
  constructor
  · intro kept
    rw [Removable, not_and] at kept
    have indirect := kept absent
    push Not at indirect
    obtain ⟨referrer, differs, refers, present⟩ := indirect
    obtain ⟨other, otherPresent, otherDiffers, edge⟩ :=
      direct path valid absent ⟨referrer, present, differs, refers⟩
    exact ⟨other, otherPresent, edge, otherDiffers.symm⟩
  · rintro ⟨referrer, present, edge⟩ removable
    exact removable.2 referrer edge.2.symm (TransGen.single edge) present

theorem not_overlooked (direct : HeldDirectly start onDisk) : ¬Overlooked start onDisk := by
  rintro ⟨path, valid, absent, free, referrer, _, edge, holder, present, holderEdge⟩
  have differs : holder ≠ path := fun same => absent (by rwa [← same])
  obtain ⟨other, otherPresent, otherDiffers, otherEdge⟩ := direct path valid absent
    ⟨holder, present, differs, TransGen.tail (TransGen.single holderEdge) edge⟩
  exact free ⟨other, otherPresent, otherEdge, otherDiffers.symm⟩

/-- The check removes exactly the removable paths and reports the ones that stay, from any
database, exactly if no path that has disappeared is referred to from the disk through other
paths only. -/
theorem verified_right_iff (start : Database tables) (onDisk : Finset StorePath)
    (inOrder : Finset StorePath → List StorePath)
    (complete : ∀ paths path, path ∈ inOrder paths ↔ path ∈ paths) :
    VerifiedRight start onDisk (verifyAllValidPaths onDisk inOrder start) ↔
      HeldDirectly start onDisk := by
  have meets : Meets _ (fun _ => Overlooked start onDisk)
      (verifyAllValidPaths onDisk inOrder start) := verify_all_meets complete
  constructor
  · rintro ⟨result, ran, removed, _⟩ path valid absent ⟨referrer, present, differs, refers⟩
    rw [ran, meets_ok] at meets
    have stays : path ∈ result.db.valid :=
      (removed path).mpr ⟨valid, fun removable => removable.2 referrer differs refers present⟩
    obtain ⟨other, otherPresent, edge⟩ := (((meets.1 path).mp stays).2).resolve_left absent
    exact ⟨other, otherPresent, edge.2.symm, edge.1⟩
  · intro direct
    cases ran : verifyAllValidPaths onDisk inOrder start with
    | error failure =>
      rw [ran] at meets
      cases meets with
      | error overlooked => exact absurd overlooked (not_overlooked direct)
    | ok result =>
      rw [ran] at meets
      obtain ⟨remains, reported⟩ := meets
      refine ⟨result, rfl, ?_, ?_⟩
      · intro path
        rw [remains]
        apply and_congr_right
        intro valid
        by_cases present : path ∈ onDisk
        · exact iff_of_true (.inl present) fun removable => removable.1 present
        · rw [held_of_direct direct valid present, or_iff_right present]
      · rw [reported]
        constructor
        · rintro ⟨path, valid, absent, held⟩
          exact ⟨path, (remains path).mpr ⟨valid, .inr held⟩, absent⟩
        · rintro ⟨path, stays, absent⟩
          obtain ⟨valid, kept⟩ := (remains path).mp stays
          exact ⟨path, valid, absent, kept.resolve_left absent⟩

end

def libPath : StorePath := ⟨List.replicate 32 48 ++ ascii "-z", by decide +kernel⟩

def toolPath : StorePath := ⟨List.replicate 32 49 ++ ascii "-tool", by decide +kernel⟩

def appPath : StorePath := ⟨List.replicate 32 50 ++ ascii "-app", by decide +kernel⟩

def chainTables : Tables where
  store := usualStore
  references := fun path =>
    if path = appPath then {toolPath} else if path = toolPath then {libPath} else ∅
  deriver := fun _ => none
  derivationOutputs := fun _ => SortedMap.empty
  outputNames := fun _ => []
  realisations := fun _ _ => none
  caDerivations := false

variable {valid : Finset StorePath} {reference : StorePath}

theorem chain_refers (refers : chainTables.Refers valid path reference) :
    (path = appPath ∧ reference = toolPath) ∨ (path = toolPath ∧ reference = libPath) := by
  have isReference : reference ∈ if path = appPath then {toolPath}
      else if path = toolPath then {libPath} else (∅ : Finset StorePath) := refers.2
  split at isReference
  next isApp => exact .inl ⟨isApp, mem_singleton.mp isReference⟩
  · split at isReference
    next isTool => exact .inr ⟨isTool, mem_singleton.mp isReference⟩
    · exact absurd isReference (notMem_empty reference)

theorem chain_refers_lower
    (refers : chainTables.Refers valid path reference) : reference < path := by
  rcases chain_refers refers with ⟨rfl, rfl⟩ | ⟨rfl, rfl⟩ <;> decide +kernel

def chainStore : Database chainTables where
  valid := {libPath, toolPath, appPath}
  parsed := by decide +kernel
  closed := by decide +kernel
  acyclic := by
    have lower : ∀ {path reference : StorePath}, TransGen (fun path reference =>
        chainTables.Refers {libPath, toolPath, appPath} path reference ∧ reference ≠ path)
        path reference → reference < path := by
      intro path reference chain
      induction chain with
      | single edge => exact chain_refers_lower edge.1
      | tail _ edge ih => exact lt_trans (chain_refers_lower edge.1) ih
    exact fun path cycle => lt_irrefl path (lower cycle)

def inSetOrder (paths : Finset StorePath) : List StorePath := paths.sort

theorem mem_in_set_order (paths : Finset StorePath) (path : StorePath) :
    path ∈ inSetOrder paths ↔ path ∈ paths := mem_sort _

theorem tool_uses_lib : Other chainStore toolPath libPath :=
  ⟨⟨by decide +kernel, by decide +kernel⟩, by decide +kernel⟩

theorem verified_right_library : VerifiedRight chainStore {toolPath, appPath}
      (verifyAllValidPaths {toolPath, appPath} inSetOrder chainStore) := by
  have direct : HeldDirectly chainStore {toolPath, appPath} := by
    intro path valid absent _
    have isLib : path = libPath := by
      rcases mem_insert.mp valid with same | onDisk
      · exact same
      · exact absurd onDisk absent
    rw [isLib]
    exact ⟨toolPath, mem_insert_self _ _, by decide +kernel, tool_uses_lib.1⟩
  exact (verified_right_iff chainStore {toolPath, appPath} inSetOrder
    mem_in_set_order).mpr direct

/-- The library and the tool that refers to it have disappeared, and the application that
refers to the tool is on disk: deleting the library fails. -/
theorem chain_deletion_fails : (∃ failure, verifyAllValidPaths {appPath} inSetOrder chainStore =
      .error failure) ∧
    ¬VerifiedRight chainStore {appPath} (verifyAllValidPaths {appPath} inSetOrder chainStore) := by
  have failed : ∃ failure, verifyAllValidPaths {appPath} inSetOrder chainStore =
      .error failure := by
    have meets : Meets _ (fun _ => Overlooked chainStore {appPath})
        (verifyAllValidPaths {appPath} inSetOrder chainStore) :=
      verify_all_meets mem_in_set_order
    cases ran : verifyAllValidPaths {appPath} inSetOrder chainStore with
    | error failure => exact ⟨failure, rfl⟩
    | ok result =>
      rw [ran, meets_ok] at meets
      have toolStays : toolPath ∈ result.db.valid := (meets.1 toolPath).mpr
        ⟨by decide +kernel, .inr ⟨appPath, mem_singleton_self appPath,
          ⟨by decide +kernel, by decide +kernel⟩, by decide +kernel⟩⟩
      have libStays : libPath ∈ result.db.valid := result.db.closed toolPath toolStays
        tool_uses_lib.1.2
      rcases ((meets.1 libPath).mp libStays).2 with present | ⟨referrer, present, refers, _⟩
      · exact absurd present (by decide +kernel)
      · rcases chain_refers refers with ⟨_, isTool⟩ | ⟨rfl, _⟩
        · exact absurd isTool (by decide +kernel)
        · exact absurd present (by decide +kernel)
  refine ⟨failed, ?_⟩
  rintro ⟨result, ran, _⟩
  obtain ⟨failure, threw⟩ := failed
  rw [threw] at ran
  cases ran

end Bsd.Store.VerifyStore
