import Mathlib.Data.Fintype.Card
import Mathlib.Data.List.Infix

/-!
# Exceptions in closures

`computeClosure` with its count of pending elements, for a `getEdgesAsync` that invokes its
callback at once, with children or with an exception, or throws without invoking it.
-/

namespace Bsd.Util.ClosureFailures

open Finset

variable {T E : Type}

inductive Answer (T E : Type) where
  | children (children : List T)
  | failed (exc : E)
  | thrown (exc : E)

structure State (T E : Type) where
  pending : Nat
  res : Finset T
  exc : Option E

def State.caught (state : State T E) (exc : E) : State T E :=
  { state with exc := state.exc <|> some exc, pending := state.pending - 1 }

def enqueueAll (enqueue : T → State T E → State T E × Option E) :
    List T → State T E → State T E × Option E
  | [], state => (state, none)
  | element :: elements, state =>
    match enqueue element state with
    | (state, none) => enqueueAll enqueue elements state
    | (state, some exc) => (state, some exc)

section

variable [DecidableEq T]

def State.enter (state : State T E) (current : T) : State T E :=
  ⟨state.pending + 1, insert current state.res, state.exc⟩

/-- The state and the exception that leaves `enqueue`, if any. The depth bounds the recursion,
which enters each element once. -/
def enqueue (answer : T → Answer T E) : Nat → T → State T E → State T E × Option E
  | 0, _, state => (state, none)
  | depth + 1, current, state =>
    if state.exc.isSome ∨ current ∈ state.res then (state, none)
    else
      match answer current with
      | .thrown exc => (state.enter current, some exc)
      | .failed exc => ((state.enter current).caught exc, none)
      | .children children =>
        match enqueueAll (enqueue answer depth) children (state.enter current) with
        | (state, none) => ({ state with pending := state.pending - 1 }, none)
        | (state, some exc) => (state.caught exc, none)

inductive Outcome (E : Type) where
  | returned
  | threw (exc : E)
  /-- The search waits for `done`, which is not notified any more. -/
  | waiting

variable [Fintype T]

def start (answer : T → Answer T E) (startElts : List T) (res : Finset T) : State T E × Option E :=
  enqueueAll (enqueue answer (Fintype.card T)) startElts ⟨0, res, none⟩

def computeClosure (answer : T → Answer T E) (startElts : List T) (res : Finset T) :
    State T E × Outcome E :=
  match start answer startElts res with
  | (state, some exc) => (state, .threw exc)
  | (state, none) =>
    (state, if state.pending ≠ 0 then .waiting else state.exc.elim .returned .threw)

end

variable {visit other : T → State T E → State T E × Option E} {answer : T → Answer T E}

/-- The elements that a depth-first search enters, with `todo` to visit and `seen` found
before. It goes on behind an element only if there are children to go on with. -/
inductive Enters [DecidableEq T] (answer : T → Answer T E) : List T → Finset T → T → Prop where
  | skip {current element : T} {todo : List T} {seen : Finset T} (old : current ∈ seen)
      (later : Enters answer todo seen element) : Enters answer (current :: todo) seen element
  | here {current : T} {todo : List T} {seen : Finset T} (new : current ∉ seen) :
      Enters answer (current :: todo) seen current
  | further {current element : T} {todo children : List T} {seen : Finset T}
      (new : current ∉ seen) (answered : answer current = .children children)
      (below : Enters answer (children ++ todo) (insert current seen) element) :
      Enters answer (current :: todo) seen element

def Occurred (answer : T → Answer T E) (before after : Finset T) (exc : E) : Prop :=
  ∃ element ∈ after, element ∉ before ∧
    (answer element = .failed exc ∨ answer element = .thrown exc)

theorem Occurred.earlier {found middle last : Finset T} {exc : E} (kept : found ⊆ middle)
    (occurred : Occurred answer middle last exc) : Occurred answer found last exc := by
  obtain ⟨element, isLast, new, fails⟩ := occurred
  exact ⟨element, isLast, fun old => new (kept old), fails⟩

variable [DecidableEq T] {before between : State T E} {todo : List T}

/-- Nothing was entered but elements with children, and the search goes on from `after`. -/
structure Passed (answer : T → Answer T E) (todo : List T) (before after : State T E) : Prop where
  clear : after.exc = none
  pending : after.pending = before.pending
  kept : before.res ⊆ after.res
  fine : ∀ exc, ¬Occurred answer before.res after.res exc
  resumes : ∀ rest element, Enters answer rest after.res element →
    Enters answer (todo ++ rest) before.res element
  entered : ∀ rest element, Enters answer (todo ++ rest) before.res element →
    (∃ children, answer element = .children children) ∨ Enters answer rest after.res element

/-- What visiting `todo` can do: it gets to the end, to an exception of a callback, or to an
element that throws directly, which stays pending. -/
inductive Visited (answer : T → Answer T E) (todo : List T) (before : State T E) :
    State T E × Option E → Prop where
  | passed {after : State T E} (passed : Passed answer todo before after) :
      Visited answer todo before (after, none)
  | failed {after : State T E} {exc : E} (caught : after.exc = some exc)
      (pending : after.pending = before.pending) (occurred : Occurred answer before.res after.res exc)
      (entered : ∀ rest element thrown, Enters answer (todo ++ rest) before.res element →
        answer element ≠ .thrown thrown) : Visited answer todo before (after, none)
  | thrown {after : State T E} {left : Option E} {element : T} {exc : E}
      (stopped : left = none → after.exc.isSome) (pending : before.pending < after.pending)
      (isThrown : answer element = .thrown exc)
      (entered : ∀ rest, Enters answer (todo ++ rest) before.res element) :
      Visited answer todo before (after, left)

theorem Passed.nil (clear : before.exc = none) : Passed answer [] before before :=
  ⟨clear, rfl, subset_rfl, fun _ ⟨_, found, new, _⟩ => new found, fun _ _ => id, fun _ _ => .inr⟩

theorem Passed.old {current : T} (clear : before.exc = none) (old : current ∈ before.res) :
    Passed answer [current] before before where
  clear := clear
  pending := rfl
  kept := subset_rfl
  fine := fun _ ⟨_, found, new, _⟩ => new found
  resumes := fun _ _ => .skip old
  entered := by
    intro rest element enters
    cases enters with
    | skip _ later => exact .inr later
    | here new | further new => exact absurd old new

/-- After what was passed the search is where it would be had it begun with the rest. -/
theorem Passed.visited {first : T} {result : State T E × Option E}
    (passed : Passed answer [first] before between) (visited : Visited answer todo between result) :
    Visited answer (first :: todo) before result := by
  cases visited with
  | @passed after further =>
    refine .passed ⟨further.clear, further.pending.trans passed.pending,
      passed.kept.trans further.kept, ?_, ?_, ?_⟩
    · rintro exc ⟨element, found, new, fails⟩
      by_cases earlier : element ∈ between.res
      · exact passed.fine exc ⟨element, earlier, new, fails⟩
      · exact further.fine exc ⟨element, found, earlier, fails⟩
    · exact fun rest element later => passed.resumes _ _ (further.resumes rest element later)
    · intro rest element enters
      rcases passed.entered (todo ++ rest) element enters with answered | later
      · exact .inl answered
      · exact further.entered rest element later
  | failed caught pending occurred entered =>
    refine .failed caught (pending.trans passed.pending) (occurred.earlier passed.kept) ?_
    intro rest element thrown enters isThrown
    rcases passed.entered (todo ++ rest) element enters with ⟨children, answered⟩ | later
    · cases answered.symm.trans isThrown
    · exact entered rest element thrown later isThrown
  | thrown stopped pending isThrown entered =>
    exact .thrown stopped (passed.pending ▸ pending) isThrown fun rest =>
      passed.resumes (todo ++ rest) _ (entered rest)

omit [DecidableEq T] in
theorem enqueueAll_idle
    (idle : ∀ element (state : State T E), state.exc.isSome → visit element state = (state, none))
    (elements : List T) (caught : before.exc.isSome) :
    enqueueAll visit elements before = (before, none) := by
  induction elements with
  | nil => rfl
  | cons element elements ih =>
    rw [enqueueAll, idle element before caught]
    exact ih

theorem enqueueAll_visited {found : Finset T}
    (idle : ∀ element (state : State T E), state.exc.isSome → visit element state = (state, none))
    (each : ∀ element (state : State T E), state.exc = none → found ⊆ state.res →
      Visited answer [element] state (visit element state))
    (elements : List T) (before : State T E) (clear : before.exc = none)
    (kept : found ⊆ before.res) :
    Visited answer elements before (enqueueAll visit elements before) := by
  induction elements generalizing before with
  | nil => exact .passed (.nil clear)
  | cons element elements ih =>
    have first := each element before clear kept
    rw [enqueueAll]
    generalize visit element before = result at first
    cases first with
    | passed passed => exact passed.visited (ih _ passed.clear (kept.trans passed.kept))
    | failed caught pending occurred entered =>
      simp only [enqueueAll_idle idle elements (Option.isSome_of_eq_some caught)]
      exact .failed caught pending occurred fun rest => entered (elements ++ rest)
    | @thrown after left _ _ stopped pending isThrown entered =>
      cases left with
      | none =>
        simp only [enqueueAll_idle idle elements (stopped rfl)]
        exact .thrown stopped pending isThrown fun rest => entered (elements ++ rest)
      | some exc => exact .thrown nofun pending isThrown fun rest => entered (elements ++ rest)

theorem enqueue_idle (depth : Nat) (current : T) (caught : before.exc.isSome) :
    enqueue answer depth current before = (before, none) := by
  cases depth with
  | zero => rfl
  | succ depth => rw [enqueue, if_pos (.inl caught)]

theorem enters_current {current element : T} {rest children : List T}
    (fresh : current ∉ before.res) (answered : answer current = .children children)
    (enters : Enters answer (current :: rest) before.res element) :
    element = current ∨ Enters answer (children ++ rest) (before.enter current).res element := by
  cases enters with
  | skip old => exact absurd old fresh
  | here => exact .inl rfl
  | further _ isAnswer below =>
    cases answered.symm.trans isAnswer
    exact .inr below

/-- A visit of an element is over when its children have been visited. -/
theorem visited_children {current : T} {children : List T} (fresh : current ∉ before.res)
    (answered : answer current = .children children)
    (visited : Visited answer children (before.enter current)
      (enqueueAll visit children (before.enter current))) :
    Visited answer [current] before
      (match enqueueAll visit children (before.enter current) with
        | (state, none) => ({ state with pending := state.pending - 1 }, none)
        | (state, some exc) => (state.caught exc, none)) := by
  have kept : before.res ⊆ (before.enter current).res := subset_insert _ _
  generalize enqueueAll visit children (before.enter current) = result at visited
  cases visited with
  | @passed after passed =>
    refine .passed ⟨passed.clear, ?_, kept.trans passed.kept, ?_, ?_, ?_⟩
    · simp [passed.pending, State.enter]
    · rintro exc ⟨element, found, new, fails⟩
      refine passed.fine exc ⟨element, found, ?_, fails⟩
      intro entered
      rcases mem_insert.mp entered with rfl | old
      · rcases fails with fails | fails <;> cases answered.symm.trans fails
      · exact new old
    · exact fun rest element later => .further fresh answered (passed.resumes rest element later)
    · intro rest element enters
      rcases enters_current fresh answered enters with rfl | below
      · exact .inl ⟨children, answered⟩
      · exact passed.entered rest element below
  | @failed after exc caught pending occurred entered =>
    refine .failed caught ?_ (occurred.earlier kept) ?_
    · simp [pending, State.enter]
    · intro rest element thrown enters isThrown
      rcases enters_current fresh answered enters with rfl | below
      · cases answered.symm.trans isThrown
      · exact entered rest element thrown below isThrown
  | @thrown after left element exc stopped pending isThrown entered =>
    have further : ∀ rest, Enters answer ([current] ++ rest) before.res element := fun rest =>
      .further fresh answered (entered rest)
    -- The exception lowers the count once, for `current`.
    have still : before.pending < after.pending - 1 := Nat.lt_sub_of_add_lt pending
    cases left with
    | none => exact .thrown (fun _ => stopped rfl) still isThrown further
    | some exc =>
      refine .thrown (fun _ => ?_) still isThrown further
      cases caught : after.exc <;> simp [State.caught, caught]

variable [Fintype T]

theorem enqueue_visited (depth : Nat) (current : T) (before : State T E)
    (clear : before.exc = none) (deep : before.resᶜ.card ≤ depth) :
    Visited answer [current] before (enqueue answer depth current before) := by
  induction depth generalizing current before with
  | zero =>
    have all : before.res = univ := by simpa using deep
    exact .passed (.old clear (all ▸ mem_univ current))
  | succ depth ih =>
    rw [enqueue]
    split
    next skipped =>
      have old := skipped.resolve_left (by simp [clear])
      exact .passed (.old clear old)
    next entering =>
      have fresh : current ∉ before.res := fun old => entering (.inr old)
      cases answered : answer current with
      | thrown exc =>
        exact .thrown nofun (Nat.lt_succ_self _) answered fun rest => .here fresh
      | failed exc =>
        refine .failed ?_ rfl ⟨current, mem_insert_self _ _, fresh, .inl answered⟩ ?_
        · simp [State.caught, State.enter, clear]
        · intro rest element thrown enters isThrown
          cases enters with
          | skip old => exact fresh old
          | here => cases answered.symm.trans isThrown
          | further _ isAnswer => cases answered.symm.trans isAnswer
      | children children =>
        refine visited_children fresh answered (enqueueAll_visited
          (fun element state caught => enqueue_idle depth element caught) ?_ children _ clear
          subset_rfl)
        intro element state clear kept
        have shrinks := card_le_card (compl_subset_compl.mpr kept)
        rw [State.enter, compl_insert, card_erase_of_mem (mem_compl.mpr fresh)] at shrinks
        exact ih element state clear (by omega)

theorem start_visited (startElts : List T) (res : Finset T) :
    Visited answer startElts ⟨0, res, none⟩ (start answer startElts res) :=
  enqueueAll_visited (fun element _ caught => enqueue_idle _ element caught)
    (fun element _ clear _ => enqueue_visited _ element _ clear (card_le_univ _)) startElts
    ⟨0, res, none⟩ rfl (empty_subset res)

/-- The count is zero whenever no `getEdgesAsync` is running, and the search throws an
exception that occurred if there is one. -/
def Exact (answer : T → Answer T E) (startElts : List T) (res : Finset T) : Prop :=
  (∀ started ∈ startElts.inits, (start answer started res).1.pending = 0) ∧
    match computeClosure answer startElts res with
    | (after, .returned) => ∀ exc, ¬Occurred answer res after.res exc
    | (after, .threw exc) => Occurred answer res after.res exc
    | (_, .waiting) => False

/-- The count is exact in a search exactly if `getEdgesAsync` throws directly for no element
that the search enters. Elements that were found before, and those behind the first exception
of a callback, are not entered. -/
theorem exact_iff (answer : T → Answer T E) (startElts : List T) (res : Finset T) :
    Exact answer startElts res ↔
      ∀ element, Enters answer startElts res element → ∀ exc, answer element ≠ .thrown exc := by
  have whole : Visited answer startElts ⟨0, res, none⟩ _ := start_visited startElts res
  constructor
  · intro exact element enters exc isThrown
    have count := exact.1 startElts ((List.mem_inits _ _).mpr (List.prefix_refl _))
    rw [← List.append_nil startElts] at enters
    generalize start answer startElts res = result at whole count
    cases whole with
    | passed passed =>
      rcases passed.entered [] element enters with ⟨children, answered⟩ | nothing
      · cases answered.symm.trans isThrown
      · cases nothing
    | failed _ _ _ entered => exact entered [] element exc enters isThrown
    | thrown _ pending => exact absurd count (Nat.ne_of_gt pending)
  · intro answers
    constructor
    · intro started isInit
      obtain ⟨rest, split⟩ := (List.mem_inits _ _).mp isInit
      have part : Visited answer started ⟨0, res, none⟩ _ := start_visited started res
      generalize start answer started res = result at part
      cases part with
      | passed passed => exact passed.pending
      | failed _ pending => exact pending
      | thrown _ _ isThrown entered => exact absurd isThrown (answers _ (split ▸ entered rest) _)
    · rw [computeClosure]
      generalize start answer startElts res = result at whole
      cases whole with
      | passed passed =>
        have count := passed.pending
        simp only [count, passed.clear]
        exact passed.fine
      | failed caught pending occurred =>
        simp only [pending, caught]
        exact occurred
      | thrown _ _ isThrown entered =>
        have enters := entered []
        rw [List.append_nil] at enters
        exact absurd isThrown (answers _ enters _)

/-- A child that throws directly stays pending, and the search waits for it. -/
theorem thrown_child_pending :
    (computeClosure (fun element : Bool => if element then .thrown () else .children [true])
      [false] ∅).2 = .waiting :=
  rfl

end Bsd.Util.ClosureFailures
