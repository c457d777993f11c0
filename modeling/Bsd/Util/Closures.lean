import Mathlib.Data.Finset.Sort
import Bsd.Util.FilePath

/-!
# Closures

`computeClosure` for edges that are answered at once: a depth-first search that
stops at the first exception and throws it when the search is over. The depth
bounds the recursion, which enters each element once.
-/

namespace Bsd.Util.Closures

open Finset Lib.Occurrences Util.FilePath Relation

structure State (T : Type*) where
  res : Finset T
  exc : Option Failure

variable {T : Type*}

def enqueue [LinearOrder T] (getEdges : T → Except Failure (Finset T)) : Nat → T → State T → State T
  | 0, current, state =>
    if state.exc ≠ none ∨ current ∈ state.res then state
    else { state with exc := some .outOfDepth }
  | depth + 1, current, state =>
    if state.exc ≠ none ∨ current ∈ state.res then state
    else
      match getEdges current with
      | .error failure => ⟨insert current state.res, some failure⟩
      | .ok children =>
        children.sort.foldl (fun state child => enqueue getEdges depth child state)
          ⟨insert current state.res, none⟩

def enqueueAll [LinearOrder T] (getEdges : T → Except Failure (Finset T)) (depth : Nat)
    (elements : List T) (state : State T) : State T :=
  elements.foldl (fun state element => enqueue getEdges depth element state) state

def computeClosure [LinearOrder T] (depth : Nat) (startElts res : Finset T)
    (getEdges : T → Except Failure (Finset T)) : Except Failure (Finset T) :=
  let state := enqueueAll getEdges depth startElts.sort ⟨res, none⟩
  match state.exc with
  | some failure => .error failure
  | none => .ok state.res

def Edge (getEdges : T → Except Failure (Finset T)) (element child : T) : Prop :=
  ∃ children, getEdges element = .ok children ∧ child ∈ children

/-- The search from `starts` took the found elements from `before` to `after`. -/
structure Explored (getEdges : T → Except Failure (Finset T)) (starts : List T)
    (before after : Finset T) : Prop where
  kept : before ⊆ after
  started : ∀ start ∈ starts, start ∈ after
  reached : ∀ element ∈ after, element ∈ before ∨
    ∃ start ∈ starts, ReflTransGen (Edge getEdges) start element
  expanded : ∀ element ∈ after, element ∈ before ∨
    ∃ children, getEdges element = .ok children ∧ children ⊆ after

section Exploration

variable {getEdges : T → Except Failure (Finset T)} {current : T}

theorem explored_found {found : Finset T} (old : current ∈ found) :
    Explored getEdges [current] found found where
  kept := subset_refl found
  started := by
    intro start member
    rwa [List.mem_singleton.mp member]
  reached := fun _ member => .inl member
  expanded := fun _ member => .inl member

theorem explored_nil (found : Finset T) : Explored getEdges [] found found where
  kept := subset_refl found
  started := nofun
  reached := fun _ member => .inl member
  expanded := fun _ member => .inl member

variable {after : Finset T}

theorem explored_cons {first : T} {rest : List T} {before between : Finset T}
    (head : Explored getEdges [first] before between) (tail : Explored getEdges rest between after) :
    Explored getEdges (first :: rest) before after where
  kept := head.kept.trans tail.kept
  started := List.forall_mem_cons.mpr
    ⟨tail.kept (head.started first List.mem_cons_self), tail.started⟩
  reached := by
    intro element member
    rcases tail.reached element member with earlier | ⟨start, isStart, path⟩
    · rcases head.reached element earlier with old | ⟨start, isStart, path⟩
      · exact .inl old
      · rw [List.mem_singleton.mp isStart] at path
        exact .inr ⟨first, List.mem_cons_self, path⟩
    · exact .inr ⟨start, List.mem_cons_of_mem first isStart, path⟩
  expanded := by
    intro element member
    rcases tail.expanded element member with earlier | later
    · rcases head.expanded element earlier with old | ⟨children, answered, inside⟩
      · exact .inl old
      · exact .inr ⟨children, answered, inside.trans tail.kept⟩
    · exact .inr later

variable {before : State T} {children : List T}

theorem foldl_explored {visit : State T → T → State T}
    (each : ∀ child before, (visit before child).exc = none →
      before.exc = none ∧ Explored getEdges [child] before.res (visit before child).res)
    (clean : (children.foldl visit before).exc = none) : before.exc = none ∧
      Explored getEdges children before.res (children.foldl visit before).res := by
  induction children generalizing before with
  | nil => exact ⟨clean, explored_nil before.res⟩
  | cons child children ih =>
    obtain ⟨between, tail⟩ := ih clean
    obtain ⟨initially, head⟩ := each child before between
    exact ⟨initially, explored_cons head tail⟩

variable [LinearOrder T]

theorem explored_children {children before : Finset T} (answered : getEdges current = .ok children)
    (below : Explored getEdges children.sort (insert current before) after) :
    Explored getEdges [current] before after where
  kept := (subset_insert current before).trans below.kept
  started := by
    intro start member
    rw [List.mem_singleton.mp member]
    exact below.kept (mem_insert_self current before)
  reached := by
    intro element member
    rcases below.reached element member with earlier | ⟨child, isChild, path⟩
    · rcases mem_insert.mp earlier with same | old
      · rw [same]
        exact .inr ⟨current, List.mem_cons_self, ReflTransGen.refl⟩
      · exact .inl old
    · have edge : Edge getEdges current child :=
        ⟨children, answered, (mem_sort _).mp isChild⟩
      exact .inr ⟨current, List.mem_cons_self, ReflTransGen.head edge path⟩
  expanded := by
    intro element member
    rcases below.expanded element member with earlier | later
    · rcases mem_insert.mp earlier with same | old
      · rw [same]
        refine .inr ⟨children, answered, ?_⟩
        intro child isChild
        exact below.started child ((mem_sort _).mpr isChild)
      · exact .inl old
    · exact .inr later

variable {depth : Nat}

theorem enqueue_explored (clean : (enqueue getEdges depth current before).exc = none) :
    before.exc = none ∧
      Explored getEdges [current] before.res (enqueue getEdges depth current before).res := by
  induction depth generalizing current before with
  | zero =>
    rw [enqueue] at clean ⊢
    by_cases skipped : before.exc ≠ none ∨ current ∈ before.res
    · rw [if_pos skipped] at clean ⊢
      exact ⟨clean, explored_found (skipped.resolve_left (not_not.mpr clean))⟩
    · rw [if_neg skipped] at clean
      cases clean
  | succ depth ih =>
    rw [enqueue] at clean ⊢
    by_cases skipped : before.exc ≠ none ∨ current ∈ before.res
    · rw [if_pos skipped] at clean ⊢
      exact ⟨clean, explored_found (skipped.resolve_left (not_not.mpr clean))⟩
    rw [if_neg skipped] at clean ⊢
    cases answered : getEdges current with
    | error failure =>
      rw [answered] at clean
      cases clean
    | ok children =>
      rw [answered] at clean
      have below := foldl_explored (fun child before ran => ih ran) clean
      exact ⟨not_not.mp fun thrown => skipped (.inl thrown), explored_children answered below.2⟩

variable {all : Finset T}

theorem foldl_clean (each : ∀ child before, before.exc = none → child ∈ all →
      (all \ before.res).card ≤ depth → (enqueue getEdges depth child before).exc = none)
    (inside : ∀ child ∈ children, child ∈ all) (clean : before.exc = none)
    (deep : (all \ before.res).card ≤ depth) :
    (enqueueAll getEdges depth children before).exc = none := by
  induction children generalizing before with
  | nil => exact clean
  | cons child children ih =>
    have first := each child before clean (inside child List.mem_cons_self) deep
    apply ih (fun other member => inside other (List.mem_cons_of_mem child member)) first
    exact le_trans (card_le_card
      (sdiff_subset_sdiff (subset_refl all) (enqueue_explored first).2.kept)) deep

section

variable (answers : ∀ element ∈ all, ∃ children, getEdges element = .ok children ∧ children ⊆ all)

include answers

theorem enqueue_clean (clean : before.exc = none) (inside : current ∈ all)
    (deep : (all \ before.res).card ≤ depth) :
    (enqueue getEdges depth current before).exc = none := by
  induction depth generalizing current before with
  | zero =>
    have nothing : all \ before.res = ∅ := card_eq_zero.mp (Nat.le_zero.mp deep)
    rw [enqueue, if_pos (.inr (sdiff_eq_empty_iff_subset.mp nothing inside))]
    exact clean
  | succ depth ih =>
    rw [enqueue]
    by_cases skipped : before.exc ≠ none ∨ current ∈ before.res
    · rw [if_pos skipped]
      exact clean
    rw [if_neg skipped]
    obtain ⟨children, answered, below⟩ := answers current inside
    rw [answered]
    have fresh : current ∈ all \ before.res :=
      mem_sdiff.mpr ⟨inside, fun old => skipped (.inr old)⟩
    apply foldl_clean (fun child before clean inside deep => ih clean inside deep)
    · intro child member
      exact below ((mem_sort _).mp member)
    · rfl
    · rw [sdiff_insert, card_erase_of_mem fresh]
      exact Nat.sub_le_of_le_add deep

/-- Where every element of a set that holds the start and its own children has
an answer, the closure is what can be reached. -/
theorem compute_closure_ok {startElts : Finset T} (inside : startElts ⊆ all)
    (deep : all.card ≤ depth) :
    ∃ res, computeClosure depth startElts ∅ getEdges = .ok res ∧ ∀ element, element ∈ res ↔
        ∃ start ∈ startElts, ReflTransGen (Edge getEdges) start element := by
  have clean : (enqueueAll getEdges depth startElts.sort ⟨∅, none⟩).exc = none := by
    apply foldl_clean fun child before clean inside deep => enqueue_clean answers clean inside deep
    · intro start member
      exact inside ((mem_sort _).mp member)
    · rfl
    · rwa [sdiff_empty]
  have found := (foldl_explored (fun child before ran => enqueue_explored ran) clean).2
  refine ⟨(enqueueAll getEdges depth startElts.sort ⟨∅, none⟩).res, ?_, ?_⟩
  · rw [computeClosure]
    simp [clean]
  intro element
  constructor
  · intro member
    rcases found.reached element member with old | ⟨start, isStart, path⟩
    · exact absurd old (notMem_empty element)
    · exact ⟨start, (mem_sort _).mp isStart, path⟩
  rintro ⟨start, isStart, path⟩
  induction path with
  | refl => exact found.started start ((mem_sort _).mpr isStart)
  | tail earlier edge ih =>
    obtain ⟨children, answered, isChild⟩ := edge
    rcases found.expanded _ ih with old | ⟨known, sameAnswer, below⟩
    · exact absurd old (notMem_empty _)
    · rw [answered] at sameAnswer
      cases sameAnswer
      exact below isChild

end

end Exploration

end Bsd.Util.Closures
