import Mathlib.Data.Finset.Card

/-!
# Worklists

The bookkeeping of a breadth-first search: the items met so far and, in the order
in which they were met, those of them still to be looked at.
-/

namespace Bsd.Lib.Worklists

open List

/-- Nothing is to be done twice, nor without having been met. -/
structure Worklist (Item : Type*) where
  visited : Finset Item
  todo : List Item
  met : ∀ item ∈ todo, item ∈ visited
  once : todo.Nodup

namespace Worklist

variable {Item : Type*}

def Done (work : Worklist Item) (item : Item) : Prop := item ∈ work.visited ∧ item ∉ work.todo

def single (item : Item) : Worklist Item where
  visited := {item}
  todo := [item]
  met := by simp
  once := List.nodup_singleton item

def pop (work : Worklist Item) : Option (Item × Worklist Item) :=
  match shape : work.todo with
  | [] => none
  | item :: rest =>
    some (item,
      { visited := work.visited
        todo := rest
        met := fun other member =>
          work.met other (by rw [shape]; exact List.mem_cons_of_mem item member)
        once := (List.nodup_cons.mp (shape ▸ work.once)).2 })

variable {item other : Item}

theorem mem_single : other ∈ (single item).visited ↔ other = item :=
  Finset.mem_singleton

theorem not_done_single (item other : Item) : ¬(single item).Done other := by
  intro done
  exact done.2 (mem_singleton.mpr (Finset.mem_singleton.mp done.1))

variable {work : Worklist Item}

theorem pop_none (empty : work.pop = none) : work.todo = [] := by
  rw [pop] at empty
  split at empty
  next shape => exact shape
  · cases empty

variable {rest : Worklist Item}

theorem pop_some (popped : work.pop = some (item, rest)) :
    work.todo = item :: rest.todo ∧ rest.visited = work.visited := by
  rw [pop] at popped
  split at popped
  · cases popped
  next first others shape =>
    cases popped
    exact ⟨shape, rfl⟩

theorem pop_none_done (empty : work.pop = none) : work.Done item ↔ item ∈ work.visited := by
  rw [Done, pop_none empty]
  exact and_iff_left not_mem_nil

theorem pop_mem (popped : work.pop = some (item, rest)) : item ∈ work.visited := by
  apply work.met
  rw [(pop_some popped).1]
  exact mem_cons_self

theorem pop_done (popped : work.pop = some (item, rest)) :
    rest.Done other ↔ other = item ∨ work.Done other := by
  obtain ⟨shape, visited⟩ := pop_some popped
  have itemOnce : item ∉ rest.todo := (nodup_cons.mp (shape ▸ work.once)).1
  rw [Done, Done, shape, visited, mem_cons, not_or]
  constructor
  · rintro ⟨member, notLater⟩
    by_cases same : other = item
    · exact .inl same
    · exact .inr ⟨member, same, notLater⟩
  · intro either
    rcases either with same | ⟨member, _, notLater⟩
    · rw [same]
      exact ⟨pop_mem popped, itemOnce⟩
    · exact ⟨member, notLater⟩

variable [DecidableEq Item]

def enqueue (work : Worklist Item) (item : Item) : Worklist Item :=
  if fresh : item ∈ work.visited then work
  else
    { visited := insert item work.visited
      todo := work.todo ++ [item]
      met := by
        intro other member
        rcases List.mem_append.mp member with earlier | isItem
        · exact Finset.mem_insert_of_mem (work.met other earlier)
        · rw [List.mem_singleton.mp isItem]
          exact Finset.mem_insert_self item work.visited
      once := by
        apply List.nodup_append.mpr
        refine ⟨work.once, List.nodup_singleton item, ?_⟩
        intro other earlier last isItem same
        rw [List.mem_singleton.mp isItem] at same
        rw [same] at earlier
        exact fresh (work.met item earlier) }

def enqueueAll (work : Worklist Item) (items : List Item) : Worklist Item :=
  items.foldl enqueue work

theorem mem_enqueue :
    other ∈ (work.enqueue item).visited ↔ other = item ∨ other ∈ work.visited := by
  rw [enqueue]
  split
  next old =>
    constructor
    · exact .inr
    intro either
    rcases either with same | earlier
    · rwa [same]
    · exact earlier
  · exact Finset.mem_insert

theorem done_enqueue : (work.enqueue item).Done other ↔ work.Done other := by
  rw [enqueue]
  split
  · exact Iff.rfl
  next fresh =>
    constructor
    · rintro ⟨member, notTodo⟩
      have notItem : other ≠ item := by
        intro same
        exact notTodo (mem_append_right _ (mem_singleton.mpr same))
      refine ⟨Finset.mem_of_mem_insert_of_ne member notItem, ?_⟩
      intro earlier
      exact notTodo (mem_append_left _ earlier)
    · rintro ⟨member, notTodo⟩
      refine ⟨Finset.mem_insert_of_mem member, ?_⟩
      intro later
      rcases mem_append.mp later with earlier | isItem
      · exact notTodo earlier
      · rw [mem_singleton.mp isItem] at member
        exact fresh member

variable {items : List Item}

theorem mem_enqueue_all :
    other ∈ (work.enqueueAll items).visited ↔ other ∈ items ∨ other ∈ work.visited := by
  induction items generalizing work with
  | nil => simp [enqueueAll]
  | cons item items ih =>
    change other ∈ ((work.enqueue item).enqueueAll items).visited ↔ _
    rw [ih, mem_enqueue, mem_cons, or_left_comm, or_assoc]

theorem done_enqueue_all : (work.enqueueAll items).Done other ↔ work.Done other := by
  induction items generalizing work with
  | nil => exact Iff.rfl
  | cons item items ih =>
    change ((work.enqueue item).enqueueAll items).Done other ↔ _
    rw [ih, done_enqueue]

def size (all : Finset Item) (work : Worklist Item) : Nat :=
  work.todo.length + (all \ work.visited).card

variable {all : Finset Item}

theorem size_enqueue (inside : item ∈ all) : (work.enqueue item).size all = work.size all := by
  rw [enqueue]
  split
  · rfl
  next fresh =>
    have unmet : item ∈ all \ work.visited := Finset.mem_sdiff.mpr ⟨inside, fresh⟩
    change (work.todo ++ [item]).length + (all \ insert item work.visited).card =
      work.todo.length + (all \ work.visited).card
    rw [Finset.sdiff_insert, Finset.card_erase_of_mem unmet, length_append, length_singleton]
    have positive : 0 < (all \ work.visited).card := Finset.card_pos.mpr ⟨item, unmet⟩
    omega

theorem size_enqueue_all (work : Worklist Item)
    (inside : ∀ item ∈ items, item ∈ all) : (work.enqueueAll items).size all = work.size all := by
  induction items generalizing work with
  | nil => rfl
  | cons item items ih =>
    change ((work.enqueue item).enqueueAll items).size all = _
    rw [ih _ fun other member => inside other (mem_cons_of_mem item member),
      size_enqueue (inside item mem_cons_self)]

theorem size_pop (all : Finset Item) (popped : work.pop = some (item, rest)) :
    rest.size all + 1 = work.size all := by
  obtain ⟨shape, visited⟩ := pop_some popped
  rw [size, size, shape, visited, length_cons]
  omega

end Worklist

end Bsd.Lib.Worklists
