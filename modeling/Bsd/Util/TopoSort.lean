import Mathlib.Data.Finset.Sort
import Bsd.Lib.Outcomes
import Bsd.Util.FilePath

/-!
# Topological sorting

`topoSort` puts every item of a set before its children. The search goes down from
each item, adds an item behind its children and turns the result round; an item met
below itself is a cycle. The depth bounds the recursion, which enters each item once.
-/

namespace Bsd.Util.TopoSort

open List Lib.Occurrences Lib.Outcomes Util.FilePath Relation

structure Search (T : Type*) where
  sorted : List T
  visited : Finset T
  parents : Finset T

variable {T : Type*}

/-- The error for an item met below itself. Without a parent the null pointer
would be dereferenced. -/
def cycleError (makeCycleError : T → T → Failure) (path : T) (parent : Option T) : Failure :=
  match parent with
  | some parent => makeCycleError path parent
  | none => .undefinedBehaviour

section

variable [LinearOrder T] (items : Finset T) (getChildren : T → Finset T)
  (makeCycleError : T → T → Failure)

def innerChildren (path : T) : List T :=
  (getChildren path).sort.filter fun child => child ≠ path ∧ child ∈ items

def dfsVisit : Nat → T → Option T → Search T → Except Failure (Search T)
  | 0, path, parent, state =>
    if path ∈ state.parents then .error (cycleError makeCycleError path parent)
    else if path ∈ state.visited then .ok state
    else .error .outOfDepth
  | depth + 1, path, parent, state =>
    if path ∈ state.parents then .error (cycleError makeCycleError path parent)
    else if path ∈ state.visited then .ok state
    else do
      let below ← (innerChildren items getChildren path).foldlM
        (fun state child => dfsVisit depth child (some path) state)
        ⟨state.sorted, insert path state.visited, insert path state.parents⟩
      .ok ⟨below.sorted ++ [path], below.visited, below.parents.erase path⟩

def topoSort : Except Failure (List T) := do
  let state ← items.sort.foldlM
    (fun state item => dfsVisit items getChildren makeCycleError items.card item none state)
    ⟨[], ∅, ∅⟩
  .ok state.sorted.reverse

end

def Below (items : Finset T) (getChildren : T → Finset T) (item child : T) : Prop :=
  child ∈ getChildren item ∧ child ≠ item ∧ child ∈ items

/-- The failures of a search: a cycle error for an item that is below itself. -/
def IsCycle (items : Finset T) (getChildren : T → Finset T) (makeCycleError : T → T → Failure)
    (failure : Failure) : Prop :=
  ∃ path parent, failure = makeCycleError path parent ∧
    TransGen (Below items getChildren) path path

/-- The sorted items are finished, and each stands behind its children. -/
structure Good (items : Finset T) (getChildren : T → Finset T) (state : Search T) : Prop where
  inside : state.visited ⊆ items
  split : ∀ item, item ∈ state.visited ↔ item ∈ state.sorted ∨ item ∈ state.parents
  apart : ∀ item ∈ state.sorted, item ∉ state.parents
  once : state.sorted.Nodup
  closed : ∀ item ∈ state.sorted, ∀ child, Below items getChildren item child → child ∈ state.sorted
  ordered : state.sorted.Pairwise fun earlier later => ¬Below items getChildren earlier later

structure Went (items : Finset T) (getChildren : T → Finset T) (before : Search T) (done : List T)
    (after : Search T) : Prop where
  good : Good items getChildren after
  parents : after.parents = before.parents
  visited : before.visited ⊆ after.visited
  sorted : before.sorted ⊆ after.sorted
  finished : ∀ item ∈ done, item ∈ after.sorted

section Search

variable {items : Finset T} {getChildren : T → Finset T} {state : Search T}

theorem went_nil (good : Good items getChildren state) : Went items getChildren state [] state :=
  ⟨good, rfl, subset_rfl, List.Subset.refl _, nofun⟩

theorem went_snoc {before between after : Search T} {done : List T} {item : T}
    (first : Went items getChildren before done between)
    (second : Went items getChildren between [item] after) :
    Went items getChildren before (done ++ [item]) after where
  good := second.good
  parents := second.parents.trans first.parents
  visited := first.visited.trans second.visited
  sorted := List.Subset.trans first.sorted second.sorted
  finished := by
    intro other member
    rcases mem_append.mp member with earlier | last
    · exact second.sorted (first.finished other earlier)
    · exact second.finished other last

variable [LinearOrder T] {path : T}

theorem mem_inner_children {child : T} :
    child ∈ innerChildren items getChildren path ↔ Below items getChildren path child := by
  simp [innerChildren, Below]

theorem good_enter (good : Good items getChildren state) (member : path ∈ items)
    (fresh : path ∉ state.visited) : Good items getChildren
      ⟨state.sorted, insert path state.visited, insert path state.parents⟩ where
  inside := by
    intro item entered
    rcases Finset.mem_insert.mp entered with same | old
    · rwa [same]
    · exact good.inside old
  split := by
    intro item
    rw [Finset.mem_insert, Finset.mem_insert, good.split item, or_left_comm]
  apart := by
    intro item isSorted isParent
    rcases Finset.mem_insert.mp isParent with same | old
    · rw [same] at isSorted
      exact fresh ((good.split path).mpr (.inl isSorted))
    · exact good.apart item isSorted old
  once := good.once
  closed := good.closed
  ordered := good.ordered

theorem good_leave (good : Good items getChildren state) (entered : path ∈ state.parents)
    (children : ∀ child, Below items getChildren path child → child ∈ state.sorted) :
    Good items getChildren
      ⟨state.sorted ++ [path], state.visited, state.parents.erase path⟩ where
  inside := good.inside
  split := by
    intro item
    rw [good.split item, mem_append, mem_singleton, Finset.mem_erase]
    by_cases same : item = path
    · rw [same]
      exact iff_of_true (.inr entered) (.inl (.inr rfl))
    · rw [or_iff_left same, and_iff_right same]
  apart := by
    intro item isSorted isParent
    obtain ⟨differs, old⟩ := Finset.mem_erase.mp isParent
    rcases mem_append.mp isSorted with earlier | last
    · exact good.apart item earlier old
    · exact differs (mem_singleton.mp last)
  once := by
    apply nodup_append.mpr
    refine ⟨good.once, nodup_singleton path, ?_⟩
    intro item earlier last isPath same
    rw [same, mem_singleton.mp isPath] at earlier
    exact good.apart path earlier entered
  closed := by
    intro item isSorted child below
    apply mem_append_left
    rcases mem_append.mp isSorted with earlier | last
    · exact good.closed item earlier child below
    · rw [mem_singleton.mp last] at below
      exact children child below
  ordered := by
    apply pairwise_append.mpr
    refine ⟨good.ordered, pairwise_singleton _ _, ?_⟩
    intro item earlier last isPath below
    rw [mem_singleton.mp isPath] at below
    exact good.apart path (good.closed item earlier path below) entered

variable {makeCycleError : T → T → Failure}

/-- What a visit needs: the parents are above the item, there is one as soon as
there are parents, and the depth is enough for what is not visited. -/
structure Ready (items : Finset T) (getChildren : T → Finset T) (depth : Nat) (path : T)
    (parent : Option T) (state : Search T) : Prop where
  good : Good items getChildren state
  member : path ∈ items
  above : ∀ item ∈ state.parents, TransGen (Below items getChildren) item path
  pointer : parent = none → state.parents = ∅
  deep : (items \ state.visited).card ≤ depth

variable {parent : Option T} {depth : Nat}

theorem dfs_visit_seen (ready : Ready items getChildren depth path parent state)
    (seen : path ∈ state.visited) :
    Meets (Went items getChildren state [path]) (IsCycle items getChildren makeCycleError)
      (if path ∈ state.parents then .error (cycleError makeCycleError path parent) else .ok state) := by
  by_cases isParent : path ∈ state.parents
  · rw [if_pos isParent]
    apply Meets.error
    cases parent with
    | none =>
      rw [ready.pointer rfl] at isParent
      exact absurd isParent (Finset.notMem_empty path)
    | some above => exact ⟨path, above, rfl, ready.above path isParent⟩
  · rw [if_neg isParent]
    apply Meets.ok
    refine ⟨ready.good, rfl, subset_rfl, List.Subset.refl _, ?_⟩
    intro item same
    rw [mem_singleton.mp same]
    exact ((ready.good.split path).mp seen).resolve_right isParent

theorem dfs_visit_meets (ready : Ready items getChildren depth path parent state) :
    Meets (Went items getChildren state [path]) (IsCycle items getChildren makeCycleError)
      (dfsVisit items getChildren makeCycleError depth path parent state) := by
  induction depth generalizing path parent state with
  | zero =>
    have nothing : items \ state.visited = ∅ := Finset.card_eq_zero.mp (Nat.le_zero.mp ready.deep)
    have seen : path ∈ state.visited := Finset.sdiff_eq_empty_iff_subset.mp nothing ready.member
    rw [dfsVisit, if_pos seen]
    exact dfs_visit_seen ready seen
  | succ depth ih =>
    rw [dfsVisit]
    by_cases seen : path ∈ state.visited
    · rw [if_pos seen]
      exact dfs_visit_seen ready seen
    have notParent : path ∉ state.parents := fun isParent =>
      seen ((ready.good.split path).mpr (.inr isParent))
    rw [if_neg notParent, if_neg seen]
    have enter := good_enter ready.good ready.member seen
    have deep : (items \ insert path state.visited).card ≤ depth := by
      rw [Finset.sdiff_insert, Finset.card_erase_of_mem
        (Finset.mem_sdiff.mpr ⟨ready.member, seen⟩)]
      exact Nat.sub_le_of_le_add ready.deep
    apply meets_bind (meets_foldlM (went_nil enter) ?_)
    · intro below went
      have entered : path ∈ below.parents := by
        rw [went.parents]
        exact Finset.mem_insert_self path state.parents
      apply Meets.ok
      refine ⟨good_leave went.good entered ?_, ?_, ?_, ?_, ?_⟩
      · intro child isBelow
        exact went.finished child (mem_inner_children.mpr isBelow)
      · rw [went.parents]
        exact Finset.erase_insert notParent
      · exact (Finset.subset_insert path state.visited).trans went.visited
      · exact List.Subset.trans went.sorted (subset_append_left _ _)
      · intro item same
        exact mem_append_right _ same
    · intro past child isChild between went
      have isBelow := mem_inner_children.mp isChild
      have childReady : Ready items getChildren depth child (some path) between := by
        refine ⟨went.good, isBelow.2.2, ?_, nofun, ?_⟩
        · intro item isParent
          rw [went.parents] at isParent
          rcases Finset.mem_insert.mp isParent with same | older
          · rw [same]
            exact TransGen.single isBelow
          · exact TransGen.tail (ready.above item older) isBelow
        · exact le_trans (Finset.card_le_card
            (Finset.sdiff_subset_sdiff (subset_refl items) went.visited)) deep
      exact meets_mono (ih childReady) fun after further => went_snoc went further

end Search

/-- Every item once, and none before an item it is a child of. -/
structure IsSorted (items : Finset T) (getChildren : T → Finset T) (result : List T) : Prop where
  once : result.Nodup
  mem : ∀ item, item ∈ result ↔ item ∈ items
  ordered : result.Pairwise fun earlier later => ¬Below items getChildren later earlier

theorem topo_sort_meets [LinearOrder T] (items : Finset T) (getChildren : T → Finset T)
    (makeCycleError : T → T → Failure) :
    Meets (IsSorted items getChildren) (IsCycle items getChildren makeCycleError)
      (topoSort items getChildren makeCycleError) := by
  have start : Good items getChildren ⟨[], ∅, ∅⟩ :=
    ⟨Finset.empty_subset items, by simp, nofun, nodup_nil, nofun, List.Pairwise.nil⟩
  apply meets_bind (meets_foldlM (went_nil start) ?_)
  · intro state went
    apply Meets.ok
    refine ⟨nodup_reverse.mpr went.good.once, ?_, pairwise_reverse.mpr went.good.ordered⟩
    intro item
    rw [mem_reverse]
    constructor
    · intro isSorted
      exact went.good.inside ((went.good.split item).mpr (.inl isSorted))
    · intro member
      exact went.finished item ((Finset.mem_sort _).mpr member)
  · intro past item member state went
    have ready : Ready items getChildren items.card item none state := by
      refine ⟨went.good, (Finset.mem_sort _).mp member, ?_, fun _ => went.parents, ?_⟩
      · intro other isParent
        rw [went.parents] at isParent
        exact absurd isParent (Finset.notMem_empty other)
      · exact Finset.card_le_card Finset.sdiff_subset
    exact meets_mono (dfs_visit_meets ready) fun after further => went_snoc went further

theorem topo_sort_acyclic [LinearOrder T] {items : Finset T} {getChildren : T → Finset T}
    (makeCycleError : T → T → Failure)
    (acyclic : ∀ item, ¬TransGen (Below items getChildren) item item) :
    ∃ result, topoSort items getChildren makeCycleError = .ok result ∧
      IsSorted items getChildren result := by
  have outcome := topo_sort_meets items getChildren makeCycleError
  generalize topoSort items getChildren makeCycleError = run at outcome
  cases outcome with
  | error allowed =>
    obtain ⟨path, _, _, cycle⟩ := allowed
    exact absurd cycle (acyclic path)
  | ok sorted => exact ⟨_, rfl, sorted⟩

/-- In a sorted list an item stands before its children, so it is never below itself. -/
theorem sorted_before [DecidableEq T] {items : Finset T} {getChildren : T → Finset T}
    {result : List T} {item child : T} (sorted : IsSorted items getChildren result)
    (member : item ∈ items) (below : TransGen (Below items getChildren) item child) :
    child ∈ items ∧ result.idxOf item < result.idxOf child := by
  have step {above below} (inside : above ∈ items) (child : Below items getChildren above below) :
      result.idxOf above < result.idxOf below := by
    have first := idxOf_lt_length_of_mem ((sorted.mem above).mpr inside)
    have second := idxOf_lt_length_of_mem ((sorted.mem below).mpr child.2.2)
    by_contra notBefore
    rcases Nat.lt_or_eq_of_le (Nat.le_of_not_lt notBefore) with after | same
    · have notBelow := pairwise_iff_getElem.mp sorted.ordered _ _ second first after
      rw [getElem_idxOf, getElem_idxOf] at notBelow
      exact notBelow child
    · exact child.2.1 ((idxOf_inj ((sorted.mem below).mpr child.2.2)).mp same)
  induction below with
  | single first => exact ⟨first.2.2, step member first⟩
  | tail path last ih => exact ⟨last.2.2, lt_trans ih.2 (step ih.1 last)⟩

/-- Sorting fails exactly on the graphs with a cycle, with an error made from two elements;
otherwise it lists every element once, and none after one of its children. -/
theorem topo_sort_correct [LinearOrder T] (items : Finset T) (getChildren : T → Finset T)
    (makeCycleError : T → T → Failure) :
    ((∃ path parent, topoSort items getChildren makeCycleError =
        .error (makeCycleError path parent)) ↔
      ∃ item, TransGen (Below items getChildren) item item) ∧
    ((∀ item, ¬TransGen (Below items getChildren) item item) →
      ∃ result, topoSort items getChildren makeCycleError = .ok result ∧
        IsSorted items getChildren result) := by
  refine ⟨?_, topo_sort_acyclic makeCycleError⟩
  have outcome := topo_sort_meets items getChildren makeCycleError
  generalize topoSort items getChildren makeCycleError = run at outcome
  cases outcome with
  | error allowed =>
    obtain ⟨path, parent, rfl, cycle⟩ := allowed
    exact iff_of_true ⟨path, parent, rfl⟩ ⟨path, cycle⟩
  | ok sorted =>
    apply iff_of_false nofun
    intro ⟨item, cycle⟩
    have member : item ∈ items := by
      cases cycle with
      | single last | tail _ last => exact last.2.2
    exact lt_irrefl _ (sorted_before sorted member cycle).2

end Bsd.Util.TopoSort
