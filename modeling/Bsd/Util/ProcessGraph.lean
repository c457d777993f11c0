import Mathlib.Data.Finset.Sort
import Mathlib.Data.Multiset.Bind
import Bsd.Util.CalmPools

/-!
# Processing a graph

`processGraph` runs one work item for each node on a thread pool. An item that finds
unprocessed dependencies of its node leaves the node to them, and whoever finishes the last
of them enqueues the node again. The items share a graph, whose mutex is held while nodes
are enqueued.
-/

namespace Bsd.Util.ProcessGraph

open Function Multiset Util.ThreadPool

inductive GraphEvent (T : Type) where
  | called (node : T)
  | returned (node : T)
  deriving DecidableEq

/-- `Graph`, with its mutex and with the calls of `processNode` so far. -/
structure Graph (T : Type) where
  left : Finset T
  refs : T → Option (Finset T)
  rrefs : T → Finset T
  locked : Bool
  log : List (GraphEvent T)

/-- The places of `worker`. At the last four the mutex of the graph is held. -/
inductive WorkerPlace (T : Type) where
  | lookUp (node : T)
  | getRefs (node : T)
  | addRefs (node : T) (refs : Finset T)
  | doWork (node : T)
  | inside (node : T)
  | finish (node : T)
  | done
  | thrown
  | release (node : T) (rrefs : List T)
  | hand (node rref : T) (rrefs : List T)
  | unwind

inductive ShutDown where
  | cannotEnqueue

variable {T : Type}

namespace Graph

variable [LinearOrder T] (graph : Graph T)

def refsOf (node : T) : Finset T := (graph.refs node).getD ∅

def addRefs (node : T) (refs : Finset T) : Graph T :=
  { graph with
    refs := Function.update graph.refs node (some (graph.refsOf node ∪ (refs ∩ graph.left)))
    rrefs := fun ref => if ref ∈ refs ∩ graph.left then insert node (graph.rrefs ref)
      else graph.rrefs ref }

def record (event : GraphEvent T) : Graph T := { graph with log := graph.log ++ [event] }

def lock : Graph T := { graph with locked := true }

def eraseRef (node rref : T) : Graph T :=
  { graph with refs := Function.update graph.refs rref (some ((graph.refsOf rref).erase node)) }

def erase (node : T) : Graph T :=
  { graph with
    left := graph.left.erase node
    refs := Function.update graph.refs node none
    rrefs := Function.update graph.rrefs node ∅
    locked := false }

end Graph

section

variable [LinearOrder T]

def actions (getEdges : T → Finset T) :
    WorkerPlace T → Graph T → List (Action T (WorkerPlace T) (Graph T) ShutDown)
  | .lookUp node, graph =>
    if graph.locked then []
    else [.proceed graph (if graph.refs node = none then .getRefs node else .doWork node)]
  | .getRefs node, graph => [.proceed graph (.addRefs node ((getEdges node).erase node))]
  | .addRefs node refs, graph =>
    if graph.locked then []
    else [.proceed (graph.addRefs node refs)
      (if (graph.addRefs node refs).refsOf node = ∅ then .doWork node else .done)]
  | .doWork node, graph => [.proceed (graph.record (.called node)) (.inside node)]
  | .inside node, graph => [.proceed (graph.record (.returned node)) (.finish node)]
  | .finish node, graph =>
    if graph.locked then [] else [.proceed graph.lock (.release node (graph.rrefs node).sort)]
  | .done, _ => [.finish]
  | .thrown, _ => [.throw .cannotEnqueue]
  | .release node [], graph => [.proceed (graph.erase node) .done]
  | .release node (rref :: rest), graph =>
    if node ∈ graph.refsOf rref then
      [.proceed (graph.eraseRef node rref)
        (if (graph.eraseRef node rref).refsOf rref = ∅ then .hand node rref rest
        else .release node rest)]
    else [.abort]
  | .hand node rref rest, _ => [.enqueue rref (.release node rest) .unwind]
  | .unwind, graph => [.proceed { graph with locked := false } .thrown]

def worker (getEdges : T → Finset T) : Code T (WorkerPlace T) (Graph T) ShutDown where
  start := .lookUp
  actions := actions getEdges

def startGraph (nodes : Finset T) : Graph T := ⟨nodes, fun _ => none, fun _ => ∅, false, []⟩

def submitNodes (nodes : Finset T) : Caller T := .submitAll .process nodes.sort

inductive Outcome where
  | done
  | incomplete
  deriving DecidableEq

def outcome (graph : Graph T) : Outcome := if graph.left = ∅ then .done else .incomplete

end

def tokens : WorkerPlace T → Multiset T
  | .lookUp node => {node}
  | .getRefs node => {node}
  | .addRefs node _ => {node}
  | .doWork node => {node}
  | .inside node => {node}
  | .finish node => {node}
  | .release node _ => {node}
  | .hand node rref _ => node ::ₘ {rref}
  | _ => 0

/-- The node whose dependents are being released, with those that are left. -/
def holding : WorkerPlace T → Option (T × List T)
  | .release node rest => some (node, rest)
  | .hand node _ rest => some (node, rest)
  | _ => none

def working : WorkerPlace T → Option T
  | .inside node => some node
  | .finish node => some node
  | .release node _ => some node
  | .hand node _ _ => some node
  | _ => none

abbrev GraphLoad (T : Type) := Load T (WorkerPlace T) (Graph T)

def total (load : GraphLoad T) : Multiset T :=
  load.unsubmitted + load.jobs + load.items.bind tokens

/-- The nodes that wait for a node, of which some may have been released already. -/
def waiters [LinearOrder T] (graph : Graph T) : Option (T × List T) → T → Finset T
  | some (node, rest), dependency =>
    if dependency = node then rest.toFinset else graph.rrefs dependency
  | none, dependency => graph.rrefs dependency

section Invariant

variable [LinearOrder T] (nodes : Finset T) (edges : T → Finset T)

def Dep (node dependency : T) : Prop :=
  node ∈ nodes ∧ dependency ∈ nodes ∧ dependency ∈ edges node ∧ dependency ≠ node

def Acyclic : Prop := ∀ node, ¬Relation.TransGen (Dep nodes edges) node node

/-- Each call comes once and after the dependencies, and each return after its call. -/
structure Ordered (log : List (GraphEvent T)) : Prop where
  calls : ∀ earlier node later, log = earlier ++ .called node :: later →
    .called node ∉ earlier ∧ ∀ dependency, Dep nodes edges node dependency →
      .returned dependency ∈ earlier
  returns : ∀ earlier node later, log = earlier ++ .returned node :: later → .called node ∈ earlier

/-- A node that is left has someone to take care of it, or it waits for another one. -/
structure Balanced (graph : Graph T) (total : Multiset T) : Prop where
  nodup : total.Nodup
  inLeft : ∀ node ∈ total, node ∈ graph.left
  waiting : ∀ node ∈ graph.left, node ∉ total → graph.refsOf node ≠ ∅
  idle : ∀ node ∈ total, graph.refsOf node = ∅

structure Linked (graph : Graph T) (holder : Option (T × List T)) : Prop where
  within : graph.left ⊆ nodes
  ended : ∀ node, node ∉ graph.left → graph.refs node = none
  waits : ∀ dependency node, dependency ∈ graph.refsOf node ↔ node ∈ waiters graph holder dependency
  once : ∀ node rest, holder = some (node, rest) → rest.Nodup
  refsLeft : ∀ node dependency, dependency ∈ graph.refsOf node →
    dependency ∈ graph.left ∧ dependency ∈ edges node ∧ dependency ≠ node
  met : ∀ node, graph.refs node ≠ none → ∀ dependency, Dep nodes edges node dependency →
    dependency ∈ graph.refsOf node ∨ .returned dependency ∈ graph.log
  gone : ∀ node ∈ nodes, node ∉ graph.left → .returned node ∈ graph.log

def PlaceOk (graph : Graph T) : WorkerPlace T → Prop
  | .lookUp _ => True
  | .getRefs node => graph.refs node = none
  | .addRefs node refs => graph.refs node = none ∧ refs = (edges node).erase node
  | .doWork node => graph.refs node = some ∅
  | .inside node => graph.refs node = some ∅ ∧ .called node ∈ graph.log
  | .finish node => graph.refs node = some ∅ ∧ .returned node ∈ graph.log
  | .done => True
  | .thrown => False
  | .release node _ => graph.refs node = some ∅ ∧ .returned node ∈ graph.log
  | .hand node rref _ =>
    (graph.refs node = some ∅ ∧ .returned node ∈ graph.log) ∧ graph.refs rref = some ∅
  | .unwind => False

structure Good (load : GraphLoad T) (holder : Option (T × List T)) : Prop where
  held : load.items.filterMap holding = holder.elim 0 ({·})
  locked : load.state.locked = holder.isSome
  balanced : Balanced load.state (total load)
  linked : Linked nodes edges load.state holder
  places : ∀ item ∈ load.items, PlaceOk edges load.state item
  calledBy : ∀ node, .called node ∈ load.state.log →
    node ∈ nodes ∧ (node ∉ load.state.left ∨ ∃ item ∈ load.items, working item = some node)
  ordered : Ordered nodes edges load.state.log

end Invariant

variable {node : T}

section Order

variable {nodes : Finset T} {edges : T → Finset T}

theorem snoc_split {Event : Type} {log earlier later : List Event} {event last : Event}
    (split : log ++ [last] = earlier ++ event :: later) :
    (earlier = log ∧ event = last) ∨ ∃ rest, log = earlier ++ event :: rest := by
  obtain rfl | ⟨rest, final, rfl⟩ := later.eq_nil_or_concat'
  · obtain ⟨same, sameEvent⟩ := List.append_inj' split rfl
    cases sameEvent
    exact .inl ⟨same.symm, rfl⟩
  · have grouped : log ++ [last] = (earlier ++ event :: rest) ++ [final] := by
      rw [split, List.append_assoc, List.cons_append]
    exact .inr ⟨rest, (List.append_inj' grouped rfl).1⟩

variable {log : List (GraphEvent T)}

section

variable (ordered : Ordered nodes edges log)

include ordered

theorem Ordered.call (fresh : .called node ∉ log)
    (met : ∀ dependency, Dep nodes edges node dependency → .returned dependency ∈ log) :
    Ordered nodes edges (log ++ [.called node]) where
  calls earlier other later split := by
    obtain ⟨rfl, same⟩ | ⟨rest, old⟩ := snoc_split split
    · cases same
      exact ⟨fresh, met⟩
    · exact ordered.calls earlier other rest old
  returns earlier other later split := by
    obtain ⟨_, same⟩ | ⟨rest, old⟩ := snoc_split split
    · cases same
    · exact ordered.returns earlier other rest old

theorem Ordered.return (called : .called node ∈ log) :
    Ordered nodes edges (log ++ [.returned node]) where
  calls earlier other later split := by
    obtain ⟨_, same⟩ | ⟨rest, old⟩ := snoc_split split
    · cases same
    · exact ordered.calls earlier other rest old
  returns earlier other later split := by
    obtain ⟨rfl, same⟩ | ⟨rest, old⟩ := snoc_split split
    · cases same
      exact called
    · exact ordered.returns earlier other rest old

theorem Ordered.count_le [DecidableEq T] (node : T) : log.count (.called node) ≤ 1 := by
  by_cases member : GraphEvent.called node ∈ log
  · obtain ⟨earlier, later, split, fresh⟩ := List.eq_append_cons_of_mem member
    by_cases again : GraphEvent.called node ∈ later
    · obtain ⟨between, rest, isLater⟩ := List.append_of_mem again
      have second := (ordered.calls (earlier ++ .called node :: between) node rest
        (by rw [split, isLater, List.append_assoc, List.cons_append])).1
      exact absurd (List.mem_append_right _ List.mem_cons_self) second
    · rw [split, List.count_append, List.count_cons_self, List.count_eq_zero.mpr fresh,
        List.count_eq_zero.mpr again]
  · rw [List.count_eq_zero.mpr member]
    exact Nat.zero_le 1

/-- What has been processed has no dependencies without end. -/
theorem acc_of_returned (returned : .returned node ∈ log) :
    Acc (fun dependency node => Dep nodes edges node dependency) node := by
  induction size : log.length using Nat.strong_induction_on generalizing log node with
  | _ size ih =>
    obtain ⟨earlier, later, split⟩ := List.append_of_mem returned
    obtain ⟨before, between, isEarlier⟩ :=
      List.append_of_mem (ordered.returns earlier node later split)
    have calls := (ordered.calls before node (between ++ .returned node :: later)
      (by rw [split, isEarlier, List.append_assoc, List.cons_append])).2
    -- the part of the log before the call is ordered too
    have shorter : Ordered nodes edges before := by
      have whole : log = before ++ (.called node :: between ++ .returned node :: later) := by
        rw [split, isEarlier, List.append_assoc]
      constructor
      · intro first other last same
        exact ordered.calls first other _ (by rw [whole, same, List.append_assoc]; rfl)
      · intro first other last same
        exact ordered.returns first other _ (by rw [whole, same, List.append_assoc]; rfl)
    constructor
    intro dependency isDep
    refine ih before.length ?_ shorter (calls dependency isDep) rfl
    rw [← size, split, isEarlier]
    simp only [List.length_append, List.length_cons]
    omega

end

end Order

section

variable {nodes : Finset T} {edges : T → Finset T} {graph after : Graph T} {item : WorkerPlace T}

theorem working_token (works : working item = some node) : node ∈ tokens item := by
  cases item with
  | inside | finish | release =>
    cases works
    exact mem_singleton_self node
  | hand other rref =>
    cases works
    exact mem_cons_self node {rref}
  | _ => cases works

def others (unsubmitted : List T) (jobs : Multiset T) (rest : Multiset (WorkerPlace T)) : Multiset T :=
  unsubmitted + jobs + rest.bind tokens

theorem total_cons (state : Graph T) (unsubmitted : List T) (jobs : Multiset T)
    (item : WorkerPlace T) (rest : Multiset (WorkerPlace T)) :
    total ⟨state, unsubmitted, jobs, item ::ₘ rest⟩ = tokens item + others unsubmitted jobs rest := by
  rw [total, others, cons_bind, add_left_comm]

theorem total_done (state : Graph T) (unsubmitted : List T) (jobs : Multiset T)
    (rest : Multiset (WorkerPlace T)) :
    total ⟨state, unsubmitted, jobs, .done ::ₘ rest⟩ = others unsubmitted jobs rest :=
  (total_cons state unsubmitted jobs .done rest).trans (zero_add _)

variable {unsubmitted : List T} {jobs : Multiset T} {item next : WorkerPlace T}
  {rest : Multiset (WorkerPlace T)} {holder : Option (T × List T)}

theorem token_others {other : WorkerPlace T} (member : other ∈ rest) (token : node ∈ tokens other) :
    node ∈ others unsubmitted jobs rest :=
  mem_add.mpr (.inr (mem_bind.mpr ⟨other, member, token⟩))

theorem token_total (state : Graph T) (token : node ∈ tokens item) :
    node ∈ total ⟨state, unsubmitted, jobs, item ::ₘ rest⟩ := by
  rw [total_cons]
  exact mem_add.mpr (.inl token)

theorem works_rest (idle : working item = none)
    (some_ : ∃ other ∈ item ::ₘ rest, working other = some node) :
    ∃ other ∈ rest, working other = some node := by
  obtain ⟨other, member, works⟩ := some_
  obtain rfl | inRest := mem_cons.mp member
  · cases idle.symm.trans works
  · exact ⟨other, inRest, works⟩

theorem works_swap (same : ∀ node, working item = some node → working next = some node)
    (some_ : ∃ other ∈ item ::ₘ rest, working other = some node) :
    ∃ other ∈ next ::ₘ rest, working other = some node := by
  obtain ⟨other, member, works⟩ := some_
  obtain rfl | inRest := mem_cons.mp member
  · exact ⟨next, mem_cons_self _ _, same node works⟩
  · exact ⟨other, mem_cons_of_mem inRest, works⟩

theorem held_swap (same : holding next = holding item) :
    (next ::ₘ rest).filterMap holding = (item ::ₘ rest).filterMap holding := by
  cases holds : holding item with
  | none =>
    rw [filterMap_cons_none _ _ (same.trans holds), filterMap_cons_none _ _ holds]
  | some pair =>
    rw [filterMap_cons_some _ _ _ (same.trans holds), filterMap_cons_some _ _ _ holds]

theorem holder_alone {pair : T × List T} (isHolding : holding item = some pair)
    (unheld : rest.filterMap holding = 0) : (item ::ₘ rest).filterMap holding = {pair} := by
  rw [filterMap_cons_some _ _ _ isHolding, unheld]
  rfl

/-- A step changes what one node waits for or who takes care of it. -/
theorem Balanced.change {before now : Multiset T} (balanced : Balanced graph before)
    (nodup : now.Nodup) (elsewhere : ∀ other, other ≠ node → (other ∈ now ↔ other ∈ before) ∧
      (other ∈ after.left ↔ other ∈ graph.left) ∧ after.refsOf other = graph.refsOf other)
    (cared : node ∈ now → node ∈ after.left ∧ after.refsOf node = ∅)
    (alone : node ∉ now → node ∈ after.left → after.refsOf node ≠ ∅) : Balanced after now := by
  refine ⟨nodup, fun other member => ?_, fun other left out => ?_, fun other member => ?_⟩
  · obtain rfl | differ := eq_or_ne other node
    · exact (cared member).1
    · obtain ⟨token, isLeft, _⟩ := elsewhere other differ
      exact isLeft.mpr (balanced.inLeft other (token.mp member))
  · obtain rfl | differ := eq_or_ne other node
    · exact alone out left
    · obtain ⟨token, isLeft, refs⟩ := elsewhere other differ
      rw [refs]
      exact balanced.waiting other (isLeft.mp left) fun member => out (token.mpr member)
  · obtain rfl | differ := eq_or_ne other node
    · exact (cared member).2
    · obtain ⟨token, _, refs⟩ := elsewhere other differ
      rw [refs]
      exact balanced.idle other (token.mp member)

theorem mem_others {other : T} (differ : other ≠ node) :
    other ∈ others unsubmitted jobs rest ↔ other ∈ {node} + others unsubmitted jobs rest := by
  rw [mem_add, mem_singleton, or_iff_right differ]

theorem refs_of_none (absent : graph.refs node = none) : graph.refsOf node = ∅ := by
  rw [Graph.refsOf, absent]
  rfl

theorem refs_of_empty (ready : graph.refs node = some ∅) : graph.refsOf node = ∅ := by
  rw [Graph.refsOf, ready]
  rfl

variable [LinearOrder T]

theorem place_ok_congr (ok : PlaceOk edges graph item)
    (same : ∀ node ∈ tokens item, after.refs node = graph.refs node)
    (longer : ∀ event ∈ graph.log, event ∈ after.log) : PlaceOk edges after item := by
  cases item with
  | lookUp | done => trivial
  | getRefs node | doWork node => exact (same node (mem_singleton_self node)).trans ok
  | addRefs node => exact ⟨(same node (mem_singleton_self node)).trans ok.1, ok.2⟩
  | inside node | finish node | release node =>
    exact ⟨(same node (mem_singleton_self node)).trans ok.1, longer _ ok.2⟩
  | thrown | unwind => exact ok
  | hand node rref rest =>
    have isNode : node ∈ tokens (.hand node rref rest) := mem_cons_self node {rref}
    have isRref : rref ∈ tokens (.hand node rref rest) :=
      mem_cons_of_mem (mem_singleton_self rref)
    exact ⟨⟨(same node isNode).trans ok.1.1, longer _ ok.1.2⟩, (same rref isRref).trans ok.2⟩

theorem Good.apart (good : Good nodes edges ⟨graph, unsubmitted, jobs, item ::ₘ rest⟩ holder)
    (token : node ∈ tokens item) : node ∉ others unsubmitted jobs rest := by
  have distinct := good.balanced.nodup
  rw [total_cons, nodup_add] at distinct
  exact disjoint_left.mp distinct.2.2 token

variable {load : GraphLoad T}

theorem Good.sameState {after : GraphLoad T} (good : Good nodes edges load holder)
    (sameState : after.state = load.state) (sameTotal : total after = total load)
    (sameHeld : after.items.filterMap holding = load.items.filterMap holding)
    (places : ∀ item ∈ after.items, PlaceOk edges load.state item)
    (works : ∀ node, (∃ item ∈ load.items, working item = some node) →
      ∃ item ∈ after.items, working item = some node) : Good nodes edges after holder where
  held := sameHeld.trans good.held
  locked := sameState ▸ good.locked
  balanced := by
    rw [sameState, sameTotal]
    exact good.balanced
  linked := sameState ▸ good.linked
  places := sameState ▸ places
  calledBy node called := by
    rw [sameState] at called ⊢
    exact (good.calledBy node called).imp_right (Or.imp_right (works node))
  ordered := sameState ▸ good.ordered

theorem Good.called (good : Good nodes edges ⟨graph, unsubmitted, jobs, item ::ₘ rest⟩ holder)
    (same : ∀ node, working item = some node → working next = some node)
    (called : .called node ∈ graph.log) :
    node ∈ nodes ∧ (node ∉ graph.left ∨ ∃ other ∈ next ::ₘ rest, working other = some node) :=
  (good.calledBy node called).imp_right (Or.imp_right (works_swap same))

theorem Good.goesOn (good : Good nodes edges ⟨graph, unsubmitted, jobs, item ::ₘ rest⟩ holder)
    (sameTokens : tokens next = tokens item) (sameHolding : holding next = holding item)
    (sameWorking : working next = working item) (ok : PlaceOk edges graph next) :
    Good nodes edges ⟨graph, unsubmitted, jobs, next ::ₘ rest⟩ holder := by
  refine good.sameState rfl ?_ (held_swap sameHolding) ?_ ?_
  · rw [total_cons, total_cons, sameTokens]
  · exact forall_mem_cons.mpr ⟨ok, fun other inRest => good.places other (mem_cons_of_mem inRest)⟩
  · exact fun _ => works_swap fun _ works => sameWorking.trans works

variable {waiting : List T}

section

variable (good : Good nodes edges ⟨graph, unsubmitted, jobs, item ::ₘ rest⟩ holder)

include good

theorem Good.holds (isHolding : holding item = some (node, waiting)) :
    holder = some (node, waiting) ∧ rest.filterMap holding = 0 := by
  have held := good.held
  rw [filterMap_cons_some _ _ _ isHolding] at held
  cases holder with
  | none => exact absurd held (cons_ne_zero)
  | some pair =>
    obtain ⟨same, none⟩ := (singleton_eq_cons_iff _).mp held.symm
    exact ⟨congrArg some same, none⟩

theorem Good.unheld (open_ : graph.locked = false) (isNone : holding item = none) :
    holder = none ∧ rest.filterMap holding = 0 := by
  have locked : graph.locked = holder.isSome := good.locked
  rw [open_] at locked
  have none := Option.not_isSome_iff_eq_none.mp (Bool.eq_false_iff.mp locked.symm)
  have held := good.held
  rw [none, filterMap_cons_none _ _ isNone] at held
  exact ⟨none, held⟩

theorem Good.otherPlaces
    (same : ∀ node ∈ others unsubmitted jobs rest, after.refs node = graph.refs node)
    (longer : ∀ event ∈ graph.log, event ∈ after.log) :
    ∀ other ∈ rest, PlaceOk edges after other := fun other member =>
  place_ok_congr (good.places other (mem_cons_of_mem member))
    (fun node token => same node (token_others member token)) longer

end

theorem places_cons (ok : PlaceOk edges after next)
    (all : ∀ other ∈ rest, PlaceOk edges after other) :
    ∀ other ∈ next ::ₘ rest, PlaceOk edges after other :=
  forall_mem_cons.mpr ⟨ok, all⟩

theorem refs_of_add_refs (node : T) (refs : Finset T) :
    (graph.addRefs node refs).refsOf node = graph.refsOf node ∪ (refs ∩ graph.left) := by
  simp [Graph.refsOf, Graph.addRefs]

theorem refs_of_add_refs_ne {other : T} (refs : Finset T) (differ : other ≠ node) :
    (graph.addRefs node refs).refsOf other = graph.refsOf other := by
  simp [Graph.refsOf, Graph.addRefs, differ]

theorem Linked.addRefs (linked : Linked nodes edges graph none) (absent : graph.refs node = none)
    (here : node ∈ graph.left) :
    Linked nodes edges (graph.addRefs node ((edges node).erase node)) none where
  within := linked.within
  ended other gone := by
    have differ : other ≠ node := fun same => gone (same ▸ here)
    exact (update_of_ne differ _ _).trans (linked.ended other gone)
  waits dependency other := by
    have known := linked.waits dependency other
    have empty := refs_of_none absent
    by_cases same : other = node
    · rw [same] at known ⊢
      rw [empty] at known
      rw [refs_of_add_refs, empty, Finset.empty_union]
      change _ ↔ node ∈ ite _ _ _
      split
      next isNew => exact ⟨fun _ => Finset.mem_insert_self _ _, fun _ => isNew⟩
      next notNew =>
        exact ⟨fun isNew => absurd isNew notNew, fun waits =>
          absurd (known.mpr waits) (Finset.notMem_empty _)⟩
    · rw [refs_of_add_refs_ne _ same, known]
      change _ ↔ other ∈ ite _ _ _
      split
      · rw [Finset.mem_insert]
        exact ⟨.inr, fun either => either.resolve_left same⟩
      · exact Iff.rfl
  once := nofun
  refsLeft other dependency member := by
    by_cases same : other = node
    · rw [same, refs_of_add_refs, refs_of_none absent, Finset.empty_union, Finset.mem_inter,
        Finset.mem_erase] at member
      rw [same]
      exact ⟨member.2, member.1.2, member.1.1⟩
    · rw [refs_of_add_refs_ne _ same] at member
      exact linked.refsLeft other dependency member
  met other present dependency isDep := by
    by_cases same : other = node
    · rw [same] at isDep ⊢
      rw [refs_of_add_refs, refs_of_none absent, Finset.empty_union, Finset.mem_inter,
        Finset.mem_erase]
      by_cases unprocessed : dependency ∈ graph.left
      · exact .inl ⟨⟨isDep.2.2.2, isDep.2.2.1⟩, unprocessed⟩
      · exact .inr (linked.gone dependency isDep.2.1 unprocessed)
    · rw [refs_of_add_refs_ne _ same]
      refine linked.met other ?_ dependency isDep
      intro absent
      exact present ((update_of_ne same _ _).trans absent)
  gone := linked.gone

theorem Good.addRefs (good : Good nodes edges ⟨graph, unsubmitted, jobs,
      .addRefs node ((edges node).erase node) ::ₘ rest⟩ holder) (open_ : graph.locked = false) :
    Good nodes edges ⟨graph.addRefs node ((edges node).erase node), unsubmitted, jobs,
      (if (graph.addRefs node ((edges node).erase node)).refsOf node = ∅ then .doWork node
      else .done) ::ₘ rest⟩ holder := by
  obtain ⟨rfl, unheld⟩ := good.unheld open_ rfl
  have token : node ∈ tokens (.addRefs node ((edges node).erase node)) :=
    mem_singleton_self node
  have here := good.balanced.inLeft node (token_total graph token)
  have absent := (good.places _ (mem_cons_self _ _)).1
  have apart := good.apart token
  have keeps : ∀ other ∈ others unsubmitted jobs rest,
      (graph.addRefs node ((edges node).erase node)).refs other = graph.refs other := by
    intro other member
    have differ : other ≠ node := by
      rintro rfl
      exact apart member
    exact update_of_ne differ _ _
  have balanced := good.balanced
  rw [total_cons] at balanced
  have places := good.otherPlaces keeps fun _ => id
  split
  next empty =>
    refine ⟨?_, good.locked, ?_, good.linked.addRefs absent here, places_cons ?_ places,
      fun _ => good.called nofun, good.ordered⟩
    · exact (filterMap_cons_none _ _ rfl).trans unheld
    · rw [total_cons]
      exact balanced.change balanced.nodup
        (fun other differ => ⟨Iff.rfl, Iff.rfl, refs_of_add_refs_ne _ differ⟩)
        (fun _ => ⟨here, empty⟩) fun out => absurd (mem_add.mpr (.inl token)) out
    · rw [refs_of_add_refs] at empty
      exact (update_self _ _ _).trans (congrArg some empty)
  next nonempty =>
    refine ⟨?_, good.locked, ?_, good.linked.addRefs absent here, places_cons trivial places,
      fun _ => good.called nofun, good.ordered⟩
    · exact (filterMap_cons_none _ _ rfl).trans unheld
    rw [total_done]
    exact balanced.change (nodup_add.mp balanced.nodup).2.1
      (fun other differ => ⟨mem_others differ, Iff.rfl, refs_of_add_refs_ne _ differ⟩)
      (fun member => absurd member apart) fun _ _ => nonempty

theorem Linked.record (linked : Linked nodes edges graph holder) (event : GraphEvent T) :
    Linked nodes edges (graph.record event) holder where
  __ := linked
  waits dependency node := by
    cases holder with
    | none | some => exact linked.waits dependency node
  met node present dependency isDep :=
    (linked.met node present dependency isDep).imp_right (List.mem_append_left _)
  gone node member away := List.mem_append_left _ (linked.gone node member away)

theorem Good.call (good : Good nodes edges ⟨graph, unsubmitted, jobs, .doWork node ::ₘ rest⟩ holder) :
    Good nodes edges ⟨graph.record (.called node), unsubmitted, jobs, .inside node ::ₘ rest⟩
      holder := by
  have token : node ∈ tokens (.doWork node) := mem_singleton_self node
  have here := good.balanced.inLeft node (token_total graph token)
  have ready : graph.refs node = some ∅ := good.places _ (mem_cons_self _ _)
  have fresh : .called node ∉ graph.log := by
    intro called
    obtain ⟨_, away | works⟩ := good.calledBy node called
    · exact away here
    · obtain ⟨other, member, isNode⟩ := works_rest rfl works
      exact good.apart token (token_others member (working_token isNode))
  have met : ∀ dependency, Dep nodes edges node dependency → .returned dependency ∈ graph.log := by
    intro dependency isDep
    have present : graph.refs node ≠ none := by
      rw [ready]
      nofun
    refine (good.linked.met node present dependency isDep).resolve_left fun unprocessed => ?_
    rw [refs_of_empty ready] at unprocessed
    exact Finset.notMem_empty _ unprocessed
  refine ⟨?_, good.locked, ?_, good.linked.record _, ?_, fun other called => ?_,
    good.ordered.call fresh met⟩
  · exact (held_swap (by rfl)).trans good.held
  · have balanced := good.balanced
    rw [total_cons] at balanced ⊢
    exact { balanced with }
  · refine places_cons ⟨ready, List.mem_append_right _ List.mem_cons_self⟩ ?_
    exact good.otherPlaces (fun _ _ => rfl) fun _ => List.mem_append_left _
  · obtain old | new := List.mem_append.mp called
    · exact good.called nofun old
    · cases List.mem_singleton.mp new
      exact ⟨good.linked.within here, .inr ⟨_, mem_cons_self _ _, rfl⟩⟩

theorem Good.return
    (good : Good nodes edges ⟨graph, unsubmitted, jobs, .inside node ::ₘ rest⟩ holder) :
    Good nodes edges ⟨graph.record (.returned node), unsubmitted, jobs, .finish node ::ₘ rest⟩
      holder := by
  have ok : graph.refs node = some ∅ ∧ .called node ∈ graph.log :=
    good.places _ (mem_cons_self _ _)
  refine ⟨?_, good.locked, ?_, good.linked.record _, ?_, fun other called => ?_,
    good.ordered.return ok.2⟩
  · exact (held_swap (by rfl)).trans good.held
  · have balanced := good.balanced
    rw [total_cons] at balanced ⊢
    exact { balanced with }
  · refine places_cons ⟨ok.1, List.mem_append_right _ List.mem_cons_self⟩ ?_
    exact good.otherPlaces (fun _ _ => rfl) fun _ => List.mem_append_left _
  · obtain old | new := List.mem_append.mp called
    · exact good.called (fun _ => id) old
    · cases List.mem_singleton.mp new

theorem Good.lock (good : Good nodes edges ⟨graph, unsubmitted, jobs, .finish node ::ₘ rest⟩ holder)
    (open_ : graph.locked = false) : Good nodes edges ⟨graph.lock, unsubmitted, jobs,
      .release node (graph.rrefs node).sort ::ₘ rest⟩ (some (node, (graph.rrefs node).sort)) := by
  obtain ⟨rfl, unheld⟩ := good.unheld open_ rfl
  have linked := good.linked
  have ok : graph.refs node = some ∅ ∧ .returned node ∈ graph.log :=
    good.places _ (mem_cons_self _ _)
  refine ⟨?_, rfl, ?_, ?_, ?_, fun _ => good.called fun _ => id, good.ordered⟩
  · exact holder_alone rfl unheld
  · have balanced := good.balanced
    rw [total_cons] at balanced ⊢
    exact { balanced with }
  · refine { linked with waits := fun dependency other => ?_, once := ?_ }
    · refine (linked.waits dependency other).trans ?_
      rw [waiters, waiters]
      split
      next same => rw [same, Finset.sort_toFinset]
      · rfl
    · rintro other waiting ⟨⟩
      exact Finset.sort_nodup _ _
  · exact places_cons ok (good.otherPlaces (fun _ _ => rfl) fun _ => id)

theorem refs_of_erase_ref (node rref : T) :
    (graph.eraseRef node rref).refsOf rref = (graph.refsOf rref).erase node := by
  simp [Graph.refsOf, Graph.eraseRef]

variable {rref : T}

theorem refs_of_erase_ref_ne (node : T) {other : T} (differ : other ≠ rref) :
    (graph.eraseRef node rref).refsOf other = graph.refsOf other := by
  simp [Graph.refsOf, Graph.eraseRef, differ]

theorem Linked.eraseRef (linked : Linked nodes edges graph (some (node, rref :: waiting)))
    (returned : .returned node ∈ graph.log) (present : graph.refs rref ≠ none) :
    Linked nodes edges (graph.eraseRef node rref) (some (node, waiting)) where
  within := linked.within
  ended other away := by
    have differ : other ≠ rref := by
      rintro rfl
      exact present (linked.ended other away)
    exact (update_of_ne differ _ _).trans (linked.ended other away)
  waits dependency other := by
    have known := linked.waits dependency other
    have distinct := List.nodup_cons.mp (linked.once node (rref :: waiting) rfl)
    rw [waiters] at known ⊢
    by_cases same : other = rref
    · rw [same] at known ⊢
      rw [refs_of_erase_ref, Finset.mem_erase, known]
      split
      next isNode =>
        rw [List.mem_toFinset, List.mem_toFinset]
        exact ⟨fun both => absurd isNode both.1, fun again => absurd again distinct.1⟩
      next notNode => exact ⟨fun both => both.2, fun waits => ⟨notNode, waits⟩⟩
    · rw [refs_of_erase_ref_ne node same, known]
      split
      · rw [List.mem_toFinset, List.mem_toFinset, List.mem_cons]
        exact ⟨fun either => either.resolve_left same, .inr⟩
      · rfl
  once other more same := by
    cases same
    exact (List.nodup_cons.mp (linked.once node (rref :: waiting) rfl)).2
  refsLeft other dependency member := by
    by_cases same : other = rref
    · rw [same] at member ⊢
      rw [refs_of_erase_ref] at member
      exact linked.refsLeft rref dependency (Finset.mem_of_mem_erase member)
    · rw [refs_of_erase_ref_ne node same] at member
      exact linked.refsLeft other dependency member
  met other isPresent dependency isDep := by
    by_cases same : other = rref
    · rw [same] at isDep ⊢
      rw [refs_of_erase_ref, Finset.mem_erase]
      by_cases isNode : dependency = node
      · exact .inr (isNode ▸ returned)
      · exact (linked.met rref present dependency isDep).imp_left fun member => ⟨isNode, member⟩
    · rw [refs_of_erase_ref_ne node same]
      refine linked.met other ?_ dependency isDep
      intro absent
      exact isPresent ((update_of_ne same _ _).trans absent)
  gone := linked.gone

section

variable
  (good : Good nodes edges ⟨graph, unsubmitted, jobs, .release node (rref :: waiting) ::ₘ rest⟩ holder)

include good

theorem Good.released :
    node ∈ graph.refsOf rref ∧ rref ∈ graph.left ∧ graph.refs rref ≠ none ∧ node ≠ rref ∧
      rref ∉ total ⟨graph, unsubmitted, jobs, .release node (rref :: waiting) ::ₘ rest⟩ := by
  obtain ⟨rfl, _⟩ := good.holds rfl
  have waits : node ∈ graph.refsOf rref := by
    rw [good.linked.waits, waiters, if_pos rfl, List.mem_toFinset]
    exact List.mem_cons_self
  have present : graph.refs rref ≠ none := by
    intro absent
    rw [refs_of_none absent] at waits
    exact Finset.notMem_empty _ waits
  have here : rref ∈ graph.left := by
    by_contra away
    exact present (good.linked.ended rref away)
  refine ⟨waits, here, present, (good.linked.refsLeft rref node waits).2.2, fun member => ?_⟩
  have empty := good.balanced.idle rref member
  rw [show graph.refsOf rref = ∅ from empty] at waits
  exact Finset.notMem_empty _ waits

theorem Good.eraseRef : Good nodes edges ⟨graph.eraseRef node rref, unsubmitted, jobs,
      (if (graph.eraseRef node rref).refsOf rref = ∅ then .hand node rref waiting
      else .release node waiting) ::ₘ rest⟩ (some (node, waiting)) := by
  obtain ⟨waits, here, present, differ, out⟩ := good.released
  obtain ⟨rfl, unheld⟩ := good.holds rfl
  have ok : graph.refs node = some ∅ ∧ .returned node ∈ graph.log :=
    good.places _ (mem_cons_self _ _)
  have keeps : ∀ other, other ≠ rref → (graph.eraseRef node rref).refs other = graph.refs other :=
    fun other otherDiffers => update_of_ne otherDiffers _ _
  have apart : ∀ other ∈ total ⟨graph, unsubmitted, jobs,
      .release node (rref :: waiting) ::ₘ rest⟩, other ≠ rref := by
    rintro other member rfl
    exact out member
  have balanced := good.balanced
  rw [total_cons] at balanced out apart
  have places : ∀ other ∈ rest, PlaceOk edges (graph.eraseRef node rref) other :=
    good.otherPlaces (fun other member =>
      keeps other (apart other (mem_add.mpr (.inr member)))) fun _ => id
  have linked := good.linked.eraseRef ok.2 present
  have nodeOk : (graph.eraseRef node rref).refs node = some ∅ ∧
      .returned node ∈ (graph.eraseRef node rref).log := ⟨(keeps node differ).trans ok.1, ok.2⟩
  split
  next empty =>
    refine ⟨?_, good.locked, ?_, linked, places_cons ⟨nodeOk, ?_⟩ places,
      fun _ => good.called fun _ => id, good.ordered⟩
    · exact holder_alone rfl unheld
    · have more : total ⟨graph.eraseRef node rref, unsubmitted, jobs,
          .hand node rref waiting ::ₘ rest⟩ = rref ::ₘ (tokens (.release node (rref :: waiting)) +
            others unsubmitted jobs rest) := by
        rw [total_cons, tokens, tokens, cons_add, singleton_add, singleton_add, cons_swap]
      rw [more]
      exact balanced.change (nodup_cons.mpr ⟨out, balanced.nodup⟩) (fun other differ =>
          ⟨mem_cons.trans (or_iff_right differ), Iff.rfl, refs_of_erase_ref_ne node differ⟩)
        (fun _ => ⟨here, empty⟩) fun absent => absurd (mem_cons_self _ _) absent
    · rw [refs_of_erase_ref] at empty
      exact (update_self _ _ _).trans (congrArg some empty)
  next nonempty =>
    refine ⟨?_, good.locked, ?_, linked, places_cons nodeOk places,
      fun _ => good.called fun _ => id, good.ordered⟩
    · exact holder_alone rfl unheld
    rw [total_cons]
    exact balanced.change balanced.nodup
      (fun other differ => ⟨Iff.rfl, Iff.rfl, refs_of_erase_ref_ne node differ⟩)
      (fun member => absurd member out) fun _ _ => nonempty

end

theorem refs_of_erase (ready : graph.refs node = some ∅) (other : T) :
    (graph.erase node).refsOf other = graph.refsOf other := by
  by_cases same : other = node
  · rw [same, refs_of_empty ready]
    simp [Graph.refsOf, Graph.erase]
  · simp [Graph.refsOf, Graph.erase, same]

theorem Linked.erase (linked : Linked nodes edges graph (some (node, [])))
    (ready : graph.refs node = some ∅) (returned : .returned node ∈ graph.log) :
    Linked nodes edges (graph.erase node) none where
  within := (Finset.erase_subset _ _).trans linked.within
  ended other away := by
    by_cases same : other = node
    · rw [same]
      exact update_self _ _ _
    · refine (update_of_ne same _ _).trans (linked.ended other fun here => ?_)
      exact away (Finset.mem_erase.mpr ⟨same, here⟩)
  waits dependency other := by
    have known := linked.waits dependency other
    rw [refs_of_erase ready, known, waiters]
    split
    next same =>
      rw [same]
      change _ ↔ other ∈ update graph.rrefs node ∅ node
      rw [update_self]
      rfl
    next differ =>
      change _ ↔ other ∈ update graph.rrefs node ∅ dependency
      rw [update_of_ne differ]
  once := nofun
  refsLeft other dependency member := by
    rw [refs_of_erase ready] at member
    obtain ⟨here, isEdge, differ⟩ := linked.refsLeft other dependency member
    refine ⟨Finset.mem_erase.mpr ⟨?_, here⟩, isEdge, differ⟩
    rintro rfl
    rw [linked.waits, waiters, if_pos rfl] at member
    exact Finset.notMem_empty _ member
  met other present dependency isDep := by
    have differ : other ≠ node := by
      rintro rfl
      exact present (update_self _ _ _)
    rw [refs_of_erase ready]
    refine linked.met other ?_ dependency isDep
    intro absent
    exact present ((update_of_ne differ _ _).trans absent)
  gone other inNodes away := by
    by_cases same : other = node
    · exact same ▸ returned
    · refine linked.gone other inNodes fun here => ?_
      exact away (Finset.mem_erase.mpr ⟨same, here⟩)

theorem Good.erase
    (good : Good nodes edges ⟨graph, unsubmitted, jobs, .release node [] ::ₘ rest⟩ holder) :
    Good nodes edges ⟨graph.erase node, unsubmitted, jobs, .done ::ₘ rest⟩ none := by
  obtain ⟨rfl, unheld⟩ := good.holds rfl
  have token : node ∈ tokens (.release node []) := mem_singleton_self node
  have apart := good.apart token
  have ok : graph.refs node = some ∅ ∧ .returned node ∈ graph.log :=
    good.places _ (mem_cons_self _ _)
  have differs : ∀ other ∈ others unsubmitted jobs rest, other ≠ node := by
    rintro other member rfl
    exact apart member
  have balanced := good.balanced
  rw [total_cons] at balanced
  refine ⟨?_, rfl, ?_, good.linked.erase ok.1 ok.2, ?_, fun other called => ?_, good.ordered⟩
  · exact (filterMap_cons_none _ _ rfl).trans unheld
  · rw [total_done]
    exact balanced.change (nodup_add.mp balanced.nodup).2.1 (fun other differ =>
        ⟨mem_others differ, Finset.mem_erase.trans (and_iff_right differ), refs_of_erase ok.1 other⟩)
      (fun member => absurd member apart) fun _ here => absurd here (Finset.notMem_erase node graph.left)
  · refine places_cons trivial (good.otherPlaces (fun other member => ?_) fun _ => id)
    exact update_of_ne (differs other member) _ _
  · obtain ⟨inNodes, away | ⟨item, member, works⟩⟩ := good.calledBy other called
    · exact ⟨inNodes, .inl fun here => away (Finset.mem_of_mem_erase here)⟩
    obtain rfl | inRest := mem_cons.mp member
    · cases works
      exact ⟨inNodes, .inl (Finset.notMem_erase node graph.left)⟩
    · exact ⟨inNodes, .inr ⟨item, mem_cons_of_mem inRest, works⟩⟩

section

variable (edges graph)

inductive Offers : WorkerPlace T → Action T (WorkerPlace T) (Graph T) ShutDown → Prop
  | unknown {node : T} (absent : graph.refs node = none) :
      Offers (.lookUp node) (.proceed graph (.getRefs node))
  | known {node : T} (present : ¬graph.refs node = none) :
      Offers (.lookUp node) (.proceed graph (.doWork node))
  | getRefs {node : T} :
      Offers (.getRefs node) (.proceed graph (.addRefs node ((edges node).erase node)))
  | addRefs {node : T} {refs : Finset T} (open_ : ¬graph.locked = true) :
      Offers (.addRefs node refs) (.proceed (graph.addRefs node refs)
        (if (graph.addRefs node refs).refsOf node = ∅ then .doWork node else .done))
  | doWork {node : T} :
      Offers (.doWork node) (.proceed (graph.record (.called node)) (.inside node))
  | inside {node : T} :
      Offers (.inside node) (.proceed (graph.record (.returned node)) (.finish node))
  | lock {node : T} (open_ : ¬graph.locked = true) :
      Offers (.finish node) (.proceed graph.lock (.release node (graph.rrefs node).sort))
  | done : Offers .done .finish
  | thrown : Offers .thrown (.throw .cannotEnqueue)
  | erase {node : T} : Offers (.release node []) (.proceed (graph.erase node) .done)
  | eraseRef {node rref : T} {waiting : List T} (waits : node ∈ graph.refsOf rref) :
      Offers (.release node (rref :: waiting)) (.proceed (graph.eraseRef node rref)
        (if (graph.eraseRef node rref).refsOf rref = ∅ then .hand node rref waiting
        else .release node waiting))
  | missing {node rref : T} {waiting : List T} (away : node ∉ graph.refsOf rref) :
      Offers (.release node (rref :: waiting)) .abort
  | hand {node rref : T} {waiting : List T} :
      Offers (.hand node rref waiting) (.enqueue rref (.release node waiting) .unwind)
  | unwind : Offers .unwind (.proceed { graph with locked := false } .thrown)

end

variable {action : Action T (WorkerPlace T) (Graph T) ShutDown}

theorem offers_of_mem (offered : action ∈ actions edges item graph) :
    Offers edges graph item action := by
  unfold actions at offered
  split at offered
  case h_1 =>
    repeat' split at offered
    all_goals cases offered <;> first | contradiction | (constructor; assumption)
  all_goals
    try split at offered
    all_goals cases offered <;> first | contradiction | constructor <;> assumption

variable (nodes edges unsubmitted jobs rest) in
def Continues (graph : Graph T) : Action T (WorkerPlace T) (Graph T) ShutDown → Prop
  | .finish => ∃ holder, Good nodes edges ⟨graph, unsubmitted, jobs, rest⟩ holder
  | .enqueue job next _ =>
    ∃ holder, Good nodes edges ⟨graph, unsubmitted, job ::ₘ jobs, next ::ₘ rest⟩ holder
  | .proceed after next =>
    ∃ holder, Good nodes edges ⟨after, unsubmitted, jobs, next ::ₘ rest⟩ holder
  | _ => False

theorem Good.continues (good : Good nodes edges ⟨graph, unsubmitted, jobs, item ::ₘ rest⟩ holder)
    (offered : action ∈ actions edges item graph) :
    Continues nodes edges unsubmitted jobs rest graph action := by
  have ok := good.places item (mem_cons_self _ _)
  cases offers_of_mem offered with
  | unknown absent => exact ⟨holder, good.goesOn rfl rfl rfl absent⟩
  | @known node present =>
    have token : node ∈ tokens (.lookUp node) := mem_singleton_self node
    have empty : graph.refsOf node = ∅ := good.balanced.idle node (token_total graph token)
    obtain ⟨refs, isRefs⟩ := Option.ne_none_iff_exists'.mp present
    rw [Graph.refsOf, isRefs] at empty
    exact ⟨holder, good.goesOn rfl rfl rfl (isRefs.trans (congrArg some empty))⟩
  | getRefs => exact ⟨holder, good.goesOn rfl rfl rfl ⟨ok, rfl⟩⟩
  | addRefs open_ =>
    cases ok.2
    exact ⟨holder, good.addRefs (Bool.eq_false_iff.mpr open_)⟩
  | doWork => exact ⟨holder, good.call⟩
  | inside => exact ⟨holder, good.return⟩
  | lock open_ => exact ⟨_, good.lock (Bool.eq_false_iff.mpr open_)⟩
  | done =>
    refine ⟨holder, good.sameState rfl ?_ ?_ ?_ fun _ => works_rest rfl⟩
    · exact (total_done graph unsubmitted jobs rest).symm
    · exact (filterMap_cons_none _ _ rfl).symm
    · exact fun other member => good.places other (mem_cons_of_mem member)
  | erase => exact ⟨none, good.erase⟩
  | eraseRef => exact ⟨_, good.eraseRef⟩
  | missing away => exact away good.released.1
  | hand =>
    refine ⟨holder, good.sameState rfl ?_ (held_swap rfl) ?_ ?_⟩
    · rw [total_cons, total_cons, others, others, tokens, tokens, cons_add,
        singleton_add, singleton_add, add_cons, cons_add]
    · exact places_cons ok.1 fun other member => good.places other (mem_cons_of_mem member)
    · exact fun _ => works_swap fun _ => id
  | thrown | unwind => exact ok.elim

theorem good_step {after : GraphLoad T} (good : Good nodes edges load holder)
    (step : LoadStep (worker edges) load after) : ∃ next, Good nodes edges after next := by
  cases step with
  | submit state job unsubmitted jobs items =>
    refine ⟨holder, good.sameState rfl ?_ rfl good.places fun _ => id⟩
    rw [total, total]
    rw [← cons_coe, cons_add, add_cons]
  | take state unsubmitted job jobs items =>
    refine ⟨holder, good.sameState rfl ?_ ?_ (places_cons trivial good.places)
      fun _ ⟨other, member, works⟩ => ⟨other, mem_cons_of_mem member, works⟩⟩
    · have isToken : tokens ((worker edges).start job) = {job} := rfl
      rw [total, total]
      rw [cons_bind, isToken, add_cons, singleton_add, cons_add, add_cons]
    · exact filterMap_cons_none _ _ rfl
  | finish unsubmitted jobs items offered => exact good.continues offered
  | abort unsubmitted jobs items offered | checkInterrupt unsubmitted jobs items offered =>
    exact (good.continues offered).elim
  | enqueue unsubmitted jobs items offered => exact good.continues offered
  | proceed unsubmitted jobs items offered => exact good.continues offered

theorem good_start (nodes : Finset T) (edges : T → Finset T) :
    Good nodes edges ⟨startGraph nodes, nodes.sort, 0, 0⟩ none where
  held := rfl
  locked := rfl
  balanced := by
    have all : total (⟨startGraph nodes, nodes.sort, 0, 0⟩ : GraphLoad T) = nodes.val := by
      rw [total]
      rw [zero_bind, add_zero, add_zero, Finset.sort_eq]
    rw [all]
    exact ⟨nodes.nodup, fun _ => id, fun _ member out => absurd member out, fun _ _ => rfl⟩
  linked := by
    refine ⟨subset_rfl, fun _ _ => rfl, fun _ _ => ?_, nofun, ?_, nofun, ?_⟩
    · exact ⟨fun member => absurd member (Finset.notMem_empty _),
        fun member => absurd member (Finset.notMem_empty _)⟩
    · exact fun _ _ member => absurd member (Finset.notMem_empty _)
    · exact fun _ member away => absurd member away
  places := nofun
  calledBy := nofun
  ordered := by
    constructor
    · intro earlier node later split
      exact absurd split.symm (List.append_ne_nil_of_right_ne_nil _ (List.cons_ne_nil _ _))
    · intro earlier node later split
      exact absurd split.symm (List.append_ne_nil_of_right_ne_nil _ (List.cons_ne_nil _ _))

theorem good_reached
    (run : Relation.ReflTransGen (LoadStep (worker edges)) ⟨startGraph nodes, nodes.sort, 0, 0⟩
      load) : ∃ holder, Good nodes edges load holder := by
  induction run with
  | refl => exact ⟨none, good_start nodes edges⟩
  | tail _ step ih =>
    obtain ⟨holder, good⟩ := ih
    exact good_step good step

end

end Bsd.Util.ProcessGraph
