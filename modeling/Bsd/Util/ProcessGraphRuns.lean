import Bsd.Util.ProcessGraph

/-!
# Runs of processGraph

When no item is left, a node that is left waits for another node that is left. So a run
ends with all nodes processed or there is a cycle. The items are not stuck before that,
and a node costs a bounded number of steps.
-/

namespace Bsd.Util.ProcessGraph

open Finset Util.ThreadPool Relation

variable {T : Type} [LinearOrder T]

variable {holder : Option (T × List T)}

section

variable {nodes : Finset T} {edges : T → Finset T} {graph : Graph T}

theorem acc_irrefl {Node : Type} {less : Node → Node → Prop} {node : Node} (acc : Acc less node) :
    ¬TransGen less node node := by
  have founded := acc.transGen
  clear acc
  induction founded with
  | intro node _ ih => exact fun loop => ih node loop loop

theorem empty_of_acyclic (acyclic : Acyclic nodes edges) {left : Finset T}
    (depends : ∀ node ∈ left, ∃ dependency ∈ left, Dep nodes edges node dependency) : left = ∅ := by
  by_contra nonempty
  obtain ⟨first, member⟩ := nonempty_iff_ne_empty.mpr nonempty
  let below (dependency node : {node // node ∈ left}) : Prop :=
    TransGen (Dep nodes edges) node.1 dependency.1
  have irreflexive : Std.Irrefl below := ⟨fun node => acyclic node.1⟩
  have founded : WellFounded below := Finite.wellFounded_of_trans_of_irrefl below
  obtain ⟨least, _, minimal⟩ := founded.has_min Set.univ ⟨⟨first, member⟩, trivial⟩
  obtain ⟨dependency, inLeft, isDep⟩ := depends least.1 least.2
  exact minimal ⟨dependency, inLeft⟩ trivial (TransGen.single isDep)

theorem Good.outcome (good : Good nodes edges ⟨graph, [], 0, 0⟩ holder) :
    (graph.left = ∅ ↔ Acyclic nodes edges) ∧
      (graph.left = ∅ → ∀ node ∈ nodes, .returned node ∈ graph.log) := by
  have nobody : total (⟨graph, [], 0, 0⟩ : GraphLoad T) = 0 := rfl
  have processed : graph.left = ∅ → ∀ node ∈ nodes, .returned node ∈ graph.log := by
    intro empty node member
    apply good.linked.gone node member
    rw [empty]
    exact notMem_empty node
  refine ⟨⟨fun empty node loop => ?_, fun acyclic => ?_⟩, processed⟩
  · obtain ⟨dependency, isDep, _⟩ := TransGen.head'_iff.mp loop
    have acc := acc_of_returned good.ordered (processed empty node isDep.1)
    exact acc_irrefl acc (transGen_swap.mpr loop)
  refine empty_of_acyclic acyclic fun node member => ?_
  have waits := good.balanced.waiting node member (by rw [nobody]; exact Multiset.notMem_zero node)
  obtain ⟨dependency, isRef⟩ := nonempty_iff_ne_empty.mpr waits
  obtain ⟨inLeft, isEdge, differ⟩ := good.linked.refsLeft node dependency isRef
  exact ⟨dependency, inLeft, good.linked.within member, good.linked.within inLeft, isEdge, differ⟩

end

variable {config : Config T (WorkerPlace T) (Graph T) ShutDown} {item : WorkerPlace T}

section Progress

variable {nodes : Finset T} {edges : T → Finset T}

theorem worker_calm (edges : T → Finset T) :
    Calm (worker edges) (fun _ => True) fun item => item = .unwind ∨ item = .thrown where
  start _ _ := by rintro (same | same) <;> cases same
  step item graph action good isOffered := by
    have goesOn : ∀ next : WorkerPlace T, next ≠ .unwind → next ≠ .thrown →
        ¬(next = .unwind ∨ next = .thrown) := by
      rintro next notUnwind notThrown (same | same)
      · exact notUnwind same
      · exact notThrown same
    cases offers_of_mem isOffered with
    | addRefs | eraseRef =>
      split
      · exact goesOn _ nofun nofun
      · exact goesOn _ nofun nofun
    | hand => exact ⟨trivial, goesOn _ nofun nofun⟩
    | done | missing => trivial
    | thrown => exact absurd (.inr rfl) good
    | unwind => exact absurd (.inl rfl) good
    | _ => exact goesOn _ nofun nofun

variable {graph : Graph T}

/-- An item can only be blocked by another one that holds the mutex, which is not blocked. -/
theorem actions_ne_nil (item : WorkerPlace T)
    (free : graph.locked = false ∨ (holding item).isSome = true) : actions edges item graph ≠ [] := by
  have open_ : (holding item).isSome = false → graph.locked = false := fun none =>
    free.resolve_right (by rw [none]; nofun)
  cases item with
  | lookUp | addRefs | finish => rw [actions, open_ rfl]; exact List.cons_ne_nil _ _
  | release node waiting =>
    cases waiting with
    | nil => exact List.cons_ne_nil _ _
    | cons rref waiting =>
      rw [actions]
      split <;> exact List.cons_ne_nil _ _
  | _ => exact List.cons_ne_nil _ _

theorem Good.unblocked (good : Good nodes edges config.load holder) :
    Unblocked (worker edges) config := by
  refine unblocked_of_items fun item member => ?_
  cases locked : config.shared.state.locked with
  | false => exact ⟨item, member, actions_ne_nil item (.inl locked)⟩
  | true =>
    have isHeld : true = holder.isSome := locked.symm.trans good.locked
    obtain ⟨pair, rfl⟩ := Option.isSome_iff_exists.mp isHeld.symm
    have held : pair ∈ config.load.items.filterMap holding := by
      rw [good.held]
      exact Multiset.mem_singleton_self pair
    obtain ⟨other, among, holds⟩ := (Multiset.mem_filterMap _ _).mp held
    exact ⟨other, among, actions_ne_nil other (.inr (holds ▸ rfl))⟩

def graphBudget (nodes : Finset T) : Budget T (WorkerPlace T) (Graph T) where
  job _ := 7 + 2 * nodes.card
  item
    | .lookUp _ => 7 + 2 * nodes.card
    | .getRefs _ => 6 + 2 * nodes.card
    | .addRefs _ _ => 5 + 2 * nodes.card
    | .doWork _ => 4 + 2 * nodes.card
    | .inside _ => 3 + 2 * nodes.card
    | .finish _ => 2 + 2 * nodes.card
    | .release _ rest => 1 + 2 * rest.length
    | .hand _ _ rest => 9 + 2 * nodes.card + 2 * rest.length
    | .unwind => 1
    | .done => 0
    | .thrown => 0
  state graph := (7 + 2 * nodes.card) * (graph.left.filter fun node => graph.refs node ≠ some ∅).card

variable {after : Graph T}

theorem unready_mono (left : after.left ⊆ graph.left)
    (ready : ∀ node ∈ after.left, graph.refs node = some ∅ → after.refs node = some ∅) :
    (after.left.filter fun node => after.refs node ≠ some ∅) ⊆
      graph.left.filter fun node => graph.refs node ≠ some ∅ := by
  intro node member
  rw [mem_filter] at member ⊢
  exact ⟨left member.1, fun isReady => member.2 (ready node member.1 isReady)⟩

theorem allows_of_less {next : WorkerPlace T} (left : after.left ⊆ graph.left)
    (ready : ∀ node ∈ after.left, graph.refs node = some ∅ → after.refs node = some ∅)
    (less : (graphBudget nodes).item next < (graphBudget nodes).item item) :
    (graphBudget nodes).Allows item graph
      (.proceed after next : Action T (WorkerPlace T) (Graph T) ShutDown) := by
  have fewer := card_le_card (unready_mono left ready)
  have cost := Nat.mul_le_mul_left (7 + 2 * nodes.card) fewer
  change (graphBudget nodes).state after + _ < (graphBudget nodes).state graph + _
  simp only [graphBudget] at less ⊢
  omega

variable {unsubmitted : List T} {jobs : Multiset T}

theorem Good.pays {rest : Multiset (WorkerPlace T)}
    (good : Good nodes edges ⟨graph, unsubmitted, jobs, item ::ₘ rest⟩ holder)
    {action : Action T (WorkerPlace T) (Graph T) ShutDown}
    (offered : action ∈ actions edges item graph) :
    (graphBudget nodes).Allows item graph action := by
  have ok := good.places item (Multiset.mem_cons_self _ _)
  cases offers_of_mem offered with
  | unknown | known | getRefs | doWork | inside =>
    refine allows_of_less (subset_rfl) (fun _ _ => id) ?_
    simp only [graphBudget]
    omega
  | @addRefs node =>
    refine allows_of_less (subset_rfl) (fun other _ ready => ?_) ?_
    · have differ : other ≠ node := by
        rintro rfl
        cases ready.symm.trans ok.1
      exact (Function.update_of_ne differ _ _).trans ready
    · split <;> simp only [graphBudget] <;> omega
  | @lock node open_ =>
    obtain ⟨rfl, _⟩ := good.unheld (Bool.eq_false_iff.mpr open_) rfl
    have short : (graph.rrefs node).sort.length ≤ nodes.card := by
      rw [length_sort]
      refine card_le_card fun other member => ?_
      have isRef := (good.linked.waits node other).mpr member
      by_contra away
      have absent := good.linked.ended other fun here => away (good.linked.within here)
      rw [refs_of_none absent] at isRef
      exact notMem_empty _ isRef
    refine allows_of_less (subset_rfl) (fun _ _ => id) ?_
    simp only [graphBudget]
    omega
  | done => trivial
  | erase =>
    refine allows_of_less (erase_subset _ _) (fun other member ready => ?_) Nat.zero_lt_one
    exact (Function.update_of_ne (ne_of_mem_erase member) _ _).trans ready
  | missing away => exact away good.released.1
  | @eraseRef node rref waiting waits =>
    obtain ⟨_, here, present, _, _⟩ := good.released
    have unready : graph.refs rref ≠ some ∅ := by
      intro ready
      rw [refs_of_empty ready] at waits
      exact notMem_empty _ waits
    have keeps : ∀ other ∈ graph.left, graph.refs other = some ∅ →
        (graph.eraseRef node rref).refs other = some ∅ := by
      intro other _ ready
      have differ : other ≠ rref := by
        rintro rfl
        exact unready ready
      exact (Function.update_of_ne differ _ _).trans ready
    by_cases empty : (graph.eraseRef node rref).refsOf rref = ∅
    · rw [if_pos empty]
      -- the node has become ready, which pays for its second item
      have sameLeft : (graph.eraseRef node rref).left ⊆ graph.left := subset_rfl
      have fewer : ((graph.eraseRef node rref).left.filter
          fun other => (graph.eraseRef node rref).refs other ≠ some ∅) ⊂
          graph.left.filter fun other => graph.refs other ≠ some ∅ := by
        refine (ssubset_iff_of_subset (unready_mono sameLeft keeps)).mpr ⟨rref, ?_, ?_⟩
        · exact mem_filter.mpr ⟨here, unready⟩
        rw [mem_filter, not_and, not_not]
        intro _
        rw [refs_of_erase_ref] at empty
        exact (Function.update_self _ _ _).trans (congrArg some empty)
      have cost := Nat.mul_le_mul_left (7 + 2 * nodes.card) (card_lt_card fewer)
      rw [Nat.mul_succ] at cost
      change (graphBudget nodes).state _ + _ < (graphBudget nodes).state graph + _
      simp only [graphBudget, List.length_cons]
      omega
    · rw [if_neg empty]
      refine allows_of_less (subset_rfl) keeps ?_
      simp only [graphBudget, List.length_cons]
      omega
  | hand =>
    simp only [Budget.Allows, graphBudget]
    omega
  | thrown | unwind => exact ok.elim

end Progress

theorem process_graph_good {nodes : Finset T} {edges : T → Finset T} {maxThreads : Nat}
    (reached : Reached (worker edges) maxThreads (submitNodes nodes) (startGraph nodes) config) :
    CalmConfig (fun _ => True) (fun item => item = .unwind ∨ item = .thrown) .process config ∧
      ∃ holder, Good nodes edges config.load holder := by
  obtain ⟨calm, run⟩ := calm_reached (worker_calm edges) (fun _ _ => trivial) reached
  exact ⟨calm, good_reached run⟩

/-- In every interleaving `processNode` is called at most once for a node of the set and after
it has returned for the dependencies of the node. `process` does not throw, and
once it has returned, all nodes have been processed if the edges have no cycle, and the
call fails otherwise. It does return, unless threads wake up without end for no reason. -/
theorem process_graph_correct (maxThreads : Nat) (nodes : Finset T) (edges : T → Finset T) :
    (∀ config, Reached (worker edges) maxThreads (submitNodes nodes) (startGraph nodes) config →
      (∀ node, config.shared.state.log.count (.called node) ≤ 1) ∧
      (∀ earlier node later, config.shared.state.log = earlier ++ .called node :: later →
        node ∈ nodes ∧ ∀ dependency ∈ edges node, dependency ∈ nodes → dependency ≠ node →
          .returned dependency ∈ earlier) ∧
      (config.phase.isOver = true → config.phase = .returned ∧
        (Acyclic nodes edges → outcome config.shared.state = .done ∧
          ∀ node ∈ nodes, .returned node ∈ config.shared.state.log) ∧
        (¬Acyclic nodes edges → outcome config.shared.state = .incomplete)) ∧
      (config.phase.isOver = false → ∃ next, Step (worker edges) maxThreads config next)) ∧
    ∃ bound, ∀ steps wakes config,
      Run (worker edges) maxThreads (initial (submitNodes nodes) (startGraph nodes)) steps wakes
        config → steps ≤ bound + wakes := by
  refine ⟨fun config reached => ?_, (graphBudget nodes).potential (initial (submitNodes nodes)
    (startGraph nodes) : Config T (WorkerPlace T) (Graph T) ShutDown), fun steps wakes config run => ?_⟩
  · have owned := owned_reached reached
    obtain ⟨calm, holder, good⟩ := process_graph_good reached
    have ordered : Ordered nodes edges config.shared.state.log := good.ordered
    refine ⟨ordered.count_le, ?_, fun ended => ?_, ?_⟩
    · intro earlier node later split
      have called : .called node ∈ config.load.state.log := by
        change _ ∈ config.shared.state.log
        rw [split]
        exact List.mem_append_right _ List.mem_cons_self
      have inNodes := (good.calledBy node called).1
      refine ⟨inNodes, fun dependency isEdge inside differ => ?_⟩
      exact (ordered.calls earlier node later split).2 dependency ⟨inNodes, inside, isEdge, differ⟩
    · have notAborted : config.phase ≠ .aborted := by
        refine not_aborted_reached (fun config reached thread member ticket item runs offered => ?_)
          reached
        obtain ⟨_, holder, good⟩ := process_graph_good reached
        obtain ⟨rest, isLoad⟩ := load_of_running member runs
        rw [isLoad] at good
        exact good.continues offered
      have returned := (calm_over owned calm ended).resolve_right notAborted
      rw [calm_returned owned calm returned] at good
      obtain ⟨iff, processed⟩ := good.outcome
      refine ⟨returned, fun acyclic => ?_, fun cyclic => ?_⟩
      · have empty := iff.mpr acyclic
        exact ⟨if_pos empty, processed empty⟩
      · exact if_neg fun empty => cyclic (iff.mp empty)
    · exact pool_can_step owned (lively_reached reached) good.unblocked
  · have bounded := run_bounded (graphBudget nodes) (fun _ => Nat.le_refl _)
      (fun config reached thread member ticket item runs action offered => by
        obtain ⟨_, holder, good⟩ := process_graph_good reached
        obtain ⟨rest, isLoad⟩ := load_of_running member runs
        rw [isLoad] at good
        exact good.pays offered) run
    omega

end Bsd.Util.ProcessGraph
