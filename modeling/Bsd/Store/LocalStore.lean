import Mathlib.Data.Finset.Option
import Bsd.Lib.OrdMap
import Bsd.Store.Path
import Bsd.Util.Closures
import Bsd.Util.TopoSort

/-!
# The database of the local store

What the garbage collector asks the database for, what invalidating a path does to
it, and the closures and orders computed from it.
-/

namespace Bsd.Store.LocalStore

open Finset Lib.Occurrences Lib.OrdMap Util.FilePath Util.Closures Util.TopoSort Store.Path
  SortedMap Relation

/-- What the tables say of a path while it is valid: its `Refs` and deriver, and for a
derivation its `DerivationOutputs`, the names of its outputs and their `Realisations`,
which are only looked at with the experimental feature `ca-derivations`. -/
structure Tables where
  store : StoreDirConfig
  references : StorePath → Finset StorePath
  deriver : StorePath → Option StorePath
  derivationOutputs : StorePath → SortedMap Bytes StorePath
  outputNames : StorePath → List Bytes
  realisations : StorePath → Bytes → Option StorePath
  caDerivations : Bool

def Tables.Refers (tables : Tables) (valid : Finset StorePath) (path reference : StorePath) : Prop :=
  path ∈ valid ∧ reference ∈ tables.references path

/-- The valid paths. They were read with `parseStorePath`. A reference is a foreign key
and may not be deleted under its referrer; paths are registered in topological order, so
that only self references are circular. -/
@[ext]
structure Database (tables : Tables) where
  valid : Finset StorePath
  parsed : ∀ path ∈ valid, path.separator ≠ 47
  closed : ∀ path ∈ valid, tables.references path ⊆ valid
  acyclic : ∀ path, ¬TransGen
    (fun path reference => tables.Refers valid path reference ∧ reference ≠ path) path path

variable {path : StorePath}

section Queries

variable {tables : Tables} (db : Database tables)

def invalidPath (store : StoreDirConfig) (path : StorePath) : Failure :=
  .invalidPath (ascii "path " ++ quoted (printStorePath store path) ++ ascii " is not valid")

/-- What closures read of a `ValidPathInfo`. -/
structure PathLinks where
  references : Finset StorePath
  deriver : Option StorePath
  deriving DecidableEq

def queryPathInfo (path : StorePath) : Except Failure PathLinks :=
  if path ∈ db.valid then .ok ⟨tables.references path, tables.deriver path⟩
  else .error (invalidPath tables.store path)

def queryReferrers (path : StorePath) : Finset StorePath :=
  db.valid.filter fun referrer => path ∈ tables.references referrer

def queryValidDerivers (path : StorePath) : Finset StorePath :=
  db.valid.filter fun drv => path ∈ (tables.derivationOutputs drv).entries.map Prod.snd

/-- A realisation goes with the path it is for. -/
def queryRealisation (path : StorePath) (outputName : Bytes) : Option StorePath :=
  (tables.realisations path outputName).filter fun outPath => outPath ∈ db.valid

def addRealisation (path : StorePath) (outputs : SortedMap Bytes (Option StorePath))
    (outputName : Bytes) : SortedMap Bytes (Option StorePath) :=
  match queryRealisation db path outputName with
  | some outPath => outputs.assign outputName (some outPath)
  | none => outputs.update (fun old => old.getD none) outputName

def queryPartialDerivationOutputMap (path : StorePath) :
    Except Failure (SortedMap Bytes (Option StorePath)) :=
  if path ∈ db.valid then
    let outputs := (tables.derivationOutputs path).mapValues some
    .ok (if tables.caDerivations then
      (tables.outputNames path).foldl (addRealisation db path) outputs
    else outputs)
  else .error (invalidPath tables.store path)

def validOutputs (path : StorePath) : Except Failure (Finset StorePath) := do
  let outputs ← queryPartialDerivationOutputMap db path
  .ok ((outputs.entries.filterMap Prod.snd).toFinset.filter fun outPath => outPath ∈ db.valid)

def outputsOf (wanted : Bool) (path : StorePath) : Except Failure (Finset StorePath) :=
  if wanted && path.isDerivation then validOutputs db path else .ok ∅

def queryDeps (flipDirection includeOutputs includeDerivers : Bool) (path : StorePath) :
    Except Failure (Finset StorePath) :=
  if flipDirection then do
    let outputs ← outputsOf db includeDerivers path
    .ok ((queryReferrers db path).erase path ∪
      (if includeOutputs then queryValidDerivers db path else ∅) ∪ outputs)
  else do
    let info ← queryPathInfo db path
    let outputs ← outputsOf db includeOutputs path
    .ok (info.references.erase path ∪ outputs ∪
      (if includeDerivers then (info.deriver.filter fun drv => drv ∈ db.valid).toFinset else ∅))

def computeFSClosure (startPaths : Finset StorePath)
    (flipDirection includeOutputs includeDerivers : Bool) : Except Failure (Finset StorePath) :=
  computeClosure (db.valid.card + startPaths.card) startPaths ∅
    (queryDeps db flipDirection includeOutputs includeDerivers)

def topoSortPaths (paths : Finset StorePath) : Except Failure (List StorePath) :=
  topoSort paths
    (fun path =>
      match queryPathInfo db path with
      | .ok info => info.references
      | .error _ => ∅)
    fun path parent =>
      .buildError (ascii "cycle detected in the references of " ++
        quoted (printStorePath tables.store path) ++ ascii " from " ++
        quoted (printStorePath tables.store parent))

def showPaths (store : StoreDirConfig) (paths : Finset StorePath) : Bytes :=
  (ascii ", ").intercalate (paths.sort.map fun path => quoted (printStorePath store path))

theorem mem_query_referrers {referrer : StorePath} :
    referrer ∈ queryReferrers db path ↔ tables.Refers db.valid referrer path :=
  mem_filter

theorem unused_closed (unused : (queryReferrers db path).erase path = ∅) :
    ∀ other ∈ db.valid.erase path, tables.references other ⊆ db.valid.erase path := by
  intro other member reference isReference
  obtain ⟨differs, valid⟩ := mem_erase.mp member
  refine mem_erase.mpr ⟨?_, db.closed other valid isReference⟩
  intro same
  rw [same] at isReference
  have referrer : other ∈ (queryReferrers db path).erase path :=
    mem_erase.mpr ⟨differs, (mem_query_referrers db).mpr ⟨valid, isReference⟩⟩
  rw [unused] at referrer
  exact notMem_empty other referrer

/-- `invalidatePath` of a path that no other one refers to. -/
def invalidatePath (path : StorePath) (unused : (queryReferrers db path).erase path = ∅) :
    Database tables where
  valid := db.valid.erase path
  parsed := fun other member => db.parsed other (Finset.mem_of_mem_erase member)
  closed := unused_closed db unused
  acyclic := by
    intro start cycle
    apply db.acyclic start
    refine TransGen.mono ?_ start start cycle
    intro referrer reference edge
    exact ⟨⟨Finset.mem_of_mem_erase edge.1.1, edge.1.2⟩, edge.2⟩

def invalidatePathChecked (path : StorePath) : Except Failure (Database tables) :=
  if path ∈ db.valid then
    if unused : (queryReferrers db path).erase path = ∅ then .ok (invalidatePath db path unused)
    else
      .error (.pathInUse (ascii "cannot delete path " ++ quoted (printStorePath tables.store path) ++
        ascii " because it is in use by " ++
        showPaths tables.store ((queryReferrers db path).erase path)))
  else .ok db

end Queries

section

variable {tables : Tables} {db : Database tables}

theorem invalidate_unused
    (unused : ∀ referrer, tables.Refers db.valid referrer path → referrer = path) :
    ∃ after, invalidatePathChecked db path = .ok after ∧ after.valid = db.valid.erase path := by
  rw [invalidatePathChecked]
  by_cases valid : path ∈ db.valid
  · have empty : (queryReferrers db path).erase path = ∅ := by
      apply eq_empty_of_forall_notMem
      intro referrer member
      obtain ⟨differs, isReferrer⟩ := mem_erase.mp member
      exact differs (unused referrer ((mem_query_referrers db).mp isReferrer))
    rw [if_pos valid, dif_pos empty]
    exact ⟨_, rfl, rfl⟩
  · rw [if_neg valid]
    exact ⟨db, rfl, (erase_eq_of_notMem valid).symm⟩

theorem invalidate_fewer {after : Database tables}
    (invalidated : invalidatePathChecked db path = .ok after) : after.valid ⊆ db.valid := by
  rw [invalidatePathChecked] at invalidated
  split at invalidated
  · split at invalidated
    · cases invalidated
      exact erase_subset _ _
    · cases invalidated
  · cases invalidated
    exact subset_rfl

end

section

variable {tables : Tables} (db : Database tables)

def outputUnder (path : StorePath) (name : Bytes) : Option (Option StorePath) :=
  if tables.caDerivations ∧ name ∈ tables.outputNames path then
    match queryRealisation db path name with
    | some outPath => some (some outPath)
    | none => some ((tables.derivationOutputs path).get name)
  else ((tables.derivationOutputs path).get name).map some

theorem get_add_realisation (path : StorePath) (outputs : SortedMap Bytes (Option StorePath))
    (name wanted : Bytes) :
    (addRealisation db path outputs name).get wanted = if wanted = name then
        some (match queryRealisation db path name with
          | some outPath => some outPath
          | none => (outputs.get name).getD none)
      else outputs.get wanted := by
  rw [addRealisation]
  cases queryRealisation db path name with
  | some outPath =>
    rw [get_assign]
    congr
  | none =>
    rw [get_update]
    congr

theorem get_add_realisations (path : StorePath) (names : List Bytes)
    (outputs : SortedMap Bytes (Option StorePath)) (wanted : Bytes) :
    (names.foldl (addRealisation db path) outputs).get wanted = if wanted ∈ names then
        some (match queryRealisation db path wanted with
          | some outPath => some outPath
          | none => (outputs.get wanted).getD none)
      else outputs.get wanted := by
  induction names generalizing outputs with
  | nil => rfl
  | cons name names ih =>
    rw [List.foldl_cons, ih, get_add_realisation]
    by_cases same : wanted = name
    · rw [if_pos same, same, if_pos List.mem_cons_self]
      cases queryRealisation db path name with
      | some | none => exact ite_self _
    rw [if_neg same]
    by_cases later : wanted ∈ names
    · rw [if_pos later, if_pos (List.mem_cons_of_mem name later)]
    · rw [if_neg later, if_neg fun member => (List.mem_cons.mp member).elim same later]

theorem output_map_ok (valid : path ∈ db.valid) :
    ∃ outputs, queryPartialDerivationOutputMap db path = .ok outputs ∧
      ∀ outPath, outPath ∈ outputs.entries.filterMap Prod.snd ↔
        ∃ name, outputUnder db path name = some (some outPath) := by
  let outputs := if tables.caDerivations then
      (tables.outputNames path).foldl (addRealisation db path)
        ((tables.derivationOutputs path).mapValues some)
    else (tables.derivationOutputs path).mapValues some
  have under : ∀ name, outputs.get name = outputUnder db path name := by
    intro name
    rw [outputUnder]
    by_cases enabled : tables.caDerivations = true
    · have shape : outputs = (tables.outputNames path).foldl (addRealisation db path)
          ((tables.derivationOutputs path).mapValues some) := if_pos enabled
      rw [shape, get_add_realisations, get_map_values]
      by_cases listed : name ∈ tables.outputNames path
      · rw [if_pos listed, if_pos ⟨enabled, listed⟩]
        cases queryRealisation db path name with
        | some outPath => rfl
        | none => cases (tables.derivationOutputs path).get name <;> rfl
      · rw [if_neg listed, if_neg fun both => listed both.2]
    · have shape : outputs = (tables.derivationOutputs path).mapValues some := if_neg enabled
      rw [shape, if_neg fun both => enabled both.1, get_map_values]
  refine ⟨outputs, if_pos valid, ?_⟩
  intro outPath
  rw [List.mem_filterMap]
  constructor
  · rintro ⟨⟨name, output⟩, member, same⟩
    cases same
    exact ⟨name, (under name).symm.trans (mem_iff_get.mp member)⟩
  · rintro ⟨name, found⟩
    exact ⟨(name, some outPath), mem_iff_get.mpr ((under name).trans found), rfl⟩

def IsOutput (path outPath : StorePath) : Prop :=
  outPath ∈ db.valid ∧ ∃ name, outputUnder db path name = some (some outPath)

variable {db} {later : Database tables} {outPath : StorePath}

theorem query_realisation_some {name : Bytes} : queryRealisation db path name = some outPath ↔
      tables.realisations path name = some outPath ∧ outPath ∈ db.valid := by
  rw [queryRealisation, Option.filter_eq_some_iff, decide_eq_true_eq]

section

variable (fewer : later.valid ⊆ db.valid)

include fewer

theorem query_realisation_fewer (name : Bytes) : queryRealisation later path name =
      (queryRealisation db path name).filter fun outPath => outPath ∈ later.valid := by
  rw [queryRealisation, queryRealisation, Option.filter_filter]
  congr
  funext outPath
  rw [← Bool.decide_and, decide_eq_decide]
  exact (and_iff_right_of_imp fun kept => fewer kept).symm

theorem is_output_kept (isOutput : IsOutput db path outPath)
    (kept : outPath ∈ later.valid) : IsOutput later path outPath := by
  obtain ⟨valid, name, under⟩ := isOutput
  refine ⟨kept, name, ?_⟩
  rw [outputUnder] at under ⊢
  by_cases listed : tables.caDerivations = true ∧ name ∈ tables.outputNames path
  · rw [if_pos listed] at under ⊢
    rw [query_realisation_fewer fewer]
    cases realised : queryRealisation db path name with
    | some realisedPath =>
      rw [realised] at under
      cases under
      rw [Option.filter_some, if_pos (decide_eq_true kept)]
    | none =>
      rw [realised] at under
      exact under
  · rw [if_neg listed] at under ⊢
    exact under

theorem is_output_new (isOutput : IsOutput later path outPath) :
    IsOutput db path outPath ∨ ∃ replaced, IsOutput db path replaced ∧ replaced ∉ later.valid := by
  obtain ⟨valid, name, under⟩ := isOutput
  rw [outputUnder] at under
  by_cases listed : tables.caDerivations = true ∧ name ∈ tables.outputNames path
  · rw [if_pos listed, query_realisation_fewer fewer] at under
    cases realised : queryRealisation db path name with
    | some realisedPath =>
      have wasOutput : IsOutput db path realisedPath := by
        refine ⟨(query_realisation_some.mp realised).2, name, ?_⟩
        rw [outputUnder, if_pos listed, realised]
      by_cases kept : realisedPath ∈ later.valid
      · rw [realised, Option.filter_some, if_pos (decide_eq_true kept)] at under
        cases under
        exact .inl wasOutput
      · exact .inr ⟨realisedPath, wasOutput, kept⟩
    | none =>
      refine .inl ⟨fewer valid, name, ?_⟩
      rw [realised] at under
      rw [outputUnder, if_pos listed, realised]
      exact under
  · rw [if_neg listed] at under
    refine .inl ⟨fewer valid, name, ?_⟩
    rw [outputUnder, if_neg listed]
    exact under

end

theorem outputs_of_ok (db : Database tables) (wanted : Bool) (valid : path ∈ db.valid) :
    ∃ outputs, outputsOf db wanted path = .ok outputs ∧ ∀ outPath, outPath ∈ outputs ↔
        wanted = true ∧ path.isDerivation = true ∧ IsOutput db path outPath := by
  rw [outputsOf]
  by_cases asked : (wanted && path.isDerivation) = true
  · obtain ⟨outputs, answered, isOutput⟩ := output_map_ok db valid
    obtain ⟨isWanted, isDerivation⟩ := Bool.and_eq_true_iff.mp asked
    rw [if_pos asked]
    refine ⟨_, by rw [validOutputs, answered]; rfl, ?_⟩
    intro outPath
    rw [mem_filter, List.mem_toFinset, isOutput, IsOutput, and_iff_right isWanted,
      and_iff_right isDerivation, and_comm]
  · rw [if_neg asked]
    refine ⟨∅, rfl, ?_⟩
    intro outPath
    apply iff_of_false (notMem_empty outPath)
    rintro ⟨isWanted, isDerivation, _⟩
    exact asked (Bool.and_eq_true_iff.mpr ⟨isWanted, isDerivation⟩)

end

section

variable {tables : Tables} {db : Database tables} {includeOutputs includeDerivers : Bool}

def Leads (db : Database tables) (includeOutputs includeDerivers : Bool)
    (path dep : StorePath) : Prop :=
  path ∈ db.valid ∧ (dep ∈ tables.references path ∧ dep ≠ path ∨
      includeOutputs = true ∧ path.isDerivation = true ∧ IsOutput db path dep ∨
      includeDerivers = true ∧ tables.deriver path = some dep ∧ dep ∈ db.valid)

variable {dep : StorePath}

theorem leads_valid (leads : Leads db includeOutputs includeDerivers path dep) : dep ∈ db.valid := by
  obtain ⟨valid, isReference | isOutput | isDeriver⟩ := leads
  · exact db.closed path valid isReference.1
  · exact isOutput.2.2.1
  · exact isDeriver.2.2

theorem mem_deriver_if : dep ∈ (if includeDerivers then
      ((tables.deriver path).filter fun drv => drv ∈ db.valid).toFinset else ∅) ↔
      includeDerivers = true ∧ tables.deriver path = some dep ∧ dep ∈ db.valid := by
  by_cases included : includeDerivers = true
  · rw [if_pos included, Option.mem_toFinset, Option.mem_def, Option.filter_eq_some_iff,
      decide_eq_true_eq, and_iff_right included]
  · rw [if_neg included]
    exact iff_of_false (notMem_empty dep) fun all => included all.1

theorem query_deps_ok (includeOutputs includeDerivers : Bool) (valid : path ∈ db.valid) :
    ∃ deps, queryDeps db false includeOutputs includeDerivers path = .ok deps ∧
      ∀ dep, dep ∈ deps ↔ Leads db includeOutputs includeDerivers path dep := by
  obtain ⟨outputs, answered, isOutput⟩ := outputs_of_ok db includeOutputs valid
  have info : queryPathInfo db path = .ok ⟨tables.references path, tables.deriver path⟩ :=
    if_pos valid
  refine ⟨_, by rw [queryDeps, info]; simp only [answered]; rfl, ?_⟩
  intro dep
  rw [mem_union, mem_union, mem_erase, isOutput, mem_deriver_if, Leads,
    and_iff_right valid, or_assoc, and_comm]

theorem query_deps_invalid (gone : path ∉ db.valid) :
    queryDeps db false includeOutputs includeDerivers path =
      .error (invalidPath tables.store path) := by
  have info : queryPathInfo db path = .error (invalidPath tables.store path) := if_neg gone
  rw [queryDeps, info]
  rfl

theorem edge_iff_leads : Edge (queryDeps db false includeOutputs includeDerivers) path dep ↔
      Leads db includeOutputs includeDerivers path dep := by
  by_cases valid : path ∈ db.valid
  · obtain ⟨deps, answered, isDep⟩ := query_deps_ok includeOutputs includeDerivers valid
    constructor
    · rintro ⟨others, sameAnswer, member⟩
      rw [answered] at sameAnswer
      cases sameAnswer
      exact (isDep dep).mp member
    · intro leads
      exact ⟨deps, answered, (isDep dep).mpr leads⟩
  · apply iff_of_false
    · rintro ⟨deps, answered, _⟩
      rw [query_deps_invalid valid] at answered
      cases answered
    · intro leads
      exact valid leads.1

theorem compute_fs_closure_valid (includeOutputs includeDerivers : Bool) (valid : path ∈ db.valid) :
    ∃ closure, computeFSClosure db {path} false includeOutputs includeDerivers = .ok closure ∧
      ∀ dep, dep ∈ closure ↔
        ReflTransGen (Leads db includeOutputs includeDerivers) path dep := by
  have answers : ∀ element ∈ db.valid, ∃ children,
      queryDeps db false includeOutputs includeDerivers element = .ok children ∧
        children ⊆ db.valid := by
    intro element member
    obtain ⟨deps, answered, isDep⟩ := query_deps_ok includeOutputs includeDerivers member
    exact ⟨deps, answered, fun dep isMember => leads_valid ((isDep dep).mp isMember)⟩
  obtain ⟨closure, computed, isReached⟩ := compute_closure_ok answers
    (singleton_subset_iff.mpr valid) (Nat.le_add_right _ _)
  refine ⟨closure, computed, ?_⟩
  intro dep
  have sameEdges : Edge (queryDeps db false includeOutputs includeDerivers) =
      Leads db includeOutputs includeDerivers := by
    funext path dep
    exact propext edge_iff_leads
  rw [isReached dep, sameEdges]
  constructor
  · rintro ⟨start, isStart, reaches⟩
    rwa [mem_singleton.mp isStart] at reaches
  · intro reaches
    exact ⟨path, mem_singleton_self path, reaches⟩

theorem compute_fs_closure_invalid (includeOutputs includeDerivers : Bool) (gone : path ∉ db.valid) :
    computeFSClosure db {path} false includeOutputs includeDerivers =
      .error (invalidPath tables.store path) := by
  rw [computeFSClosure, card_singleton, computeClosure, sort_singleton, enqueueAll,
    List.foldl_cons, List.foldl_nil, enqueue, if_neg, query_deps_invalid gone]
  rintro (thrown | found)
  · exact thrown rfl
  · exact notMem_empty path found

/-- Every path once, and none before a valid path that refers to it. -/
structure ReferrersFirst (db : Database tables) (paths : Finset StorePath)
    (sorted : List StorePath) : Prop where
  once : sorted.Nodup
  mem : ∀ path, path ∈ sorted ↔ path ∈ paths
  ordered : sorted.Pairwise fun earlier later => ¬tables.Refers db.valid later earlier

theorem topo_sort_paths_ok (db : Database tables) (paths : Finset StorePath) :
    ∃ sorted, topoSortPaths db paths = .ok sorted ∧ ReferrersFirst db paths sorted := by
  have children : ∀ path reference, reference ∈ (match queryPathInfo db path with
      | .ok info => info.references
      | .error _ => ∅) ↔ tables.Refers db.valid path reference := by
    intro path reference
    by_cases valid : path ∈ db.valid
    · have info : queryPathInfo db path = .ok ⟨tables.references path, tables.deriver path⟩ :=
        if_pos valid
      rw [info, Tables.Refers, and_iff_right valid]
    · have info : queryPathInfo db path = .error (invalidPath tables.store path) := if_neg valid
      rw [info]
      exact iff_of_false (notMem_empty reference) fun refers => valid refers.1
  obtain ⟨sorted, computed, isSorted⟩ := topo_sort_acyclic (fun path parent =>
      .buildError (ascii "cycle detected in the references of " ++
        quoted (printStorePath tables.store path) ++ ascii " from " ++
        quoted (printStorePath tables.store parent))) (by
    intro path cycle
    apply db.acyclic path
    refine TransGen.mono ?_ path path cycle
    intro referrer reference below
    exact ⟨(children referrer reference).mp below.1, below.2.1⟩)
  refine ⟨sorted, computed, isSorted.once, isSorted.mem, ?_⟩
  apply List.Pairwise.imp_of_mem ?_ (isSorted.ordered.and isSorted.once)
  rintro earlier later isEarlier _ ⟨notBelow, differs⟩ refers
  exact notBelow ⟨(children later earlier).mpr refers, differs, (isSorted.mem earlier).mp isEarlier⟩

end

end Bsd.Store.LocalStore
