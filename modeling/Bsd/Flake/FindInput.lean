import Bsd.Flake.LockFiles
import Bsd.Lib.Outcomes

/-!
# Looking up an input of a lock file

`doFind` walks a path from the root and resolves the paths that it has to follow. The
paths that it has started to resolve are kept in one list, so that a path that is met
again is taken for a cycle, also when its resolution has been finished before.
-/

namespace Bsd.Flake.FindInput

open List Flake.LockFiles Lib.OrdMap

/-- The error names the paths from the one that is met again. -/
def followCycle (path : InputAttrPath) (visited : List InputAttrPath) : Failure :=
  let cycle := (visited.dropWhile (· ≠ path)).map printInputAttrPath ++ [printInputAttrPath path]
  .error ("follow cycle detected: [".toList ++ concatStringsSep " -> ".toList cycle ++ "]".toList)

abbrev Found := Option NodeRef × List InputAttrPath

section

variable (lockFile : LockFile)

def walkPath (find : InputAttrPath → List InputAttrPath → Except Failure Found) :
    InputAttrPath → NodeRef → List InputAttrPath → Except Failure Found
  | [], pos, visited => .ok (some pos, visited)
  | elem :: rest, pos, visited =>
    match (lockFile.inputs pos).get elem with
    | none => .ok (none, visited)
    | some (.node target) => walkPath find rest (.locked target) visited
    | some (.follows follows) =>
      match find follows visited with
      | .error failure => .error failure
      | .ok (none, visited) => .ok (none, visited)
      | .ok (some target, visited) => walkPath find rest target visited

def doFind : Nat → InputAttrPath → List InputAttrPath → Except Failure Found
  | 0, path, visited =>
    if path ∈ visited then .error (followCycle path visited) else .error .outOfDepth
  | depth + 1, path, visited =>
    if path ∈ visited then .error (followCycle path visited)
    else walkPath lockFile (doFind depth) path .root (visited ++ [path])

def followed (inputs : Inputs) : List InputAttrPath :=
  inputs.entries.filterMap fun entry =>
    match entry.2 with
    | .node _ => none
    | .follows path => some path

def allFollowed : List InputAttrPath :=
  followed lockFile.root ++ lockFile.nodes.flatMap fun node => followed node.inputs

/-- Each nested search is for another of the followed paths. -/
def findInput (path : InputAttrPath) : Except Failure (Option NodeRef) :=
  match doFind lockFile ((allFollowed lockFile).length + 1) path [] with
  | .ok found => .ok found.1
  | .error failure => .error failure

end

/-- From a node a path resolves to a node, or to nothing when an input is missing. The
list holds the followed paths that are resolved from the root on the way, in order. -/
inductive Resolves (lockFile : LockFile) :
    NodeRef → InputAttrPath → Option NodeRef → List InputAttrPath → Prop where
  | arrived (pos : NodeRef) : Resolves lockFile pos [] (some pos) []
  | missing {pos : NodeRef} {elem : FlakeId} {rest : InputAttrPath}
      (absent : (lockFile.inputs pos).get elem = none) :
      Resolves lockFile pos (elem :: rest) none []
  | input {pos : NodeRef} {elem : FlakeId} {rest : InputAttrPath} {target : Nat}
      {result : Option NodeRef} {onTheWay : List InputAttrPath}
      (edge : (lockFile.inputs pos).get elem = some (.node target))
      (later : Resolves lockFile (.locked target) rest result onTheWay) :
      Resolves lockFile pos (elem :: rest) result onTheWay
  | follows {pos target : NodeRef} {elem : FlakeId} {rest path : InputAttrPath}
      {result : Option NodeRef} {inside onTheWay : List InputAttrPath}
      (edge : (lockFile.inputs pos).get elem = some (.follows path))
      (nested : Resolves lockFile .root path (some target) inside)
      (later : Resolves lockFile target rest result onTheWay) :
      Resolves lockFile pos (elem :: rest) result (path :: inside ++ onTheWay)
  | lost {pos : NodeRef} {elem : FlakeId} {rest path : InputAttrPath}
      {inside : List InputAttrPath}
      (edge : (lockFile.inputs pos).get elem = some (.follows path))
      (nested : Resolves lockFile .root path none inside) :
      Resolves lockFile pos (elem :: rest) none (path :: inside)

variable {path : InputAttrPath} {pos : NodeRef}

theorem resolves_unique {lockFile : LockFile} {left right : Option NodeRef}
    {leftWay rightWay : List InputAttrPath} (first : Resolves lockFile pos path left leftWay)
    (second : Resolves lockFile pos path right rightWay) : left = right ∧ leftWay = rightWay := by
  induction first generalizing right rightWay with
  | arrived pos =>
    cases second
    exact ⟨rfl, rfl⟩
  | missing absent =>
    cases second with
    | missing _ => exact ⟨rfl, rfl⟩
    | input edge _ | follows edge _ _ | lost edge _ =>
      exact absurd (absent.symm.trans edge) nofun
  | input edge _ ih =>
    cases second with
    | missing absent => exact absurd (absent.symm.trans edge) nofun
    | input other later =>
      cases edge.symm.trans other
      exact ih later
    | follows other _ _ | lost other _ => exact absurd (edge.symm.trans other) nofun
  | follows edge _ _ nestedIh laterIh =>
    cases second with
    | missing absent => exact absurd (absent.symm.trans edge) nofun
    | input other _ => exact absurd (edge.symm.trans other) nofun
    | follows other nested later =>
      cases edge.symm.trans other
      obtain ⟨sameTarget, sameInside⟩ := nestedIh nested
      cases sameTarget
      obtain ⟨sameResult, sameWay⟩ := laterIh later
      exact ⟨sameResult, by rw [sameInside, sameWay]⟩
    | lost other nested =>
      cases edge.symm.trans other
      exact absurd (nestedIh nested).1 nofun
  | lost edge _ ih =>
    cases second with
    | missing absent => exact absurd (absent.symm.trans edge) nofun
    | input other _ => exact absurd (edge.symm.trans other) nofun
    | follows other nested _ =>
      cases edge.symm.trans other
      exact absurd (ih nested).1 nofun
    | lost other nested =>
      cases edge.symm.trans other
      rw [(ih nested).2]
      exact ⟨rfl, rfl⟩

section

variable {lockFile : LockFile}

theorem mem_all_followed {elem : FlakeId}
    (edge : (lockFile.inputs pos).get elem = some (.follows path)) :
    path ∈ allFollowed lockFile := by
  have here : ∀ inputs : Inputs, inputs.get elem = some (.follows path) → path ∈ followed inputs := by
    intro inputs found
    have member := SortedMap.mem_iff_get.mpr found
    exact mem_filterMap.mpr ⟨_, member, rfl⟩
  cases pos with
  | root => exact mem_append_left _ (here _ edge)
  | locked index =>
    rw [LockFile.inputs] at edge
    cases at_ : lockFile.nodes[index]? with
    | none =>
      rw [at_] at edge
      cases edge
    | some node =>
      rw [at_] at edge
      apply mem_append_right
      exact mem_flatMap.mpr ⟨node, mem_of_getElem? at_, here _ edge⟩

variable {visited : List InputAttrPath}

/-- A search that returns has resolved the path, and each path once. -/
theorem walk_path_sound {find : InputAttrPath → List InputAttrPath → Except Failure Found}
    (finds : ∀ path visited found, find path visited = .ok found →
      ∃ inside, Resolves lockFile .root path found.1 inside ∧
        found.2 = visited ++ path :: inside ∧ (visited.Nodup → found.2.Nodup)) {found : Found}
    (ran : walkPath lockFile find path pos visited = .ok found) :
    ∃ onTheWay, Resolves lockFile pos path found.1 onTheWay ∧ found.2 = visited ++ onTheWay ∧
      (visited.Nodup → found.2.Nodup) := by
  induction path generalizing pos visited with
  | nil =>
    cases ran
    exact ⟨[], .arrived pos, (append_nil visited).symm, id⟩
  | cons elem rest ih =>
    rw [walkPath] at ran
    split at ran
    next absent =>
      cases ran
      exact ⟨[], .missing absent, (append_nil visited).symm, id⟩
    next target edge =>
      obtain ⟨onTheWay, later, grown, distinct⟩ := ih ran
      exact ⟨onTheWay, .input edge later, grown, distinct⟩
    next path edge =>
      split at ran
      · cases ran
      next after searched =>
        cases ran
        obtain ⟨inside, nested, grown, distinct⟩ := finds _ _ _ searched
        exact ⟨path :: inside, .lost edge nested, grown, distinct⟩
      next target after searched =>
        obtain ⟨inside, nested, grown, distinct⟩ := finds _ _ _ searched
        obtain ⟨onTheWay, later, grownLater, distinctLater⟩ := ih ran
        refine ⟨path :: inside ++ onTheWay, .follows edge nested later, ?_, ?_⟩
        · have grown : after = visited ++ path :: inside := grown
          rw [grownLater, grown, append_assoc]
        · intro before
          exact distinctLater (distinct before)

theorem do_find_sound (depth : Nat) (path : InputAttrPath) (visited : List InputAttrPath)
    (found : Found) (ran : doFind lockFile depth path visited = .ok found) :
    ∃ inside, Resolves lockFile .root path found.1 inside ∧
      found.2 = visited ++ path :: inside ∧ (visited.Nodup → found.2.Nodup) := by
  induction depth generalizing path visited found with
  | zero =>
    rw [doFind] at ran
    split at ran <;> cases ran
  | succ depth ih =>
    rw [doFind] at ran
    split at ran
    · cases ran
    next fresh =>
      obtain ⟨inside, resolved, grown, distinct⟩ := walk_path_sound ih ran
      refine ⟨inside, resolved, ?_, ?_⟩
      · rw [grown, append_assoc, singleton_append]
      · intro before
        apply distinct
        exact nodup_append_comm.mp (nodup_cons.mpr ⟨fresh, before⟩)

theorem visited_shorter {paths : List InputAttrPath} (distinct : visited.Nodup)
    (known : visited ⊆ paths) (member : path ∈ paths) (fresh : path ∉ visited) :
    visited.length < paths.length := by
  have longer : (path :: visited).Nodup := nodup_cons.mpr ⟨fresh, distinct⟩
  exact (longer.subperm (cons_subset.mpr ⟨member, known⟩)).length_le

variable {onTheWay : List InputAttrPath} {result : Option NodeRef}

theorem resolves_followed
    (resolved : Resolves lockFile pos path result onTheWay) : onTheWay ⊆ allFollowed lockFile := by
  induction resolved with
  | arrived | missing => exact nil_subset _
  | input edge _ ih => exact ih
  | follows edge _ _ nestedIh laterIh =>
    exact append_subset.mpr ⟨cons_subset.mpr ⟨mem_all_followed edge, nestedIh⟩, laterIh⟩
  | lost edge _ ih => exact cons_subset.mpr ⟨mem_all_followed edge, ih⟩

section Depth

variable {paths : List InputAttrPath} (listed : allFollowed lockFile ⊆ paths)

include listed

variable {depth : Nat}

omit listed in
theorem do_find_complete {found : Option NodeRef} {inside : List InputAttrPath}
    (member : path ∈ paths)
    (nested : ∀ {depth : Nat} {visited : List InputAttrPath}, visited ⊆ paths →
      paths.length ≤ depth + visited.length → (visited ++ inside).Nodup →
      walkPath lockFile (doFind lockFile depth) path .root visited =
        .ok (found, visited ++ inside)) (known : visited ⊆ paths)
    (enough : paths.length ≤ depth + visited.length) (distinct : (visited ++ path :: inside).Nodup) :
    doFind lockFile depth path visited = .ok (found, visited ++ path :: inside) := by
  have fresh : path ∉ visited := by
    intro again
    exact disjoint_of_nodup_append distinct again mem_cons_self
  have shorter := visited_shorter (List.Nodup.of_append_left distinct) known member fresh
  cases depth with
  | zero => omega
  | succ depth =>
    have entered : (visited ++ [path] ++ inside).Nodup := by
      rwa [append_assoc]
    rw [doFind, if_neg fresh, nested ?_ ?_ entered, append_assoc, singleton_append]
    · exact append_subset.mpr ⟨known, cons_subset.mpr ⟨member, nil_subset _⟩⟩
    · rw [length_append, length_singleton]
      omega

/-- A path is found when each path on the way to it is met for the first time. -/
theorem walk_path_complete (resolved : Resolves lockFile pos path result onTheWay)
    (known : visited ⊆ paths) (enough : paths.length ≤ depth + visited.length)
    (distinct : (visited ++ onTheWay).Nodup) :
    walkPath lockFile (doFind lockFile depth) path pos visited =
      .ok (result, visited ++ onTheWay) := by
  induction resolved generalizing depth visited with
  | arrived pos => rw [walkPath, append_nil]
  | missing absent => rw [walkPath, absent, append_nil]
  | input edge _ ih =>
    rw [walkPath, edge]
    exact ih known enough distinct
  | follows edge nested _ nestedIh laterIh =>
    have member := listed (mem_all_followed edge)
    rw [← append_assoc] at distinct
    have inner := do_find_complete member nestedIh known enough
      (List.Nodup.of_append_left distinct)
    rw [walkPath, edge]
    dsimp only
    rw [inner]
    dsimp only
    rw [laterIh ?_ ?_ distinct, append_assoc]
    · refine append_subset.mpr ⟨known, cons_subset.mpr ⟨member, ?_⟩⟩
      exact fun path inside => listed (resolves_followed nested inside)
    · rw [length_append]
      omega
  | lost edge nested ih =>
    have member := listed (mem_all_followed edge)
    rw [walkPath, edge]
    dsimp only
    rw [do_find_complete member ih known enough distinct]

theorem walk_path_deep (deep : ∀ path visited, path ∈ paths → visited ⊆ paths → visited.Nodup →
      paths.length ≤ depth + visited.length →
      doFind lockFile depth path visited ≠ .error .outOfDepth) (known : visited ⊆ paths)
    (distinct : visited.Nodup) (enough : paths.length ≤ depth + visited.length) :
    walkPath lockFile (doFind lockFile depth) path pos visited ≠ .error .outOfDepth := by
  induction path generalizing pos visited with
  | nil =>
    nofun
  | cons elem rest ih =>
    rw [walkPath]
    split
    · nofun
    · exact ih known distinct enough
    next path edge =>
      have member := listed (mem_all_followed edge)
      split
      next failure searched =>
        intro same
        cases same
        exact deep path visited member known distinct enough searched
      · nofun
      next target after searched =>
        obtain ⟨inside, nested, grown, distinctAfter⟩ := do_find_sound _ _ _ _ searched
        have grown : after = visited ++ path :: inside := grown
        apply ih
        · rw [grown]
          refine append_subset.mpr ⟨known, cons_subset.mpr ⟨member, ?_⟩⟩
          exact fun path inside => listed (resolves_followed nested inside)
        · exact distinctAfter distinct
        · rw [grown, length_append]
          omega

/-- The bound on the depth is an artefact of the model only. -/
theorem do_find_deep (depth : Nat) (path : InputAttrPath) (visited : List InputAttrPath)
    (member : path ∈ paths) (known : visited ⊆ paths) (distinct : visited.Nodup)
    (enough : paths.length ≤ depth + visited.length) :
    doFind lockFile depth path visited ≠ .error .outOfDepth := by
  induction depth generalizing path visited with
  | zero =>
    have met : path ∈ visited := by
      by_contra fresh
      have shorter := visited_shorter distinct known member fresh
      omega
    rw [doFind, if_pos met]
    nofun
  | succ depth ih =>
    rw [doFind]
    split
    · nofun
    next fresh =>
      apply walk_path_deep listed ih
      · exact append_subset.mpr ⟨known, cons_subset.mpr ⟨member, nil_subset _⟩⟩
      · exact nodup_append_comm.mp (nodup_cons.mpr ⟨fresh, distinct⟩)
      · rw [length_append, length_singleton]
        omega

end Depth

theorem find_input_ok_iff (path : InputAttrPath) (result : Option NodeRef) :
    findInput lockFile path = .ok result ↔
      ∃ onTheWay, Resolves lockFile .root path result onTheWay ∧ (path :: onTheWay).Nodup := by
  constructor
  · intro ran
    rw [findInput] at ran
    split at ran
    next found searched =>
      cases ran
      obtain ⟨inside, resolved, grown, distinct⟩ := do_find_sound _ _ _ _ searched
      rw [grown] at distinct
      exact ⟨inside, resolved, distinct nodup_nil⟩
    · cases ran
  · rintro ⟨onTheWay, resolved, distinct⟩
    have searched : doFind lockFile ((allFollowed lockFile).length + 1) path [] =
        .ok (result, [] ++ path :: onTheWay) :=
      do_find_complete mem_cons_self
        (walk_path_complete (subset_cons_self path (allFollowed lockFile)) resolved)
        (nil_subset _) (by simp) distinct
    rw [findInput, searched]

theorem find_input_deep (path : InputAttrPath) : findInput lockFile path ≠ .error .outOfDepth := by
  have deep := do_find_deep (subset_cons_self path (allFollowed lockFile))
    ((allFollowed lockFile).length + 1) path [] mem_cons_self (nil_subset _)
    nodup_nil (by simp)
  rw [findInput]
  split
  · nofun
  next failure searched =>
    intro same
    cases same
    exact deep searched

end

/-- The node that the path resolves to is returned, and no path that has a resolution
is taken for a cycle. -/
def FoundRight (lockFile : LockFile) (path : InputAttrPath) : Prop :=
  (∀ result onTheWay, Resolves lockFile .root path result onTheWay →
    findInput lockFile path = .ok result) ∧
  ∀ failure, findInput lockFile path = .error failure →
    ¬∃ result onTheWay, Resolves lockFile .root path result onTheWay

/-- The answer is right exactly for the paths whose resolution, if there is one, comes
to each path only once. -/
theorem find_input_right_iff (lockFile : LockFile) (path : InputAttrPath) :
    FoundRight lockFile path ↔ ∀ result onTheWay, Resolves lockFile .root path result onTheWay →
        (path :: onTheWay).Nodup := by
  constructor
  · rintro ⟨returned, _⟩ result onTheWay resolved
    obtain ⟨searched, again, distinct⟩ :=
      (find_input_ok_iff path result).mp (returned result onTheWay resolved)
    rw [(resolves_unique resolved again).2]
    exact distinct
  intro once
  have returned : ∀ result onTheWay, Resolves lockFile .root path result onTheWay →
      findInput lockFile path = .ok result := by
    intro result onTheWay resolved
    exact (find_input_ok_iff path result).mpr ⟨onTheWay, resolved, once result onTheWay resolved⟩
  refine ⟨returned, ?_⟩
  rintro failure threw ⟨result, onTheWay, resolved⟩
  rw [returned result onTheWay resolved] at threw
  cases threw

def libraryRef : FlakeRef where
  attrs := SortedMap.assignAll
    [("type".toList, .string "path".toList), ("path".toList, .string "/library".toList)]
  subdir := []

def libraryNode : LockedNode where
  inputs := SortedMap.assignAll [("base".toList, .follows ["lib".toList])]
  lockedRef := libraryRef
  originalRef := libraryRef
  isFlake := true
  parentInputAttrPath := none

/-- The root has the input `lib` and an input `tool` that follows it, and the input
`base` of `lib` follows `lib` too. -/
def sharedFollow : LockFile where
  root := SortedMap.assignAll [("lib".toList, .node 0), ("tool".toList, .follows ["lib".toList])]
  nodes := [libraryNode]
  rootWithin := by decide +kernel
  nodesWithin := by decide +kernel

theorem shared_follow_not_found : ¬FoundRight sharedFollow ["tool".toList, "base".toList] ∧
      findInput sharedFollow ["tool".toList, "base".toList] =
        .error (.error "follow cycle detected: [lib -> lib]".toList) ∧
      Resolves sharedFollow .root ["tool".toList, "base".toList] (some (.locked 0))
        [["lib".toList], ["lib".toList]] := by
  have threw : findInput sharedFollow ["tool".toList, "base".toList] =
      .error (.error "follow cycle detected: [lib -> lib]".toList) := by decide +kernel
  have libEdge : (sharedFollow.inputs .root).get "lib".toList = some (.node 0) := by decide +kernel
  have toolEdge : (sharedFollow.inputs .root).get "tool".toList =
      some (.follows ["lib".toList]) := by decide +kernel
  have baseEdge : (sharedFollow.inputs (.locked 0)).get "base".toList =
      some (.follows ["lib".toList]) := by decide +kernel
  have library : Resolves sharedFollow .root ["lib".toList] (some (.locked 0)) [] :=
    .input libEdge (.arrived _)
  have resolved : Resolves sharedFollow .root ["tool".toList, "base".toList] (some (.locked 0))
      [["lib".toList], ["lib".toList]] :=
    .follows toolEdge library (.follows baseEdge library (.arrived _))
  refine ⟨?_, threw, resolved⟩
  rintro ⟨returned, _⟩
  rw [returned _ _ resolved] at threw
  cases threw

end Bsd.Flake.FindInput
