import Bsd.Util.ArchiveCanonicity

/-!
# Restoring file trees

`RestoreSink` creates one object after the other below a path where nothing was before.
Nothing that is there is overwritten. The calls of `parseDump` create the tree they describe,
with every link target cut before its first zero byte.
-/

namespace Bsd.Util.Restore

open Lib.Occurrences Lib.OrdMap Util.Archive Util.ArchiveRoundTrip List

inductive RestoreError where
  | alreadyExists
  | missing
  | notADirectory
  deriving DecidableEq

/-- The target of a link is handed to the system as a C string. -/
def nodeOnDisk : FsNode → FsNode
  | .symlink target => .symlink (cString target)
  | node => node

def newObject : FsNode → FileTree
  | .directory => .directory []
  | .regular executable contents => .regular executable contents
  | .symlink target => .symlink target

def createBelow (node : FsNode) : TreePath → FileTree → Except RestoreError FileTree
  | [], _ => .error .alreadyExists
  | name :: path, .directory entries =>
    match find name entries with
    | none =>
      if path = [] then .ok (.directory (emplace name (newObject node) entries))
      else .error .missing
    | some child => do
        let child ← createBelow node path child
        pure (.directory (insertOrAssign name child entries))
  | _ :: _, _ => .error .notADirectory

def create (state : Option FileTree) (object : TreePath × FsNode) :
    Except RestoreError (Option FileTree) :=
  match state, object.1 with
  | none, [] => .ok (some (newObject (nodeOnDisk object.2)))
  | none, _ :: _ => .error .missing
  | some tree, path => some <$> createBelow (nodeOnDisk object.2) path tree

def restore (calls : List SinkCall) : Except RestoreError (Option FileTree) :=
  (calls.map created).foldlM create none

def createObject (tree : FileTree) (object : TreePath × FsNode) : Except RestoreError FileTree :=
  createBelow object.2 object.1 tree

def below (name : Bytes) (object : TreePath × FsNode) : TreePath × FsNode :=
  (name :: object.1, object.2)

mutual

theorem listing_below (name : Bytes) (path : TreePath) (tree : FileTree) :
    listing (name :: path) tree = (listing path tree).map (below name) := by
  match tree with
  | .regular executable contents =>
    rfl
  | .symlink target =>
    rfl
  | .directory entries =>
    rw [listing, entries_listing_below_name name path entries]
    rfl

theorem entries_listing_below_name (name : Bytes) (path : TreePath)
    (entries : DirEntries) :
    entriesListing (name :: path) entries = (entriesListing path entries).map (below name) := by
  match entries with
  | [] =>
    rfl
  | (other, tree) :: rest =>
    rw [entriesListing, entriesListing, map_append, cons_append,
      listing_below name (path ++ [other]) tree, entries_listing_below_name name path rest]

end

variable {objects : List (TreePath × FsNode)} {front : DirEntries}

theorem create_below_last {name : Bytes} (above : ∀ entry ∈ front, entry.1 < name)
    {child after : FileTree} (created : objects.foldlM createObject child = .ok after) :
    (objects.map (below name)).foldlM createObject (.directory (front ++ [(name, child)])) =
      .ok (.directory (front ++ [(name, after)])) := by
  induction objects generalizing child with
  | nil =>
    rw [Except.ok.inj created]
    rfl
  | cons object rest ih =>
    obtain ⟨path, node⟩ := object
    obtain ⟨middle, first, further⟩ := Bsd.Lib.Readers.except_bind_ok created
    cases path with
    | nil => cases first
    | cons inner path =>
      have here : createObject (.directory (front ++ [(name, child)]))
          (below name (inner :: path, node)) = .ok (.directory (front ++ [(name, middle)])) := by
        change createBelow node (name :: inner :: path) _ = _
        rw [createBelow, find_last above]
        dsimp only
        rw [show createBelow node (inner :: path) child = .ok middle from first]
        exact congrArg (fun entries => Except.ok (FileTree.directory entries))
          (by rw [insertOrAssign, upsert_append _ above, upsert, if_neg (lt_irrefl name), if_pos rfl])
      rw [map_cons, foldlM_cons, here]
      exact ih further

theorem create_new {name : Bytes} (above : ∀ entry ∈ front, entry.1 < name) (node : FsNode) :
    createObject (.directory front) ([name], node) =
      .ok (.directory (front ++ [(name, newObject node)])) := by
  have absent : find name front = none := find_none_of_ne fun entry member =>
    ne_of_gt (above entry member)
  change createBelow node [name] (.directory front) = _
  rw [createBelow, absent]
  exact congrArg (fun entries => Except.ok (FileTree.directory entries))
    (upsert_above (fun old => old.getD (newObject node)) name front above)

mutual

theorem create_listing (tree : FileTree) (fine : WellFormed tree) :
    ∃ root rest, listing [] tree = ([], root) :: rest ∧
      rest.foldlM createObject (newObject root) = .ok tree := by
  match tree with
  | .regular executable contents => exact ⟨.regular executable contents, [], by rw [listing], rfl⟩
  | .symlink target => exact ⟨.symlink target, [], by rw [listing], rfl⟩
  | .directory entries =>
    refine ⟨.directory, entriesListing [] entries, by rw [listing], ?_⟩
    exact create_entries entries fine.2 [] fine.1

theorem create_entries (entries : DirEntries) (fine : EntriesWellFormed entries)
    (front : DirEntries) (ascending : Ascending (front ++ entries)) :
    (entriesListing [] entries).foldlM createObject (.directory front) =
      .ok (.directory (front ++ entries)) := by
  match entries with
  | [] =>
    rw [append_nil]
    rfl
  | (name, tree) :: rest =>
    have above : ∀ entry ∈ front, entry.1 < name := fun entry member =>
      (pairwise_append.mp ascending).2.2 entry member (name, tree) mem_cons_self
    obtain ⟨root, others, isListing, created⟩ := create_listing tree fine.2.2.1
    have here : (listing [name] tree).foldlM createObject (.directory front) =
        .ok (.directory (front ++ [(name, tree)])) := by
      rw [listing_below, isListing]
      change createObject (.directory front) ([name], root) >>= _ = _
      rw [create_new above root]
      exact create_below_last above created
    rw [entriesListing, foldlM_append, nil_append, here]
    have later := create_entries rest fine.2.2.2 (front ++ [(name, tree)]) (by
      rw [append_assoc]
      exact ascending)
    rw [append_assoc] at later
    exact later

end

mutual

def onDisk : FileTree → FileTree
  | .regular executable contents => .regular executable contents
  | .symlink target => .symlink (cString target)
  | .directory entries => .directory (entriesOnDisk entries)

def entriesOnDisk : DirEntries → DirEntries
  | [] => []
  | (name, tree) :: rest => (name, onDisk tree) :: entriesOnDisk rest

end

/-- No link target has a zero byte. -/
def Linkable (tree : FileTree) : Prop :=
  ∀ path target, (path, FsNode.symlink target) ∈ listing [] tree → 0 ∉ target

def objectOnDisk (object : TreePath × FsNode) : TreePath × FsNode := (object.1, nodeOnDisk object.2)

mutual

theorem listing_on_disk (path : TreePath) (tree : FileTree) :
    listing path (onDisk tree) = (listing path tree).map objectOnDisk := by
  match tree with
  | .regular executable contents => rfl
  | .symlink target => rfl
  | .directory entries =>
    rw [onDisk, listing, listing, entries_listing_on_disk path entries]
    rfl

theorem entries_listing_on_disk (path : TreePath) (entries : DirEntries) :
    entriesListing path (entriesOnDisk entries) =
      (entriesListing path entries).map objectOnDisk := by
  match entries with
  | [] => rfl
  | (name, tree) :: rest =>
    rw [entriesOnDisk, entriesListing, entriesListing, map_append,
      listing_on_disk (path ++ [name]) tree, entries_listing_on_disk path rest]

end

theorem entries_on_disk_names (entries : DirEntries) :
    (entriesOnDisk entries).map Prod.fst = entries.map Prod.fst := by
  induction entries with
  | nil => rfl
  | cons entry rest ih => rw [entriesOnDisk, map_cons, map_cons, ih]

mutual

theorem well_formed_on_disk (tree : FileTree) (fine : WellFormed tree) :
    WellFormed (onDisk tree) := by
  match tree with
  | .regular executable contents => exact fine
  | .symlink target => exact lt_of_le_of_lt (takeWhile_sublist _).length_le fine
  | .directory entries => exact ⟨ascending_of_keys (entries_on_disk_names entries) fine.1,
      entries_well_formed_on_disk entries fine.2⟩

theorem entries_well_formed_on_disk (entries : DirEntries)
    (fine : EntriesWellFormed entries) : EntriesWellFormed (entriesOnDisk entries) := by
  match entries with
  | [] => exact fine
  | (name, tree) :: rest =>
    exact ⟨fine.1, fine.2.1, well_formed_on_disk tree fine.2.2.1,
      entries_well_formed_on_disk rest fine.2.2.2⟩

end

theorem linkable_on_disk (tree : FileTree) : Linkable (onDisk tree) := by
  intro path target member
  rw [listing_on_disk, mem_map] at member
  obtain ⟨⟨from_, node⟩, -, same⟩ := member
  cases node with
  | directory | regular => cases same
  | symlink whole =>
    cases same
    exact zero_not_c_string whole

/-- A tree whose link targets have no zero byte is on disk what it is. -/
theorem on_disk_of_linkable {tree : FileTree} (fine : WellFormed tree) (linkable : Linkable tree) :
    onDisk tree = tree := by
  refine listing_injective [] _ tree (well_formed_on_disk tree fine) fine ?_
  rw [listing_on_disk]
  have same : ∀ object ∈ listing [] tree, objectOnDisk object = id object := by
    rintro ⟨path, node⟩ member
    cases node with
    | directory | regular => rfl
    | symlink target =>
      rw [objectOnDisk, nodeOnDisk, c_string_plain (linkable path target member)]
      rfl
  rw [map_congr_left same, map_id]

theorem create_some {tree after : FileTree}
    (created : (objects.map objectOnDisk).foldlM createObject tree = .ok after) :
    objects.foldlM create (some tree) = .ok (some after) := by
  induction objects generalizing tree with
  | nil =>
    rw [Except.ok.inj created]
    rfl
  | cons object rest ih =>
    rw [map_cons, foldlM_cons] at created
    rw [foldlM_cons]
    obtain ⟨middle, first, further⟩ := Bsd.Lib.Readers.except_bind_ok created
    have here : create (some tree) object = .ok (some middle) := by
      change some <$> createObject tree (objectOnDisk object) = _
      rw [first]
      rfl
    rw [here]
    exact ih further

theorem restore_described {calls : List SinkCall} {tree : FileTree} (fine : WellFormed tree)
    (described : Describes calls tree) : restore calls = .ok (some (onDisk tree)) := by
  obtain ⟨root, rest, isListing, made⟩ :=
    create_listing (onDisk tree) (well_formed_on_disk tree fine)
  rw [listing_on_disk, map_eq_cons_iff] at isListing
  obtain ⟨⟨path, node⟩, others, split, isRoot, rfl⟩ := isListing
  cases isRoot
  rw [restore, described, split]
  exact create_some made

end Bsd.Util.Restore
