import Bsd.Util.Restore

/-!
# Restoring into memory

`MemorySink` creates the objects of an archive in a `MemorySourceAccessor`, whose root is an
empty directory at first. `open` makes the directories that are missing on the way and says
by a flag whether the object at the end is new; the root never is.
-/

namespace Bsd.Util.MemoryAccessor

open Lib.Occurrences Lib.OrdMap Lib.Readers Util.Serialise Util.Archive Util.ArchiveRoundTrip List
open Util.Restore

inductive MemoryError where
  | read (failure : ReadError)
  | error (message : Bytes)
  deriving DecidableEq

def absolute (path : TreePath) : Bytes :=
  if path = [] then ascii "/" else path.flatMap fun name => ascii "/" ++ name

def fileError (path : TreePath) (problem : String) : MemoryError :=
  .error (ascii "file " ++ quoted (absolute path) ++ ascii (" " ++ problem))

/-- `open` with a file to create, and what the caller then does to the file it gets. -/
def openFile (full : TreePath) (create : FileTree) (use : FileTree → Except MemoryError FileTree) :
    TreePath → Bool → FileTree → Except MemoryError FileTree
  | [], newF, cur => use (if newF then create else cur)
  | name :: path, newF, .directory contents =>
    match find name contents with
    | some child => do
        let child ← openFile full create use path newF child
        pure (.directory (insertOrAssign name child contents))
    | none => do
        let child ← openFile full create use path true (.directory [])
        pure (.directory (emplace name child contents))
  | _ :: _, _, _ =>
    .error (fileError full "cannot be made because some parent file is not a directory")

def createDirectory (path : TreePath) : FileTree → Except MemoryError FileTree :=
  openFile path (.directory [])
    (fun
      | .directory contents => .ok (.directory contents)
      | _ => .error (fileError path "is not a directory")) path false

def applyOp (file : Bool × Bytes) : FileOp → Bool × Bytes
  | .isExecutable => (true, file.2)
  | .preallocateContents _ => file
  | .data bytes => (file.1, file.2 ++ bytes)

def createRegularFile (path : TreePath) (ops : List FileOp) :
    FileTree → Except MemoryError FileTree :=
  openFile path (.regular false [])
    (fun
      | .regular executable contents =>
        let file := ops.foldl applyOp (executable, contents)
        .ok (.regular file.1 file.2)
      | _ => .error (fileError path "is not a regular file")) path false

def createSymlink (path : TreePath) (target : Bytes) : FileTree → Except MemoryError FileTree :=
  openFile path (.symlink [])
    (fun
      | .symlink _ => .ok (.symlink target)
      | _ => .error (fileError path "is not a symbolic link")) path false

def memorySink (root : FileTree) : SinkCall → Except MemoryError FileTree
  | .createDirectory path => createDirectory path root
  | .createRegularFile path ops => createRegularFile path ops root
  | .createSymlink path target => createSymlink path target root

/-- `parseDump` with a `MemorySink` over a new accessor. -/
def parseToMemory (source : Source) : Except MemoryError (FileTree × Source) :=
  match parseDump false source with
  | .error failure => .error (.read failure)
  | .ok (calls, rest) => do
      let root ← calls.foldlM memorySink (.directory [])
      pure (root, rest)

theorem apply_ops (ops : List FileOp) (executable : Bool) (contents : Bytes) :
    ops.foldl applyOp (executable, contents) =
      (executable || ops.any marksExecutable, contents ++ ops.flatMap written) := by
  induction ops generalizing executable contents with
  | nil => rw [foldl_nil, any_nil, flatMap_nil, Bool.or_false, append_nil]
  | cons op ops ih =>
    cases op with
    | isExecutable => exact (ih true contents).trans (by simp [marksExecutable, written])
    | preallocateContents size =>
      exact (ih executable contents).trans (by simp [marksExecutable, written])
    | data bytes =>
      exact (ih executable (contents ++ bytes)).trans (by simp [marksExecutable, written])

variable {tree after : FileTree}

theorem open_file_below {full : TreePath} {create : FileTree} {node : FsNode}
    {use : FileTree → Except MemoryError FileTree} (uses : use create = .ok (newObject node))
    {path : TreePath} (created : createBelow node path tree = .ok after) :
    openFile full create use path false tree = .ok after := by
  induction path generalizing tree after with
  | nil => cases created
  | cons name path ih =>
    cases tree with
    | regular | symlink => cases created
    | directory contents =>
      rw [createBelow] at created
      rw [openFile]
      cases found : find name contents with
      | none =>
        rw [found] at created
        by_cases last : path = []
        · rw [last]
          dsimp only [openFile]
          rw [if_pos last] at created
          rw [if_pos rfl, uses, ← Except.ok.inj created]
          rfl
        · rw [if_neg last] at created
          cases created
      | some child =>
        rw [found] at created
        obtain ⟨inner, isInner, created⟩ := except_bind_ok created
        dsimp only
        rw [ih isInner, ← Except.ok.inj created]
        rfl

theorem memory_sink_below (call : SinkCall)
    (below : createObject tree (created call) = .ok after) : memorySink tree call = .ok after := by
  cases call with
  | createDirectory path | createSymlink path target =>
    refine open_file_below ?_ below
    rfl
  | createRegularFile path ops =>
    refine open_file_below ?_ below
    dsimp only
    rw [apply_ops]
    rfl

variable {calls : List SinkCall}

theorem memory_sink_creates (below : (calls.map created).foldlM createObject tree = .ok after) :
    calls.foldlM memorySink tree = .ok after := by
  induction calls generalizing tree with
  | nil =>
    rw [Except.ok.inj below]
    rfl
  | cons call calls ih =>
    obtain ⟨middle, first, further⟩ := except_bind_ok below
    rw [foldlM_cons, memory_sink_below call first]
    exact ih further

def isDirectory : FileTree → Bool
  | .directory _ => true
  | _ => false

theorem listing_root {tree : FileTree} {root : FsNode} {rest : List (TreePath × FsNode)}
    (isListing : listing [] tree = ([], root) :: rest) :
    isDirectory tree = true ↔ root = .directory := by
  cases tree with
  | regular | symlink =>
    cases isListing
    exact ⟨nofun, nofun⟩
  | directory entries =>
    cases isListing
    exact ⟨fun _ => rfl, fun _ => rfl⟩

/-- The first call is for the root, where the sink finds the empty directory. -/
theorem memory_sink_described (tree : Tree) (described : Describes calls tree.val) :
    (calls.foldlM memorySink (.directory []) = .ok tree.val ↔ isDirectory tree.val = true) := by
  obtain ⟨root, rest, isListing, below⟩ := create_listing tree.val tree.property
  rw [listing_root isListing]
  rw [Describes, isListing] at described
  obtain ⟨call, more, rfl, isRoot, isRest⟩ := map_eq_cons_iff.mp described
  rw [foldlM_cons]
  cases call with
  | createDirectory path =>
    obtain ⟨rfl, rfl⟩ := Prod.mk.inj isRoot
    rw [← isRest] at below
    exact ⟨fun _ => rfl, fun _ => memory_sink_creates below⟩
  | createRegularFile | createSymlink =>
    obtain ⟨rfl, rfl⟩ := Prod.mk.inj isRoot
    exact ⟨nofun, nofun⟩

/-- Parsing an archive with a `MemorySink`, however the bytes arrive and whatever follows,
gives the tree if its root is a directory, and only then. -/
theorem parse_to_memory_iff (tree : Tree) :
    ∃ bytes, dumpPath false defaultPathFilter tree.val = .ok bytes ∧
      ∀ (source : Source) (rest : Bytes), source.flatten = bytes ++ rest →
        ((∃ final, parseToMemory source = .ok (tree.val, final) ∧ final.flatten = rest) ↔
          isDirectory tree.val = true) := by
  refine ⟨archive tree.val, dump_path_archive tree.val tree.property, ?_⟩
  intro source rest input
  obtain ⟨calls, final, ran, remains, described⟩ := parse_dump_archive tree input
  rw [← memory_sink_described tree described, parseToMemory, ran]
  constructor
  · rintro ⟨end_, made, _⟩
    obtain ⟨root, isRoot, made⟩ := except_bind_ok made
    rw [isRoot]
    cases made
    rfl
  · intro made
    refine ⟨final, ?_, remains⟩
    dsimp only
    rw [made]
    rfl

theorem nested_directory_restored : ∃ bytes, dumpPath false defaultPathFilter
        (.directory [(ascii "bin", .directory [(ascii "run", .regular true (ascii "x"))])]) =
          .ok bytes ∧
      ∃ final, parseToMemory [bytes] =
          .ok (.directory [(ascii "bin", .directory [(ascii "run", .regular true (ascii "x"))])],
            final) ∧ final.flatten = [] := by
  have fine : WellFormed
      (.directory [(ascii "bin", .directory [(ascii "run", .regular true (ascii "x"))])]) := by
    simp only [WellFormed, EntriesWellFormed, Ascending]
    decide
  obtain ⟨bytes, dumped, restores⟩ := parse_to_memory_iff ⟨_, fine⟩
  exact ⟨bytes, dumped, (restores [bytes] [] (by simp)).mpr rfl⟩

/-- A symbolic link as the root of an archive. -/
theorem root_link_refused :
    ∃ bytes, dumpPath false defaultPathFilter (.symlink (ascii "target")) = .ok bytes ∧
      ∃ failure, parseToMemory [bytes] = .error failure ∧
        failure = .error (ascii "file '/' is not a symbolic link") := by
  refine ⟨_, rfl, ?_⟩
  have refused : (match parseToMemory [archive (.symlink (ascii "target"))] with
      | .error failure => some failure
      | .ok _ => none) = some (.error (ascii "file '/' is not a symbolic link")) := by decide +kernel
  split at refused
  next failure ran => exact ⟨failure, ran, Option.some.inj refused⟩
  · cases refused

end Bsd.Util.MemoryAccessor
