import Bsd.Util.Archive

/-!
# Dumping and parsing back

Without the case hack an archive is a plain sequence of strings, `tokens`. The
calls that `parseDump` makes are compared with the tree through its listing:
each object with its path, kind, executable bit, contents and target.
-/

namespace Bsd.Util.ArchiveRoundTrip

open List Lib.Occurrences Lib.OrdMap Lib.Readers Util.Serialise Util.Archive

mutual

/-- Names are ordered and usable as file names, and every string has a size that `size_t` can
hold. A link target may have a zero byte: an archive can hold one, although no link on disk
has one. -/
def WellFormed : FileTree → Prop
  | .regular _ contents => contents.length < sizeLimit
  | .symlink target => target.length < sizeLimit
  | .directory entries => Ascending entries ∧ EntriesWellFormed entries

def EntriesWellFormed : DirEntries → Prop
  | [] => True
  | (name, tree) :: rest =>
    ValidName name ∧ name.length < sizeLimit ∧ WellFormed tree ∧ EntriesWellFormed rest

end

def Tree := { tree : FileTree // WellFormed tree }

inductive FsNode where
  | directory
  | regular (executable : Bool) (contents : Bytes)
  | symlink (target : Bytes)
  deriving DecidableEq

mutual

def listing (path : TreePath) : FileTree → List (TreePath × FsNode)
  | .regular executable contents => [(path, .regular executable contents)]
  | .symlink target => [(path, .symlink target)]
  | .directory entries => (path, .directory) :: entriesListing path entries

def entriesListing (path : TreePath) : DirEntries → List (TreePath × FsNode)
  | [] => []
  | (name, tree) :: rest => listing (path ++ [name]) tree ++ entriesListing path rest

end

def marksExecutable : FileOp → Bool
  | .isExecutable => true
  | .preallocateContents _ => false
  | .data _ => false

def written : FileOp → Bytes
  | .isExecutable => []
  | .preallocateContents _ => []
  | .data bytes => bytes

def created : SinkCall → TreePath × FsNode
  | .createDirectory path => (path, .directory)
  | .createRegularFile path ops =>
    (path, .regular (ops.any marksExecutable) (ops.flatMap written))
  | .createSymlink path target => (path, .symlink target)

def Describes (calls : List SinkCall) (tree : FileTree) : Prop :=
  calls.map created = listing [] tree

def executableTokens (executable : Bool) : List Bytes :=
  if executable then [ascii "executable", []] else []

mutual

def tokens : FileTree → List Bytes
  | .regular executable contents =>
    [ascii "(", ascii "type", ascii "regular"] ++ executableTokens executable ++
      [ascii "contents", contents, ascii ")"]
  | .symlink target =>
    [ascii "(", ascii "type", ascii "symlink", ascii "target", target, ascii ")"]
  | .directory entries =>
    [ascii "(", ascii "type", ascii "directory"] ++ (entriesTokens entries ++ [ascii ")"])

def entriesTokens : DirEntries → List Bytes
  | [] => []
  | (name, tree) :: rest =>
    [ascii "entry", ascii "(", ascii "name", name, ascii "node"] ++
      (tokens tree ++ (ascii ")" :: entriesTokens rest))

end

def archive (tree : FileTree) : Bytes := writeStrings (narVersionMagic1 :: tokens tree)

theorem unhack_off (path : TreePath) (dumped : List Dumped) (unhacked : List (Bytes × Dumped)) :
    unhack false path dumped unhacked =
      .ok (dumped.foldl (fun map entry => emplace entry.name entry map) unhacked) := by
  induction dumped generalizing unhacked with
  | nil => rfl
  | cons entry rest ih =>
    exact ih _

def keyed (entry : Dumped) : Bytes × Dumped := (entry.name, entry)

theorem unhack_ascending (path : TreePath) (dumped : List Dumped)
    (ascending : Ascending (dumped.map keyed)) :
    unhack false path dumped [] = .ok (dumped.map keyed) := by
  have rebuilt := foldl_upsert_ascending (fun _ value old => Option.getD old value)
    (by intro key value; rfl) (dumped.map keyed) ascending
  rw [foldl_map] at rebuilt
  rw [unhack_off]
  exact congrArg Except.ok rebuilt

theorem dump_entries_keys (path : TreePath) (entries : DirEntries) :
    ((dumpEntries false defaultPathFilter path entries).map keyed).map Prod.fst =
      entries.map Prod.fst := by
  induction entries with
  | nil => rfl
  | cons first rest ih =>
    rw [dumpEntries, map_cons, map_cons, map_cons, ih]
    rfl

mutual

theorem dump_tokens (path : TreePath) (tree : FileTree) (wellFormed : WellFormed tree) :
    dump false defaultPathFilter path tree = .ok (writeStrings (tokens tree)) := by
  cases tree with
  | regular executable contents =>
    cases executable <;>
      simp [dump, tokens, executableTokens, dumpContents, writeStrings, writeString]
  | symlink target => simp [dump, tokens, writeStrings]
  | directory entries =>
    have body := dump_entries_tokens path entries wellFormed.2
    rw [dump, unhack_ascending path _ (ascending_of_keys (dump_entries_keys path entries) wellFormed.1)]
    simp only [body]
    simp [tokens, writeStrings]

theorem dump_entries_tokens (path : TreePath) (entries : DirEntries)
    (wellFormed : EntriesWellFormed entries) :
    dumpUnhacked defaultPathFilter path
        ((dumpEntries false defaultPathFilter path entries).map keyed) =
      .ok (writeStrings (entriesTokens entries)) := by
  match entries with
  | [] => rfl
  | (name, tree) :: rest =>
    have here := dump_tokens (path ++ [name]) tree wellFormed.2.2.1
    have later := dump_entries_tokens path rest wellFormed.2.2.2
    have passes : defaultPathFilter (path ++ [name]) = true := rfl
    rw [dumpEntries, map_cons, keyed, dumpUnhacked, if_pos passes]
    simp only [here, later]
    simp [entriesTokens, writeStrings]

end

theorem dump_path_archive (tree : FileTree) (wellFormed : WellFormed tree) :
    dumpPath false defaultPathFilter tree = .ok (archive tree) := by
  rw [dumpPath, dump_tokens [] tree wellFormed, archive, write_strings_cons]

theorem ascii_tag_short (tag : Bytes) (short : tag.length ≤ 16) : tag.length < sizeLimit := by
  unfold sizeLimit
  omega

theorem get_string_reads (data : Bytes) (bounded : data.length < sizeLimit) :
    Reads List.flatten getString (writeString data) data :=
  read_string_reads data (sizeLimit - 1) (by omega) bounded

theorem expect_tag_reads (tag : Bytes) (short : tag.length ≤ 16) :
    Reads List.flatten (expectTag tag) (writeString tag) () := by
  apply reads_map (get_string_reads tag (ascii_tag_short tag short))
  rw [if_pos rfl]
  exact reads_pure ()

theorem copy_contents_reads (bytes : Bytes) :
    ∃ ops, ops.any marksExecutable = false ∧ ops.flatMap written = bytes ∧
      Reads List.flatten (copyContents bytes.length) bytes ops := by
  induction size : bytes.length using Nat.strongRecOn generalizing bytes with
  | _ size ih =>
    subst size
    rw [copyContents]
    by_cases empty : bytes.length = 0
    · rw [if_pos empty]
      obtain rfl := length_eq_zero_iff.mp empty
      exact ⟨[], rfl, rfl, reads_pure []⟩
    rw [if_neg empty]
    have front := read_bytes_reads (bytes.take (min 65536 bytes.length))
    have frontSize : (bytes.take (min 65536 bytes.length)).length = min 65536 bytes.length :=
      length_take_of_le (Nat.min_le_right _ _)
    rw [frontSize] at front
    have backSize : (bytes.drop (min 65536 bytes.length)).length =
        bytes.length - min 65536 bytes.length := length_drop
    obtain ⟨ops, plain, flat, reads⟩ :=
      ih _ (by omega) (bytes.drop (min 65536 bytes.length)) backSize
    refine ⟨.data (bytes.take (min 65536 bytes.length)) :: ops, ?_, ?_, ?_⟩
    · rw [any_cons, plain]
      rfl
    · rw [flatMap_cons, flat]
      exact take_append_drop _ _
    · apply reads_congr _ (take_append_drop (min 65536 bytes.length) bytes)
      apply reads_bind front
      exact reads_map reads (reads_pure _)

theorem parse_file_end_reads (contents : Bytes) (bounded : contents.length < sizeLimit) :
    ∃ ops, ops.any marksExecutable = false ∧ ops.flatMap written = contents ∧
      Reads List.flatten (parseFileEnd (ascii "contents"))
        (writeString contents ++ writeString (ascii ")")) ops := by
  obtain ⟨ops, plain, flat, reads⟩ := copy_contents_reads contents
  refine ⟨.preallocateContents contents.length :: ops, ?_, ?_, ?_⟩
  · rw [any_cons, plain]
    rfl
  · rw [flatMap_cons, flat]
    rfl
  apply reads_bind
  · rw [writeString]
    apply reads_bind (reads_num .unsignedLong contents.length bounded)
    apply reads_bind reads
    exact reads_map (read_padding_reads contents.length) (reads_pure _)
  exact reads_map (expect_tag_reads (ascii ")") (by decide)) (reads_pure _)

theorem parse_regular_reads (executable : Bool) (contents : Bytes)
    (bounded : contents.length < sizeLimit) :
    ∃ ops, ops.any marksExecutable = executable ∧ ops.flatMap written = contents ∧
      Reads List.flatten parseRegular
        (writeStrings (executableTokens executable ++ [ascii "contents", contents, ascii ")"]))
        ops := by
  obtain ⟨ops, plain, flat, reads⟩ := parse_file_end_reads contents bounded
  have contentsTag := get_string_reads (ascii "contents") (ascii_tag_short _ (by decide))
  cases executable with
  | false =>
    refine ⟨ops, plain, flat, ?_⟩
    apply reads_bind contentsTag
    rw [if_neg (by decide)]
    exact reads
  | true =>
    refine ⟨.isExecutable :: ops, rfl, ?_, ?_⟩
    · rw [List.flatMap_cons, flat]
      rfl
    simp only [executableTokens]
    apply reads_bind (get_string_reads (ascii "executable") (ascii_tag_short _ (by decide)))
    apply reads_bind (get_string_reads [] (ascii_tag_short _ (by decide)))
    apply reads_bind contentsTag
    exact reads_map reads (reads_pure _)

theorem hack_name_off (names : CaseNames) (name : Bytes) :
    hackName false names name = pure (name, names) := rfl

theorem entry_name_after_nil {entries : DirEntries}
    (wellFormed : EntriesWellFormed entries) : ∀ entry ∈ entries, [] < entry.1 := by
  induction entries with
  | nil =>
    intro entry member
    cases member
  | cons first rest ih =>
    intro entry member
    rcases mem_cons.mp member with same | inRest
    · rw [same]
      obtain ⟨head, tail, nameEq⟩ := exists_cons_of_ne_nil wellFormed.1.1
      rw [nameEq]
      exact nil_lt_cons head tail
    · exact ih wellFormed.2.2.2 entry inRest

mutual

theorem parse_reads (tree : FileTree) (wellFormed : WellFormed tree) (path : TreePath)
    (depth : Nat) (enough : (tokens tree).length ≤ depth) :
    ∃ calls, calls.map created = listing path tree ∧
      Reads List.flatten (parse false depth path) (writeStrings (tokens tree)) calls := by
  have opening := expect_tag_reads (ascii "(") (by decide)
  have typeTag := expect_tag_reads (ascii "type") (by decide)
  have positive : 0 < (tokens tree).length := by
    cases tree <;> simp [tokens]
  obtain ⟨depth, rfl⟩ := Nat.exists_eq_add_one_of_ne_zero (Nat.ne_of_gt (positive.trans_le enough))
  cases tree with
  | regular executable contents =>
    obtain ⟨ops, marks, flat, reads⟩ := parse_regular_reads executable contents wellFormed
    refine ⟨[.createRegularFile path ops], ?_, ?_⟩
    · simp [created, marks, flat, listing]
    rw [tokens]
    apply reads_bind opening
    apply reads_bind typeTag
    apply reads_bind (get_string_reads (ascii "regular") (ascii_tag_short _ (by decide)))
    exact reads_map reads (reads_pure _)
  | symlink target =>
    refine ⟨[.createSymlink path target], rfl, ?_⟩
    apply reads_bind opening
    apply reads_bind typeTag
    apply reads_bind (get_string_reads (ascii "symlink") (ascii_tag_short _ (by decide)))
    apply reads_bind (expect_tag_reads (ascii "target") (by decide))
    apply reads_bind (get_string_reads target wellFormed)
    exact reads_map (expect_tag_reads (ascii ")") (by decide)) (reads_pure _)
  | directory entries =>
    obtain ⟨calls, same, reads⟩ := parse_entries_reads entries wellFormed.2 wellFormed.1 path
      [] [] (entry_name_after_nil wellFormed.2) depth (by
        simp only [tokens, length_append, length_cons] at enough
        omega)
    refine ⟨.createDirectory path :: calls, ?_, ?_⟩
    · rw [map_cons, same, created, listing]
    rw [parse]
    apply reads_bind opening
    apply reads_bind typeTag
    apply reads_bind (get_string_reads (ascii "directory") (ascii_tag_short _ (by decide)))
    exact reads_map reads (reads_pure _)

theorem parse_entries_reads (entries : DirEntries)
    (wellFormed : EntriesWellFormed entries) (ascending : Ascending entries) (path : TreePath)
    (names : CaseNames) (prevName : Bytes) (later : ∀ entry ∈ entries, prevName < entry.1)
    (depth : Nat) (enough : (entriesTokens entries).length < depth) :
    ∃ calls, calls.map created = entriesListing path entries ∧
      Reads List.flatten (parseEntries false depth path names prevName)
        (writeStrings (entriesTokens entries ++ [ascii ")"])) calls := by
  obtain ⟨depth, rfl⟩ : ∃ below, depth = below + 1 := Nat.exists_eq_add_of_le' (by omega)
  have closing := expect_tag_reads (ascii ")") (by decide)
  match entries with
  | [] =>
    refine ⟨[], rfl, ?_⟩
    apply reads_bind (get_string_reads (ascii ")") (ascii_tag_short _ (by decide)))
    exact reads_pure []
  | (name, tree) :: rest =>
    obtain ⟨validName, nameBound, treeFine, restFine⟩ := wellFormed
    obtain ⟨above, restAscending⟩ := List.pairwise_cons.mp ascending
    simp only [entriesTokens, List.length_append, List.length_cons] at enough
    obtain ⟨calls, callsSame, callsRead⟩ := parse_reads tree treeFine (path ++ [name]) depth
      (by omega)
    obtain ⟨more, moreSame, moreRead⟩ := parse_entries_reads rest restFine restAscending path
      names name above depth (by omega)
    refine ⟨calls ++ more, ?_, ?_⟩
    · rw [List.map_append, callsSame, moreSame, entriesListing]
    rw [entriesTokens]
    simp only [List.append_assoc, write_strings_cons, write_strings_append]
    apply reads_bind (get_string_reads (ascii "entry") (ascii_tag_short _ (by decide)))
    apply reads_bind (expect_tag_reads (ascii "(") (by decide))
    apply reads_bind (expect_tag_reads (ascii "name") (by decide))
    apply reads_bind (get_string_reads name nameBound)
    rw [if_pos validName, if_neg (not_le_of_gt (later (name, tree) (by simp))), hack_name_off,
      pure_bind]
    apply reads_bind (expect_tag_reads (ascii "node") (by decide))
    apply reads_bind callsRead
    apply reads_bind closing
    simp only [write_strings_append] at moreRead
    exact reads_map moreRead (reads_pure _)

end

mutual

theorem listing_below (path : TreePath) (tree : FileTree) :
    ∀ item ∈ listing path tree, path <+: item.1 := by
  cases tree with
  | regular | symlink =>
    intro item member
    rw [mem_singleton.mp member]
  | directory entries =>
    intro item member
    rcases mem_cons.mp member with same | inside
    · rw [same]
    · obtain ⟨entry, _, below⟩ := entries_listing_below path entries item inside
      exact (prefix_append path [entry.1]).trans below

theorem entries_listing_below (path : TreePath) (entries : DirEntries) :
    ∀ item ∈ entriesListing path entries, ∃ entry ∈ entries, path ++ [entry.1] <+: item.1 := by
  match entries with
  | [] =>
    intro item member
    cases member
  | (name, tree) :: rest =>
    intro item member
    rcases mem_append.mp member with here | later
    · exact ⟨(name, tree), by simp, listing_below (path ++ [name]) tree item here⟩
    · obtain ⟨entry, inRest, below⟩ := entries_listing_below path rest item later
      exact ⟨entry, by simp [inRest], below⟩

end

theorem listing_head (path : TreePath) (tree : FileTree) :
    ∃ node rest, listing path tree = (path, node) :: rest := by
  cases tree with
  | regular | symlink => exact ⟨_, _, rfl⟩
  | directory entries => exact ⟨_, _, listing.eq_3 path entries⟩

/-- Two lists that begin with items satisfying a predicate and go on with items
that do not are split at the same place. -/
theorem append_split_unique {Item : Type} (inFront : Item → Prop)
    {front otherFront back otherBack : List Item}
    (frontIn : ∀ item ∈ front, inFront item) (otherIn : ∀ item ∈ otherFront, inFront item)
    (backOut : ∀ item ∈ back, ¬ inFront item) (otherOut : ∀ item ∈ otherBack, ¬ inFront item)
    (same : front ++ back = otherFront ++ otherBack) : front = otherFront ∧ back = otherBack := by
  classical
  have filtered : ∀ front back : List Item, (∀ item ∈ front, inFront item) →
      (∀ item ∈ back, ¬ inFront item) →
      (front ++ back).filter (fun item => decide (inFront item)) = front := by
    intro front back frontIn backOut
    rw [filter_append, filter_eq_self.mpr (by simpa using frontIn),
      filter_eq_nil_iff.mpr (by simpa using backOut), append_nil]
  have fronts : front = otherFront := by
    rw [← filtered front back frontIn backOut, same, filtered otherFront otherBack otherIn otherOut]
  subst fronts
  exact ⟨rfl, append_cancel_left same⟩

theorem entries_listing_outside {path : TreePath} {name : Bytes}
    {rest : DirEntries} (above : ∀ entry ∈ rest, name < entry.1) :
    ∀ item ∈ entriesListing path rest, ¬ path ++ [name] <+: item.1 := by
  intro item member below
  obtain ⟨entry, inRest, other⟩ := entries_listing_below path rest item member
  have same : path ++ [name] = path ++ [entry.1] :=
    prefix_of_prefix_length_le below other (by simp) |>.eq_of_length (by simp)
  have names : [name] = [entry.1] := append_cancel_left same
  have less := above entry inRest
  rw [singleton_inj.mp names] at less
  exact lt_irrefl _ less

mutual

theorem listing_injective (path : TreePath) (left right : FileTree)
    (leftFine : WellFormed left) (rightFine : WellFormed right)
    (same : listing path left = listing path right) : left = right := by
  match left, right with
  | .regular _ _, .regular _ _ =>
    simp only [listing, cons.injEq, Prod.mk.injEq, FsNode.regular.injEq] at same
    rw [same.1.2.1, same.1.2.2]
  | .symlink _, .symlink _ =>
    simp only [listing, cons.injEq, Prod.mk.injEq, FsNode.symlink.injEq] at same
    rw [same.1.2]
  | .directory entries, .directory others =>
    rw [entries_listing_injective path entries others leftFine.2 rightFine.2 leftFine.1
      rightFine.1 (cons.inj same).2]
  | .regular _ _, .symlink _ => simp [listing] at same
  | .regular _ _, .directory _ => simp [listing] at same
  | .symlink _, .regular _ _ => simp [listing] at same
  | .symlink _, .directory _ => simp [listing] at same
  | .directory _, .regular _ _ => simp [listing] at same
  | .directory _, .symlink _ => simp [listing] at same

theorem entries_listing_injective (path : TreePath) (left right : DirEntries)
    (leftFine : EntriesWellFormed left) (rightFine : EntriesWellFormed right)
    (leftAscending : Ascending left) (rightAscending : Ascending right)
    (same : entriesListing path left = entriesListing path right) : left = right := by
  match left, right with
  | [], [] => rfl
  | [], (name, tree) :: _ =>
    obtain ⟨node, more, headEq⟩ := listing_head (path ++ [name]) tree
    simp [entriesListing, headEq] at same
  | (name, tree) :: _, [] =>
    obtain ⟨node, more, headEq⟩ := listing_head (path ++ [name]) tree
    simp [entriesListing, headEq] at same
  | (name, tree) :: rest, (other, otherTree) :: otherRest =>
    rw [entriesListing, entriesListing] at same
    obtain ⟨above, restAscending⟩ := pairwise_cons.mp leftAscending
    obtain ⟨otherAbove, otherAscending⟩ := pairwise_cons.mp rightAscending
    have names : name = other := by
      obtain ⟨node, more, headEq⟩ := listing_head (path ++ [name]) tree
      obtain ⟨otherNode, otherMore, otherEq⟩ := listing_head (path ++ [other]) otherTree
      rw [headEq, otherEq] at same
      have paths := congrArg Prod.fst (cons.inj same).1
      exact singleton_inj.mp (append_cancel_left paths)
    subst names
    obtain ⟨heads, tails⟩ := append_split_unique (fun item => path ++ [name] <+: item.1)
      (listing_below (path ++ [name]) tree) (listing_below (path ++ [name]) otherTree)
      (entries_listing_outside above) (entries_listing_outside otherAbove) same
    rw [listing_injective (path ++ [name]) tree otherTree leftFine.2.2.1 rightFine.2.2.1 heads,
      entries_listing_injective path rest otherRest leftFine.2.2.2 rightFine.2.2.2
        restAscending otherAscending tails]

end

theorem token_count_le (strings : List Bytes) : strings.length ≤ (writeStrings strings).length := by
  induction strings with
  | nil => exact Nat.zero_le _
  | cons head tail ih =>
    have size := write_string_size head
    rw [write_strings_cons, length_cons, length_append]
    omega

theorem parse_dump_archive (tree : Tree) {source : Source} {rest : Bytes}
    (input : source.flatten = archive tree.val ++ rest) :
    ∃ calls final, parseDump false source = .ok (calls, final) ∧ final.flatten = rest ∧
      Describes calls tree.val := by
  have inputSize := congrArg length input
  obtain ⟨middle, versionRead, remaining⟩ := read_string_reads narVersionMagic1
    narVersionMagic1.length (le_refl _) (ascii_tag_short _ (by decide)) source _ input
  have enough : (tokens tree.val).length ≤ source.flatten.length + 1 := by
    have counted := token_count_le (narVersionMagic1 :: tokens tree.val)
    rw [archive, length_append] at inputSize
    rw [length_cons] at counted
    omega
  obtain ⟨calls, same, reads⟩ := parse_reads tree.val tree.property [] _ enough
  obtain ⟨final, ran, remains⟩ := reads middle rest remaining
  refine ⟨calls, final, ?_, remains, same⟩
  rw [parseDump, versionRead]
  exact ran

theorem describes_unique {calls : List SinkCall} {left right : Tree}
    (leftDescribed : Describes calls left.val) (rightDescribed : Describes calls right.val) :
    left = right := by
  apply Subtype.ext
  apply listing_injective [] left.val right.val left.property right.property
  rw [← leftDescribed]
  exact rightDescribed

/-- Parsing what `dumpPath` wrote succeeds whatever follows and however the
bytes arrive, stops where the archive ends, and creates the dumped tree. -/
theorem parse_dump_round_trip (tree : Tree) :
    ∃ bytes, dumpPath false defaultPathFilter tree.val = .ok bytes ∧
      ∀ (source : Source) (rest : Bytes), source.flatten = bytes ++ rest →
        ∃ calls final, parseDump false source = .ok (calls, final) ∧
          final.flatten = rest ∧ Describes calls tree.val ∧
          ∀ other : Tree, Describes calls other.val → other = tree := by
  refine ⟨archive tree.val, dump_path_archive tree.val tree.property, ?_⟩
  intro source rest input
  obtain ⟨calls, final, ran, remains, same⟩ := parse_dump_archive tree input
  refine ⟨calls, final, ran, remains, same, ?_⟩
  intro other described
  exact describes_unique described same

/-- No archive is the beginning of another one: of a stream that begins with an archive, the
tree and the rest are determined. -/
theorem archives_delimited (left right : Tree) (more rest : Bytes) : ∃ first second,
    dumpPath false defaultPathFilter left.val = .ok first ∧
    dumpPath false defaultPathFilter right.val = .ok second ∧
    (first ++ more = second ++ rest ↔ left = right ∧ more = rest) := by
  refine ⟨_, _, dump_path_archive _ left.property, dump_path_archive _ right.property, ?_⟩
  constructor
  · intro same
    obtain ⟨calls, final, ran, remains, described⟩ := parse_dump_archive left flatten_singleton
    obtain ⟨others, last, reran, ends, redescribed⟩ :=
      parse_dump_archive right (flatten_singleton.trans same)
    cases ran.symm.trans reran
    exact ⟨describes_unique described redescribed, remains.symm.trans ends⟩
  · rintro ⟨rfl, rfl⟩
    rfl

end Bsd.Util.ArchiveRoundTrip
