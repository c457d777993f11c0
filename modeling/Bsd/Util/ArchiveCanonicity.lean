import Bsd.Util.ArchiveRoundTrip

/-!
# What `parseDump` accepts

Every accepted archive is a sequence of strings of the shape `NodeTokens`. It
differs from what `dumpPath` writes in one respect: in the place of the string
`contents` of a regular file any other string is accepted, and the file is then
empty. The format description in the manual has no such files.
-/

namespace Bsd.Util.ArchiveCanonicity

open List Lib.Occurrences Lib.OrdMap Lib.Readers Util.Serialise Util.Archive Util.ArchiveRoundTrip

mutual

inductive NodeTokens : List Bytes → FileTree → Prop
  | regular (executable : Bool) (contents : Bytes) :
      NodeTokens (tokens (.regular executable contents)) (.regular executable contents)
  | untagged (executable : Bool) (tag : Bytes) (notContents : tag ≠ ascii "contents")
      (notExecutable : executable = false → tag ≠ ascii "executable") :
      NodeTokens
        ([ascii "(", ascii "type", ascii "regular"] ++ executableTokens executable ++
          [tag, ascii ")"])
        (.regular executable [])
  | symlink (target : Bytes) : NodeTokens (tokens (.symlink target)) (.symlink target)
  | directory (strings : List Bytes) (entries : DirEntries)
      (inside : EntriesTokens strings entries) :
      NodeTokens ([ascii "(", ascii "type", ascii "directory"] ++ (strings ++ [ascii ")"]))
        (.directory entries)

inductive EntriesTokens : List Bytes → DirEntries → Prop
  | nil : EntriesTokens [] []
  | cons (name : Bytes) (strings more : List Bytes) (tree : FileTree)
      (rest : DirEntries) (here : NodeTokens strings tree)
      (later : EntriesTokens more rest) :
      EntriesTokens
        ([ascii "entry", ascii "(", ascii "name", name, ascii "node"] ++
          (strings ++ (ascii ")" :: more)))
        ((name, tree) :: rest)

end

structure Consumed (source final : Source) (strings : List Bytes) : Prop where
  bounded : ∀ data ∈ strings, data.length < sizeLimit
  split : source.flatten = writeStrings strings ++ final.flatten

variable {source final : Source} {strings : List Bytes}

theorem Consumed.trans {middle : Source} {more : List Bytes}
    (first : Consumed source middle strings) (second : Consumed middle final more) :
    Consumed source final (strings ++ more) where
  bounded := by
    intro data member
    rcases mem_append.mp member with inFirst | inSecond
    · exact first.bounded data inFirst
    · exact second.bounded data inSecond
  split := by
    rw [first.split, second.split, write_strings_append, append_assoc]

theorem get_string_ok {data : Bytes} (ran : getString source = .ok (data, final)) :
    Consumed source final [data] := by
  obtain ⟨bounded, split⟩ := read_string_ok ran
  constructor
  · intro other member
    rw [mem_singleton.mp member]
    exact bounded
  · rw [split, write_strings_cons, write_strings_nil, append_nil]

variable {tag : Bytes}

theorem expect_tag_ok {value : Unit} (ran : expectTag tag source = .ok (value, final)) :
    Consumed source final [tag] := by
  obtain ⟨data, middle, read, checked⟩ := bind_ok ran
  obtain ⟨rfl, done⟩ := ite_throw_ok checked
  obtain ⟨_, rfl⟩ := pure_ok done
  exact get_string_ok read

variable {ops : List FileOp}

theorem copy_contents_ok {left : Nat} (ran : copyContents left source = .ok (ops, final)) :
    ops.any marksExecutable = false ∧ (ops.flatMap written).length = left ∧
      source.flatten = ops.flatMap written ++ final.flatten := by
  induction left using Nat.strongRecOn generalizing source ops with
  | _ left ih =>
    rw [copyContents] at ran
    by_cases empty : left = 0
    · rw [if_pos empty] at ran
      obtain ⟨rfl, rfl⟩ := pure_ok ran
      exact ⟨rfl, empty.symm, rfl⟩
    rw [if_neg empty] at ran
    obtain ⟨bytes, middle, filled, rest⟩ := bind_ok ran
    obtain ⟨more, last, copied, done⟩ := bind_ok rest
    obtain ⟨rfl, rfl⟩ := pure_ok done
    obtain ⟨size, split⟩ := fill_ok filled
    obtain ⟨plain, restSize, restSplit⟩ := ih _ (by omega) copied
    refine ⟨?_, ?_, ?_⟩
    · rw [any_cons, plain]
      rfl
    · rw [flatMap_cons, length_append, written]
      omega
    · rw [flatMap_cons, split, restSplit, written, append_assoc]

theorem parse_contents_ok (ran : parseContents source = .ok (ops, final)) :
    ops.any marksExecutable = false ∧ Consumed source final [ops.flatMap written] := by
  obtain ⟨size, afterSize, sizeRead, rest⟩ := bind_ok ran
  obtain ⟨copied, afterCopy, copyRead, padded⟩ := bind_ok rest
  obtain ⟨_, afterPadding, padRead, done⟩ := bind_ok padded
  obtain ⟨rfl, rfl⟩ := pure_ok done
  obtain ⟨sizeBound, sizeSplit⟩ := read_num_ok sizeRead
  obtain ⟨plain, copySize, copySplit⟩ := copy_contents_ok copyRead
  have padSplit := read_padding_ok padRead
  have writes : (FileOp.preallocateContents size :: copied).flatMap written =
      copied.flatMap written := by
    rfl
  refine ⟨?_, ?_, ?_⟩
  · rw [any_cons, plain]
    rfl
  · intro data member
    rw [mem_singleton.mp member, writes, copySize]
    exact sizeBound
  · rw [writes, sizeSplit, copySplit, padSplit, write_strings_cons, write_strings_nil,
      writeString, copySize]
    simp

/-- Either the tag is `contents` and the file has contents, or it is any other
string and the file is empty. -/
theorem parse_file_end_ok (ran : parseFileEnd tag source = .ok (ops, final)) :
    ops.any marksExecutable = false ∧
      ((tag = ascii "contents" ∧ Consumed source final [ops.flatMap written, ascii ")"]) ∨
        (tag ≠ ascii "contents" ∧ ops.flatMap written = [] ∧
          Consumed source final [ascii ")"])) := by
  rw [parseFileEnd] at ran
  by_cases tagged : tag = ascii "contents"
  · rw [if_pos tagged] at ran
    obtain ⟨inner, middle, innerRead, rest⟩ := bind_ok ran
    obtain ⟨_, last, closed, done⟩ := bind_ok rest
    obtain ⟨rfl, rfl⟩ := pure_ok done
    obtain ⟨plain, consumed⟩ := parse_contents_ok innerRead
    exact ⟨plain, .inl ⟨tagged, consumed.trans (expect_tag_ok closed)⟩⟩
  · rw [if_neg tagged, pure_bind] at ran
    obtain ⟨_, last, closed, done⟩ := bind_ok ran
    obtain ⟨rfl, rfl⟩ := pure_ok done
    exact ⟨rfl, .inr ⟨tagged, rfl, expect_tag_ok closed⟩⟩

/-- The strings after `( type regular` and the file that the calls describe. -/
def RegularTokens (strings : List Bytes) (executable : Bool) (contents : Bytes) : Prop :=
  strings = executableTokens executable ++ [ascii "contents", contents, ascii ")"] ∨
    ∃ tag, tag ≠ ascii "contents" ∧ (executable = false → tag ≠ ascii "executable") ∧
      contents = [] ∧ strings = executableTokens executable ++ [tag, ascii ")"]

theorem parse_regular_ok (ran : parseRegular source = .ok (ops, final)) :
    ∃ strings, RegularTokens strings (ops.any marksExecutable) (ops.flatMap written) ∧
      Consumed source final strings := by
  obtain ⟨tag, afterTag, tagRead, rest⟩ := bind_ok ran
  have tagConsumed := get_string_ok tagRead
  by_cases marked : tag = ascii "executable"
  · rw [if_pos marked] at rest
    obtain ⟨s2, afterS2, s2Read, rest⟩ := bind_ok rest
    have s2Consumed := get_string_ok s2Read
    obtain ⟨empty, rest⟩ := ite_throw_ok rest
    obtain ⟨second, afterSecond, secondRead, rest⟩ := bind_ok rest
    obtain ⟨inner, last, innerRead, done⟩ := bind_ok rest
    obtain ⟨rfl, rfl⟩ := pure_ok done
    have secondConsumed := get_string_ok secondRead
    obtain ⟨_, alternatives⟩ := parse_file_end_ok innerRead
    have front := (tagConsumed.trans s2Consumed).trans secondConsumed
    rw [marked, empty] at front
    rcases alternatives with ⟨same, consumed⟩ | ⟨differs, nothing, consumed⟩
    · rw [same] at front
      exact ⟨_, .inl rfl, front.trans consumed⟩
    · exact ⟨_, .inr ⟨second, differs, nofun, nothing, rfl⟩, front.trans consumed⟩
  · rw [if_neg marked] at rest
    obtain ⟨plain, alternatives⟩ := parse_file_end_ok rest
    rw [plain]
    rcases alternatives with ⟨same, consumed⟩ | ⟨differs, nothing, consumed⟩
    · rw [same] at tagConsumed
      exact ⟨_, .inl rfl, tagConsumed.trans consumed⟩
    · exact ⟨_, .inr ⟨tag, differs, fun _ => marked, nothing, rfl⟩, tagConsumed.trans consumed⟩

variable {executable : Bool} {contents : Bytes}

theorem regular_tokens_node (regular : RegularTokens strings executable contents) :
    NodeTokens ([ascii "(", ascii "type", ascii "regular"] ++ strings)
      (.regular executable contents) := by
  rcases regular with same | ⟨tag, notContents, notExecutable, nothing, same⟩
  · have node := NodeTokens.regular executable contents
    rw [same]
    exact node
  · have node := NodeTokens.untagged executable tag notContents notExecutable
    rw [same, nothing]
    exact node

structure ParsedNode (path : TreePath) (source final : Source) (calls : List SinkCall)
    (strings : List Bytes) (tree : FileTree) : Prop where
  shape : NodeTokens strings tree
  fine : WellFormed tree
  consumed : Consumed source final strings
  described : calls.map created = listing path tree

structure ParsedEntries (path : TreePath) (prevName : Bytes) (source final : Source)
    (calls : List SinkCall) (strings : List Bytes) (entries : DirEntries) : Prop where
  shape : EntriesTokens strings entries
  fine : EntriesWellFormed entries
  ascending : Ascending entries
  above : ∀ entry ∈ entries, prevName < entry.1
  consumed : Consumed source final (strings ++ [ascii ")"])
  described : calls.map created = entriesListing path entries

theorem parse_step (depth : Nat) (loop : ∀ path names prevName source calls final,
      parseEntries false depth path names prevName source = .ok (calls, final) →
        ∃ strings entries, ParsedEntries path prevName source final calls strings entries)
    (path : TreePath) (source final : Source) (calls : List SinkCall)
    (ran : parse false (depth + 1) path source = .ok (calls, final)) :
    ∃ strings tree, ParsedNode path source final calls strings tree := by
  obtain ⟨_, afterOpen, openRead, ran⟩ := bind_ok ran
  obtain ⟨_, afterType, typeRead, ran⟩ := bind_ok ran
  obtain ⟨type, afterKind, kindRead, ran⟩ := bind_ok ran
  have front := ((expect_tag_ok openRead).trans (expect_tag_ok typeRead)).trans
    (get_string_ok kindRead)
  by_cases isRegular : type = ascii "regular"
  · rw [if_pos isRegular] at ran
    obtain ⟨ops, last, regularRead, done⟩ := bind_ok ran
    obtain ⟨rfl, rfl⟩ := pure_ok done
    obtain ⟨strings, regular, consumed⟩ := parse_regular_ok regularRead
    rw [isRegular] at front
    refine ⟨_, _, regular_tokens_node regular, ?_, front.trans consumed, rfl⟩
    rcases regular with same | ⟨_, _, _, nothing, _⟩
    · apply consumed.bounded
      rw [same]
      simp
    · rw [nothing]
      exact ascii_tag_short _ (Nat.zero_le _)
  · rw [if_neg isRegular] at ran
    by_cases isDirectory : type = ascii "directory"
    · rw [if_pos isDirectory] at ran
      obtain ⟨inner, last, loopRead, done⟩ := bind_ok ran
      obtain ⟨rfl, rfl⟩ := pure_ok done
      obtain ⟨strings, entries, parsed⟩ := loop _ _ _ _ _ _ loopRead
      rw [isDirectory] at front
      refine ⟨_, _, NodeTokens.directory strings entries parsed.shape, ?_,
        front.trans parsed.consumed, ?_⟩
      · rw [WellFormed]
        exact ⟨parsed.ascending, parsed.fine⟩
      · rw [map_cons, parsed.described, created, listing]
    · rw [if_neg isDirectory] at ran
      obtain ⟨isSymlink, ran⟩ := ite_throw_ok ran
      obtain ⟨_, afterTarget, targetTag, ran⟩ := bind_ok ran
      obtain ⟨target, afterValue, targetRead, ran⟩ := bind_ok ran
      obtain ⟨_, last, closed, done⟩ := bind_ok ran
      obtain ⟨rfl, rfl⟩ := pure_ok done
      rw [isSymlink] at front
      have targetConsumed := get_string_ok targetRead
      refine ⟨_, _, NodeTokens.symlink target, ?_,
        ((front.trans (expect_tag_ok targetTag)).trans targetConsumed).trans
          (expect_tag_ok closed), rfl⟩
      exact targetConsumed.bounded target (by simp)

theorem parse_entries_step (depth : Nat) (node : ∀ path source final calls,
      parse false depth path source = .ok (calls, final) →
        ∃ strings tree, ParsedNode path source final calls strings tree)
    (loop : ∀ path names prevName source calls final,
      parseEntries false depth path names prevName source = .ok (calls, final) →
        ∃ strings entries, ParsedEntries path prevName source final calls strings entries)
    (path : TreePath) (names : CaseNames) (prevName : Bytes) (source : Source)
    (calls : List SinkCall) (final : Source)
    (ran : parseEntries false (depth + 1) path names prevName source = .ok (calls, final)) :
    ∃ strings entries, ParsedEntries path prevName source final calls strings entries := by
  obtain ⟨tag, afterTag, tagRead, ran⟩ := bind_ok ran
  have tagConsumed := get_string_ok tagRead
  by_cases closing : tag = ascii ")"
  · rw [if_pos closing] at ran
    obtain ⟨rfl, rfl⟩ := pure_ok ran
    rw [closing] at tagConsumed
    refine ⟨[], [], EntriesTokens.nil, ?_, List.Pairwise.nil, ?_, tagConsumed, rfl⟩
    · rw [EntriesWellFormed]
      trivial
    · intro entry member
      cases member
  · rw [if_neg closing] at ran
    obtain ⟨isEntry, ran⟩ := ite_throw_ok ran
    obtain ⟨_, afterOpen, openRead, ran⟩ := bind_ok ran
    obtain ⟨_, afterNameTag, nameTagRead, ran⟩ := bind_ok ran
    obtain ⟨name, afterName, nameRead, ran⟩ := bind_ok ran
    have nameConsumed := get_string_ok nameRead
    obtain ⟨valid, ran⟩ := ite_throw_ok ran
    obtain ⟨unsorted, ran⟩ := throw_ite_ok ran
    rw [hack_name_off, pure_bind] at ran
    obtain ⟨_, afterNode, nodeTagRead, ran⟩ := bind_ok ran
    obtain ⟨inner, afterInner, innerRead, ran⟩ := bind_ok ran
    obtain ⟨_, afterClose, closeRead, ran⟩ := bind_ok ran
    obtain ⟨more, last, moreRead, done⟩ := bind_ok ran
    obtain ⟨rfl, rfl⟩ := pure_ok done
    obtain ⟨strings, tree, parsed⟩ := node _ _ _ _ innerRead
    obtain ⟨moreStrings, rest, parsedRest⟩ := loop _ _ _ _ _ _ moreRead
    rw [isEntry] at tagConsumed
    have front := ((tagConsumed.trans (expect_tag_ok openRead)).trans
      (expect_tag_ok nameTagRead)).trans (nameConsumed.trans (expect_tag_ok nodeTagRead))
    have consumed := front.trans (parsed.consumed.trans
      ((expect_tag_ok closeRead).trans parsedRest.consumed))
    have sorted : prevName < name := lt_of_not_ge unsorted
    refine ⟨_, _, EntriesTokens.cons name strings moreStrings tree rest parsed.shape
      parsedRest.shape, ?_, ?_, ?_, ?_, ?_⟩
    · rw [EntriesWellFormed]
      exact ⟨valid, nameConsumed.bounded name (by simp), parsed.fine, parsedRest.fine⟩
    · exact pairwise_cons.mpr ⟨parsedRest.above, parsedRest.ascending⟩
    · intro entry member
      rcases mem_cons.mp member with same | inRest
      · rw [same]
        exact sorted
      · exact lt_trans sorted (parsedRest.above entry inRest)
    · simpa using consumed
    · rw [map_append, parsed.described, parsedRest.described, entriesListing]

theorem parse_ok (depth : Nat) :
    (∀ path source final calls, parse false depth path source = .ok (calls, final) →
        ∃ strings tree, ParsedNode path source final calls strings tree) ∧
      ∀ path names prevName source calls final,
        parseEntries false depth path names prevName source = .ok (calls, final) →
          ∃ strings entries, ParsedEntries path prevName source final calls strings entries := by
  induction depth with
  | zero =>
    constructor
    · intro path source final calls ran
      exact absurd ran throw_not_ok
    · intro path names prevName source calls final ran
      exact absurd ran throw_not_ok
  | succ depth ih =>
    exact ⟨parse_step depth ih.2, parse_entries_step depth ih.1 ih.2⟩

/-- After the marker of an executable file: its value and the next tag. -/
def untaggedExecutable : List Bytes → Bool
  | _ :: tag :: _ => tag != ascii "contents"
  | _ => false

/-- A regular file begins here, and the string in the place of `contents` is
another one. -/
def untaggedHere : List Bytes → Bool
  | bracket :: key :: kind :: tag :: rest =>
    bracket == ascii "(" && key == ascii "type" && kind == ascii "regular" &&
      if tag = ascii "executable" then untaggedExecutable rest else tag != ascii "contents"
  | _ => false

/-- Every regular file among the strings of an archive has the tag `contents`. -/
def ContentsTagged : List Bytes → Prop
  | [] => True
  | head :: tail => untaggedHere (head :: tail) = false ∧ ContentsTagged tail

/-- The same of the bytes of an archive, which determine its strings. -/
def ArchiveTagged (bytes : Bytes) : Prop :=
  ∀ strings, (∀ data ∈ strings, data.length < sizeLimit) → bytes = writeStrings strings →
    ContentsTagged strings

theorem contents_tagged_cons {head : Bytes} {tail : List Bytes}
    (other : untaggedHere (head :: tail) = false) :
    ContentsTagged (head :: tail) ↔ ContentsTagged tail := by
  exact and_iff_right other

theorem untagged_here_bracket {head : Bytes} (tail : List Bytes) (other : head ≠ ascii "(") :
    untaggedHere (head :: tail) = false := by
  rcases tail with _ | ⟨second, _ | ⟨third, _ | ⟨fourth, rest⟩⟩⟩
  · rfl
  · rfl
  · rfl
  · rw [untaggedHere, beq_false_of_ne other]
    rfl

theorem untagged_here_key (head : Bytes) {second : Bytes} (tail : List Bytes)
    (other : second ≠ ascii "type") : untaggedHere (head :: second :: tail) = false := by
  rcases tail with _ | ⟨third, _ | ⟨fourth, rest⟩⟩
  · rfl
  · rfl
  · rw [untaggedHere, beq_false_of_ne other, Bool.and_false]
    rfl

theorem untagged_here_kind (head second : Bytes) {third : Bytes} (tail : List Bytes)
    (other : third ≠ ascii "regular") :
    untaggedHere (head :: second :: third :: tail) = false := by
  rcases tail with _ | ⟨fourth, rest⟩
  · rfl
  · rw [untaggedHere, beq_false_of_ne other, Bool.and_false]
    rfl

theorem contents_tagged_open {kind : Bytes} (tail : List Bytes) (other : kind ≠ ascii "regular")
    (closed : kind ≠ ascii "(") :
    ContentsTagged (ascii "(" :: ascii "type" :: kind :: tail) ↔ ContentsTagged tail := by
  rw [contents_tagged_cons (untagged_here_kind _ _ tail other),
    contents_tagged_cons (untagged_here_bracket _ (by decide)),
    contents_tagged_cons (untagged_here_bracket _ closed)]

theorem contents_tagged_entry (name : Bytes) (tail : List Bytes) : ContentsTagged
        ([ascii "entry", ascii "(", ascii "name", name, ascii "node"] ++ tail) ↔
      ContentsTagged tail := by
  rw [List.cons_append, contents_tagged_cons (untagged_here_bracket _ (by decide)),
    List.cons_append, List.cons_append, contents_tagged_cons (untagged_here_key _ _ (by decide)),
    contents_tagged_cons (untagged_here_bracket _ (by decide)), List.cons_append,
    List.cons_append, contents_tagged_cons (untagged_here_key _ _ (by decide)),
    contents_tagged_cons (untagged_here_bracket _ (by decide)), List.nil_append]

theorem contents_tagged_close (tail : List Bytes) :
    ContentsTagged (ascii ")" :: tail) ↔ ContentsTagged tail :=
  contents_tagged_cons (untagged_here_bracket _ (by decide))

theorem contents_tagged_value (name data : Bytes) (tail : List Bytes) (plain : name ≠ ascii "(") :
    ContentsTagged (name :: data :: ascii ")" :: tail) ↔ ContentsTagged tail := by
  rw [contents_tagged_cons (untagged_here_bracket _ plain),
    contents_tagged_cons (untagged_here_key _ _ (by decide)), contents_tagged_close]

theorem contents_tagged_regular (executable : Bool) (tag : Bytes) (tail : List Bytes)
    (notExecutable : executable = false → tag ≠ ascii "executable") :
    ContentsTagged ([ascii "(", ascii "type", ascii "regular"] ++ executableTokens executable ++
        tag :: tail) ↔
      tag = ascii "contents" ∧ ContentsTagged (tag :: tail) := by
  cases executable with
  | false =>
    change ContentsTagged (ascii "(" :: ascii "type" :: ascii "regular" :: tag :: tail) ↔ _
    have here : untaggedHere (ascii "(" :: ascii "type" :: ascii "regular" :: tag :: tail) =
        (tag != ascii "contents") := by
      rw [untaggedHere, if_neg (notExecutable rfl)]
      rfl
    rw [ContentsTagged, here, contents_tagged_cons (untagged_here_bracket _ (by decide)),
      contents_tagged_cons (untagged_here_bracket _ (by decide)), bne_eq_false_iff_eq]
  | true =>
    change ContentsTagged (ascii "(" :: ascii "type" :: ascii "regular" :: ascii "executable" ::
      [] :: tag :: tail) ↔ _
    have here : untaggedHere (ascii "(" :: ascii "type" :: ascii "regular" ::
        ascii "executable" :: [] :: tag :: tail) = (tag != ascii "contents") := by
      rfl
    rw [ContentsTagged, here, contents_tagged_cons (untagged_here_bracket _ (by decide)),
      contents_tagged_cons (untagged_here_bracket _ (by decide)),
      contents_tagged_cons (untagged_here_bracket _ (by decide)),
      contents_tagged_cons (untagged_here_bracket _ (by decide)), bne_eq_false_iff_eq]

mutual

theorem tokens_tagged (tree : FileTree) (rest : List Bytes) (later : ContentsTagged rest) :
    ContentsTagged (tokens tree ++ rest) := by
  match tree with
  | .regular executable contents =>
    rw [tokens, append_assoc]
    apply (contents_tagged_regular executable _ _ (fun _ => by decide)).mpr
    exact ⟨rfl, (contents_tagged_value _ _ _ (by decide)).mpr later⟩
  | .symlink target =>
    apply (contents_tagged_open _ (by decide) (by decide)).mpr
    exact (contents_tagged_value _ _ _ (by decide)).mpr later
  | .directory entries =>
    rw [tokens, append_assoc, append_assoc]
    apply (contents_tagged_open _ (by decide) (by decide)).mpr
    exact entries_tokens_tagged entries _ ((contents_tagged_close _).mpr later)

theorem entries_tokens_tagged (entries : DirEntries) (rest : List Bytes)
    (later : ContentsTagged rest) : ContentsTagged (entriesTokens entries ++ rest) := by
  match entries with
  | [] =>
    exact later
  | (name, tree) :: more =>
    rw [entriesTokens, append_assoc, append_assoc]
    apply (contents_tagged_entry name _).mpr
    apply tokens_tagged tree
    apply (contents_tagged_close _).mpr
    exact entries_tokens_tagged more rest later

end

mutual

/-- An accepted node with the tag everywhere is what `dumpPath` writes. -/
theorem node_tokens_canonical {strings : List Bytes} {tree : FileTree}
    (shape : NodeTokens strings tree) (rest : List Bytes)
    (tagged : ContentsTagged (strings ++ rest)) :
    strings = tokens tree ∧ ContentsTagged rest := by
  match shape with
  | .regular executable contents =>
    rw [tokens, append_assoc] at tagged
    have later := (contents_tagged_regular executable _ _ (fun _ => by decide)).mp tagged
    exact ⟨rfl, (contents_tagged_value _ _ _ (by decide)).mp later.2⟩
  | .untagged executable tag notContents notExecutable =>
    rw [append_assoc] at tagged
    have later := (contents_tagged_regular executable _ _ notExecutable).mp tagged
    exact absurd later.1 notContents
  | .symlink target =>
    have later := (contents_tagged_open _ (by decide) (by decide)).mp tagged
    exact ⟨rfl, (contents_tagged_value _ _ _ (by decide)).mp later⟩
  | .directory inner entries inside =>
    rw [append_assoc, append_assoc] at tagged
    have later := (contents_tagged_open _ (by decide) (by decide)).mp tagged
    obtain ⟨same, closing⟩ := entries_tokens_canonical inside _ later
    rw [same]
    exact ⟨rfl, (contents_tagged_close _).mp closing⟩

theorem entries_tokens_canonical {strings : List Bytes} {entries : DirEntries}
    (shape : EntriesTokens strings entries) (rest : List Bytes)
    (tagged : ContentsTagged (strings ++ rest)) :
    strings = entriesTokens entries ∧ ContentsTagged rest := by
  match shape with
  | .nil => exact ⟨rfl, tagged⟩
  | .cons name inner more tree others here later =>
    rw [append_assoc, append_assoc] at tagged
    obtain ⟨same, closing⟩ :=
      node_tokens_canonical here _ ((contents_tagged_entry name _).mp tagged)
    obtain ⟨restSame, remaining⟩ :=
      entries_tokens_canonical later rest ((contents_tagged_close _).mp closing)
    rw [same, restSame]
    exact ⟨rfl, remaining⟩

end

theorem archive_tagged_iff (bounded : ∀ data ∈ strings, data.length < sizeLimit) :
    ArchiveTagged (writeStrings strings) ↔ ContentsTagged strings := by
  constructor
  · intro tagged
    exact tagged strings bounded rfl
  · intro tagged others othersBounded same
    rw [← write_strings_inj bounded othersBounded same]
    exact tagged

variable {calls : List SinkCall}

theorem parse_dump_ok (accepted : parseDump false source = .ok (calls, final)) :
    ∃ strings tree, NodeTokens strings tree ∧ WellFormed tree ∧ Describes calls tree ∧
      (∀ data ∈ narVersionMagic1 :: strings, data.length < sizeLimit) ∧
      source.flatten = writeStrings (narVersionMagic1 :: strings) ++ final.flatten := by
  rw [parseDump] at accepted
  cases outcome : readString narVersionMagic1.length source with
  | error failure =>
    rw [outcome] at accepted
    cases failure <;> cases accepted
  | ok pair =>
    rw [outcome] at accepted
    dsimp only at accepted
    by_cases version : pair.1 = narVersionMagic1
    · rw [if_pos version] at accepted
      obtain ⟨strings, tree, parsed⟩ := (parse_ok _).1 [] pair.2 final calls accepted
      obtain ⟨_, split⟩ := read_string_ok outcome
      refine ⟨strings, tree, parsed.shape, parsed.fine, parsed.described, ?_, ?_⟩
      · intro data member
        rcases mem_cons.mp member with same | inStrings
        · rw [same]
          exact ascii_tag_short _ (by decide)
        · exact parsed.consumed.bounded data inStrings
      · rw [split, version, parsed.consumed.split, write_strings_cons, append_assoc]
    · rw [if_neg version] at accepted
      cases accepted

theorem tags_fit (tags : List Bytes) (short : ∀ tag ∈ tags, tag.length ≤ 16) :
    ∀ tag ∈ tags, tag.length < sizeLimit := by
  intro tag member
  exact ascii_tag_short tag (short tag member)

theorem value_fits {close : Bytes} (data : Bytes) (short : ∀ text ∈ [tag, close], text.length ≤ 16)
    (bounded : data.length < sizeLimit) : ∀ text ∈ [tag, data, close], text.length < sizeLimit := by
  rw [forall_mem_cons, forall_mem_singleton] at short
  rw [forall_mem_cons, forall_mem_cons, forall_mem_singleton]
  exact ⟨ascii_tag_short tag short.1, bounded, ascii_tag_short close short.2⟩

mutual

theorem tokens_fit (tree : FileTree) (fine : WellFormed tree) :
    ∀ data ∈ tokens tree, data.length < sizeLimit := by
  match tree with
  | .regular executable contents =>
    rw [tokens, forall_mem_append, forall_mem_append]
    refine ⟨⟨tags_fit _ (by decide), ?_⟩, value_fits contents (by decide) fine⟩
    cases executable <;> exact tags_fit _ (by decide)
  | .symlink target =>
    have opening := tags_fit [ascii "(", ascii "type", ascii "symlink"] (by decide)
    exact forall_mem_append.mpr ⟨opening, value_fits target (by decide) fine⟩
  | .directory entries =>
    rw [tokens, forall_mem_append, forall_mem_append]
    exact ⟨tags_fit _ (by decide), entries_tokens_fit entries fine.2, tags_fit _ (by decide)⟩

theorem entries_tokens_fit (entries : DirEntries) (fine : EntriesWellFormed entries) :
    ∀ data ∈ entriesTokens entries, data.length < sizeLimit := by
  match entries with
  | [] =>
    intro data member
    cases member
  | (name, tree) :: rest =>
    have opening := tags_fit [ascii "entry", ascii "("] (by decide)
    rw [entriesTokens, forall_mem_append, forall_mem_append]
    exact ⟨forall_mem_append.mpr ⟨opening, value_fits name (by decide) fine.2.1⟩,
      tokens_fit tree fine.2.2.1, forall_mem_cons.mpr
        ⟨ascii_tag_short _ (by decide), entries_tokens_fit rest fine.2.2.2⟩⟩

end

theorem archive_fits (tree : Tree) :
    ∀ data ∈ narVersionMagic1 :: tokens tree.val, data.length < sizeLimit :=
  forall_mem_cons.mpr
    ⟨ascii_tag_short _ (by decide), tokens_fit tree.val tree.property⟩

theorem accepted_archive_tree (accepted : parseDump false source = .ok (calls, final))
    (consumed : final.flatten = []) :
    ∃ tree : Tree, Describes calls tree.val ∧
      (source.flatten = archive tree.val ↔ ArchiveTagged source.flatten) := by
  obtain ⟨strings, tree, shape, fine, described, bounded, bytes⟩ := parse_dump_ok accepted
  rw [consumed, append_nil] at bytes
  refine ⟨⟨tree, fine⟩, described, ?_⟩
  rw [bytes, archive_tagged_iff bounded,
    contents_tagged_cons (untagged_here_bracket _ (by decide)), archive]
  constructor
  · intro same
    have tags := write_strings_inj bounded (archive_fits ⟨tree, fine⟩) same
    rw [(cons.inj tags).2, ← append_nil (tokens tree)]
    exact tokens_tagged tree [] trivial
  · intro tagged
    have canonical := node_tokens_canonical shape [] (by rwa [append_nil])
    rw [canonical.1]

/-- An archive that `parseDump` accepts describes one tree. It is what
`dumpPath` writes for that tree exactly when every regular file has the tag
`contents`, and no two archives of this kind describe the same tree. -/
theorem accepted_archive_canonical_iff (source final : Source) (calls : List SinkCall)
    (accepted : parseDump false source = .ok (calls, final)) (consumed : final.flatten = []) :
    ∃ tree : Tree, Describes calls tree.val ∧
      (∀ other : Tree, Describes calls other.val → other = tree) ∧
      (dumpPath false defaultPathFilter tree.val = .ok source.flatten ↔
        ArchiveTagged source.flatten) ∧
      ∀ (second left : Source) (made : List SinkCall),
        parseDump false second = .ok (made, left) → left.flatten = [] →
        Describes made tree.val → ArchiveTagged source.flatten → ArchiveTagged second.flatten →
        second.flatten = source.flatten := by
  obtain ⟨tree, described, canonical⟩ := accepted_archive_tree accepted consumed
  refine ⟨tree, described, ?_, ?_, ?_⟩
  · intro other otherDescribed
    exact describes_unique otherDescribed described
  · rw [dump_path_archive tree.val tree.property, Except.ok.injEq, eq_comm]
    exact canonical
  · intro second left made secondAccepted secondConsumed secondDescribed tagged secondTagged
    obtain ⟨secondTree, madeTree, secondCanonical⟩ :=
      accepted_archive_tree secondAccepted secondConsumed
    rw [secondCanonical.mpr secondTagged, canonical.mpr tagged,
      describes_unique madeTree secondDescribed]

theorem parse_untagged_reads (tag : Bytes) (bounded : tag.length < sizeLimit)
    (notContents : tag ≠ ascii "contents") (notExecutable : tag ≠ ascii "executable")
    (depth : Nat) (path : TreePath) :
    Reads List.flatten (parse false (depth + 1) path)
      (writeStrings [ascii "(", ascii "type", ascii "regular", tag, ascii ")"])
      [.createRegularFile path []] := by
  have regular : Reads flatten parseRegular (writeStrings [tag, ascii ")"]) [] := by
    apply reads_bind (get_string_reads tag bounded)
    rw [if_neg notExecutable, parseFileEnd, if_neg notContents, pure_bind]
    exact reads_map (expect_tag_reads _ (by decide)) (reads_pure [])
  apply reads_bind (expect_tag_reads _ (by decide))
  apply reads_bind (expect_tag_reads _ (by decide))
  apply reads_bind (get_string_reads _ (ascii_tag_short _ (by decide)))
  exact reads_map regular (reads_pure _)

def untaggedArchive : Bytes :=
  writeStrings [narVersionMagic1, ascii "(", ascii "type", ascii "regular", ascii "oops", ascii ")"]

theorem untagged_archive_read :
    ∃ final, parseDump false [untaggedArchive] = .ok ([.createRegularFile [] []], final) ∧
      final.flatten = [] := by
  have input : [untaggedArchive].flatten = writeString narVersionMagic1 ++
      (writeStrings [ascii "(", ascii "type", ascii "regular", ascii "oops", ascii ")"] ++ []) := by
    rw [flatten_singleton, untaggedArchive, write_strings_cons, append_nil]
  obtain ⟨middle, versionRead, remaining⟩ := read_string_reads narVersionMagic1
    narVersionMagic1.length (le_refl _) (ascii_tag_short _ (by decide)) _ _ input
  obtain ⟨final, ran, remains⟩ := parse_untagged_reads (ascii "oops")
    (ascii_tag_short _ (by decide)) (by decide) (by decide) _ [] middle [] remaining
  refine ⟨final, ?_, remains⟩
  rw [parseDump, versionRead]
  simp only [if_true]
  exact ran

theorem accepted_archive_canonical_iff_untagged : ∃ (final : Source) (tree : Tree),
      parseDump false [untaggedArchive] = .ok ([.createRegularFile [] []], final) ∧
        final.flatten = [] ∧ Describes [.createRegularFile [] []] tree.val ∧
        (dumpPath false defaultPathFilter tree.val = .ok [untaggedArchive].flatten ↔
          ArchiveTagged [untaggedArchive].flatten) := by
  obtain ⟨final, accepted, consumed⟩ := untagged_archive_read
  obtain ⟨tree, described, _, canonical, _⟩ :=
    accepted_archive_canonical_iff [untaggedArchive] final _ accepted consumed
  exact ⟨final, tree, accepted, consumed, described, canonical⟩

/-- Such an archive is not what `dumpPath` writes for the empty file. -/
theorem untagged_archive_accepted :
    ∃ calls final, parseDump false [untaggedArchive] = .ok (calls, final) ∧ final.flatten = [] ∧
      WellFormed (.regular false []) ∧ Describes calls (.regular false []) ∧
      dumpPath false defaultPathFilter (.regular false []) ≠ .ok untaggedArchive := by
  obtain ⟨final, accepted, consumed⟩ := untagged_archive_read
  have fine : WellFormed (.regular false []) := by
    exact ascii_tag_short [] (Nat.zero_le _)
  refine ⟨_, final, accepted, consumed, fine, rfl, ?_⟩
  rw [dump_path_archive _ fine]
  intro same
  have strings := write_strings_inj (archive_fits ⟨_, fine⟩) (tags_fit _ (by decide))
    (Except.ok.inj same)
  have sizes : 7 = 6 := congrArg length strings
  omega

end Bsd.Util.ArchiveCanonicity
