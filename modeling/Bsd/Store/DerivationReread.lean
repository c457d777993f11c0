import Bsd.Store.DerivationRoundTrip

/-!
# Derivations that do not come back from their text

A store path whose separator is a backslash loses a character when it is printed
and parsed again, and with a quote or a slash for its separator it is refused. A
derivation with such a path, or with a quote or a backslash in its platform, is
not read back.
-/

namespace Bsd.Store.DerivationReread

open Except List Lib.Occurrences Lib.OrdMap Lib.Readers Util.FilePath Util.Hashes Store.Path
  SortedMap
open Store.ContentAddresses Store.Derivations Store.DerivationText Store.DerivationRoundTrip

def AtName (text : Bytes) : Prop :=
  ∃ character tail, text = character :: tail ∧ isNameCharacter character = true

theorem at_name_plain (text : Bytes) (atName : AtName text) : StartsPlain text := by
  obtain ⟨character, tail, same, named⟩ := atName
  refine ⟨character, tail, same, ?_, ?_⟩
  all_goals
    rintro rfl
    exact absurd named (by decide)

theorem expect_rejects {first : Byte} {rest : Bytes} (notName : isNameCharacter first = false) :
    Rejects AtName (expect (first :: rest)) := by
  intro text value final atName ran
  obtain ⟨character, tail, same, named⟩ := atName
  rw [expect] at ran
  split at ran
  next begins =>
    rw [same] at begins
    rw [(cons_prefix_cons.mp begins).1, named] at notName
    cases notName
  · cases ran

theorem parse_string_rejects : Rejects AtName parseString :=
  (expect_rejects (by decide)).bind

def PlainSeparator (path : StorePath) : Prop :=
  path.separator ≠ 34 ∧ path.separator ≠ 92 ∧ path.separator ≠ 47

def rereadBase (path : StorePath) : Bytes :=
  if path.separator = 92 then path.hashPart ++ unescape (92 :: path.name) else path.baseName

theorem hash_part_clean (path : StorePath) : Clean path.hashPart :=
  clean_of_forall (fun _ member => path.hash_part_character member) (by decide) (by decide)

theorem name_clean (path : StorePath) : Clean path.name :=
  clean_of_forall path.goodName.characters (by decide) (by decide)

theorem name_at_name (path : StorePath) (rest : Bytes) : AtName (path.name ++ rest) := by
  cases shape : path.name with
  | nil => exact absurd shape path.goodName.nonempty
  | cons character tail =>
    refine ⟨character, tail ++ rest, rfl, path.goodName.characters character ?_⟩
    rw [shape]
    exact mem_cons_self

section Paths

variable {store : StoreDirConfig}

theorem printable_path_iff (plainDir : Clean store.storeDir) (path : StorePath) :
    PrintablePath store path ↔ PlainSeparator path := by
  rw [PrintablePath, printStorePath, path.base_name_eq, clean_append, clean_append,
    clean_append, clean_cons]
  constructor
  · intro printable
    exact ⟨printable.1.2.2.1, printable.1.2.2.2.1, printable.2⟩
  · intro plain
    exact ⟨⟨⟨plainDir, by decide⟩, hash_part_clean path, plain.1, plain.2.1, name_clean path⟩,
      plain.2.2⟩

abbrev Rereads (store : StoreDirConfig) (path : StorePath) (text : Bytes) : Prop :=
  path.separator ≠ 34 ∧ text = store.storeDir ++ ascii "/" ++ rereadBase path

theorem path_string_only (plainDir : Clean store.storeDir) (path : StorePath) :
    OnlyReads id AtName parseString (printUnquotedString (printStorePath store path))
      (Rereads store path) := by
  have frontClean : Clean (store.storeDir ++ ascii "/" ++ path.hashPart) :=
    clean_append.mpr ⟨clean_append.mpr ⟨plainDir, by decide⟩, hash_part_clean path⟩
  have shape : printStorePath store path =
      (store.storeDir ++ ascii "/" ++ path.hashPart) ++ path.separator :: path.name := by
    rw [printStorePath, path.base_name_eq, append_assoc _ path.hashPart]
  intro text rest value final input ran
  have whole : text = 34 :: ((store.storeDir ++ ascii "/" ++ path.hashPart) ++
      (path.separator :: (path.name ++ 34 :: rest))) := by
    change text = [34] ++ printStorePath store path ++ [34] ++ rest at input
    rw [input, shape]
    simp
  rw [whole] at ran
  by_cases isQuote : path.separator = 34
  · rw [isQuote] at ran
    rw [parse_string_eq (scan_append frontClean (scan_quote _))] at ran
    rw [← (Prod.mk.inj (ok.inj ran)).2]
    exact .inr (name_at_name path _)
  by_cases isBackslash : path.separator = 92
  · cases name : path.name with
    | nil => exact absurd name path.goodName.nonempty
    | cons character tail =>
      have tailClean : Clean tail := by
        have clean := name_clean path
        rw [name] at clean
        exact (clean_cons.mp clean).2.2
      have scanned : scanString (92 :: character :: (tail ++ 34 :: rest)) =
          .ok (92 :: character :: tail, rest) := by
        rw [scan_escape, scan_append tailClean (scan_quote rest), append_nil]
        rfl
      rw [isBackslash, name, cons_append,
        parse_string_eq (scan_append frontClean scanned), unescape_append frontClean] at ran
      obtain ⟨sameValue, sameFinal⟩ := Prod.mk.inj (ok.inj ran)
      refine .inl ⟨sameFinal.symm, isQuote, ?_⟩
      rw [rereadBase, if_pos isBackslash, name, ← sameValue, append_assoc _ path.hashPart]
  · have clean : Clean ((store.storeDir ++ ascii "/" ++ path.hashPart) ++
        path.separator :: path.name) :=
      clean_append.mpr ⟨frontClean, clean_cons.mpr ⟨isQuote, isBackslash, name_clean path⟩⟩
    have scanned := scan_append clean (scan_quote rest)
    rw [append_nil, append_assoc, cons_append] at scanned
    rw [parse_string_eq scanned, unescape_of_absent clean.2] at ran
    obtain ⟨sameValue, sameFinal⟩ := Prod.mk.inj (ok.inj ran)
    refine .inl ⟨sameFinal.symm, isQuote, ?_⟩
    rw [rereadBase, if_neg isBackslash, ← sameValue, path.base_name_eq,
      append_assoc _ path.hashPart]

theorem escapes_no_slash {character : Byte} (named : isNameCharacter character = true) :
    escapes character ≠ 47 := by
  rw [escapes]
  split_ifs
  any_goals decide
  rintro rfl
  exact absurd named (by decide)

/-- What a path turns into when it is printed and parsed. -/
def Survives (path result : StorePath) : Prop :=
  (PlainSeparator path ∧ result = path) ∨
    (¬ PlainSeparator path ∧ result.baseName.length < path.baseName.length)

theorem reread_survives {path result : StorePath} (notQuote : path.separator ≠ 34)
    (parsed : parseStorePath store (store.storeDir ++ ascii "/" ++ rereadBase path) = .ok result) :
    Survives path result := by
  by_cases isBackslash : path.separator = 92
  · rw [rereadBase, if_pos isBackslash] at parsed
    cases name : path.name with
    | nil => exact absurd name path.goodName.nonempty
    | cons character tail =>
      have characters := path.goodName.characters
      rw [name] at characters
      have tailClean : Clean tail := by
        have clean := name_clean path
        rw [name] at clean
        exact (clean_cons.mp clean).2.2
      have reread : path.hashPart ++ unescape (92 :: path.name) =
          path.hashPart ++ escapes character :: tail := by
        rw [name, unescape_escape, unescape_of_absent tailClean.2]
      rw [reread] at parsed
      have component : IsComponent (path.hashPart ++ escapes character :: tail) := by
        apply is_component_of_length
        · rw [length_append, path.hash_part_length]
          exact Nat.lt_of_lt_of_le (by decide) (Nat.le_add_right hashLen _)
        rw [mem_append, mem_cons]
        intro member
        rcases member with inHash | isEscaped | inTail
        · exact absurd (path.hash_part_character inHash) (by decide)
        · exact escapes_no_slash (characters character mem_cons_self) isEscaped.symm
        · exact absurd (characters 47 (mem_cons_of_mem _ inTail)) (by decide)
      rw [parse_below store component] at parsed
      refine .inr ⟨fun plain => plain.2.1 isBackslash, ?_⟩
      rw [of_base_name_iff.mp parsed, path.base_name_eq, name]
      simp only [length_append, length_cons]
      omega
  · rw [rereadBase, if_neg isBackslash] at parsed
    change parseStorePath store (printStorePath store path) = _ at parsed
    by_cases isSlash : path.separator = 47
    · exact absurd parsed (parse_print_slash store path isSlash result)
    · rw [parse_print_store_path store path isSlash] at parsed
      exact .inl ⟨⟨notQuote, isBackslash, isSlash⟩, (ok.inj parsed).symm⟩

end Paths

def totalSize (paths : List StorePath) : Nat :=
  (paths.map fun path => path.baseName.length).sum

theorem total_size_cons (path : StorePath) (paths : List StorePath) :
    totalSize (path :: paths) = path.baseName.length + totalSize paths := by
  rw [totalSize, map_cons, sum_cons, ← totalSize]

variable {paths : List StorePath} {results : List StorePath}

theorem survive_sizes (pairs : List.Forall₂ Survives paths results) :
    totalSize results ≤ totalSize paths ∧
      (totalSize results = totalSize paths → ∀ path ∈ paths, PlainSeparator path) := by
  induction pairs with
  | nil => exact ⟨le_refl _, nofun⟩
  | @cons path result paths results survives rest ih =>
    obtain ⟨shrinks, allPlain⟩ := ih
    rw [total_size_cons, total_size_cons]
    rcases survives with ⟨plain, same⟩ | ⟨_, smaller⟩
    · rw [same]
      refine ⟨Nat.add_le_add_left shrinks _, ?_⟩
      intro sizes
      exact forall_mem_cons.mpr ⟨plain, allPlain (Nat.add_left_cancel sizes)⟩
    · refine ⟨Nat.add_le_add (le_of_lt smaller) shrinks, ?_⟩
      omega

theorem survivors_of_same_set (distinct : paths.Nodup) (pairs : List.Forall₂ Survives paths results)
    (same : results.toFinset = paths.toFinset) : ∀ path ∈ paths, PlainSeparator path := by
  have resultsDistinct : results.Nodup := by
    have card : results.toFinset.card = results.length := by
      rw [same, toFinset_card_of_nodup distinct, pairs.length_eq]
    exact Multiset.toFinset_card_eq_card_iff_nodup.mp card
  have permuted : results.Perm paths :=
    perm_of_nodup_nodup_toFinset_eq resultsDistinct distinct same
  apply (survive_sizes pairs).2
  exact (permuted.map _).sum_eq

variable {entries : List (Bytes × DerivationOutput)} {texts : List Bytes} {drvName : Bytes}

section Parts

variable {store : StoreDirConfig}

theorem lift_ok {Value : Type} {result : Except Failure Value} {text final : Bytes} {value : Value}
    (ran : lift result text = .ok (value, final)) : final = text ∧ result = .ok value := by
  cases result with
  | error failure => cases ran
  | ok made =>
    obtain ⟨sameValue, sameFinal⟩ := Prod.mk.inj (ok.inj ran)
    exact ⟨sameFinal.symm, congrArg ok sameValue⟩

theorem parse_path_only (plainDir : Clean store.storeDir) (path : StorePath) :
    OnlyReads id AtName parsePath (printUnquotedString (printStorePath store path))
      (Rereads store path) := by
  intro text rest value final input ran
  obtain ⟨parsed, middle, read, checked⟩ := bind_ok ran
  obtain ⟨_, after, lifted, done⟩ := bind_ok checked
  obtain ⟨rfl, rfl⟩ := pure_ok done
  rw [(lift_ok lifted).1]
  exact path_string_only plainDir path text rest parsed middle input read

theorem parse_path_rejects : Rejects AtName parsePath := parse_string_rejects.bind

def OutputSurvives : DerivationOutput → DerivationOutput → Prop
  | .inputAddressed path, result => ∃ other, result = .inputAddressed other ∧ Survives path other
  | output, result => result = output

variable {outputName : Bytes}

theorem input_addressed_only (plainDir : Clean store.storeDir) (named : NameText outputName)
    (path : StorePath) : OnlyReads id (fun _ => False) (parseNamedOutput store)
      (unparseFields outputName (printStorePath store path, [], []))
      (fun entry => entry.1 = outputName ∧ OutputSurvives (.inputAddressed path) entry.2) := by
  let tail := ascii "," ++ (printUnquotedString (printStorePath store path) ++ (ascii "," ++
    (printUnquotedString [] ++ (ascii "," ++ (printUnquotedString [] ++ (ascii ")" ++ []))))))
  have text : unparseFields outputName (printStorePath store path, [], []) =
      ascii "(" ++ (printUnquotedString outputName ++
        (tail ++ [])) := by
    rw [unparseFields]
    simp [tail]
  have output : OnlyReads id (fun _ => False) (parseDerivationOutput store) tail
      (OutputSurvives (.inputAddressed path)) := by
    apply (expect_reads _).only_bind
    apply only_reads_bind (path_string_only plainDir path)
    · intro value
      exact (expect_rejects (by decide)).bind
    intro pathS reread
    apply (expect_reads _).only_bind
    apply (parse_unquoted_reads clean_nil).only_bind
    apply (expect_reads _).only_bind
    apply (parse_unquoted_reads clean_nil).only_bind
    apply (expect_reads _).only_bind
    intro remaining rest result final input ran
    obtain ⟨unmoved, parsed⟩ := lift_ok ran
    refine .inl ⟨unmoved ▸ input, ?_⟩
    rw [parseOutputFields, if_neg (not_not.mpr rfl)] at parsed
    split at parsed
    next nothing =>
      rw [reread.2] at nothing
      simp [ascii] at nothing
    · obtain ⟨_, _, checked⟩ := except_bind_ok parsed
      obtain ⟨other, parsedPath, made⟩ := except_bind_ok checked
      rw [reread.2] at parsedPath
      exact ⟨other, (ok.inj made).symm, reread_survives reread.1 parsedPath⟩
  rw [text]
  apply (expect_reads _).only_bind
  apply (parse_unquoted_reads named.clean).only_bind
  apply only_reads_bind output (fun _ => rejects_nothing _)
  intro result survives
  exact only_reads_pure ⟨rfl, survives⟩

variable {sha : Sha256} {fields : Bytes × Bytes × Bytes} {output : DerivationOutput}

theorem fixed_printable (plainDir : Clean store.storeDir)
    (made : outputFields store sha drvName outputName false output = .ok fields)
    (notPath : ∀ path, output ≠ .inputAddressed path) :
    OutputPrintable store drvName outputName output := by
  cases output with
  | inputAddressed path => exact absurd rfl (notPath path)
  | caFixed ca =>
    obtain ⟨path, pathMade, _⟩ := except_bind_ok made
    exact ⟨plainDir, (fixed_output_path_ok_iff store sha _ ca).mp ⟨path, pathMade⟩⟩
  | caFloating | deferred | impure => exact trivial

theorem named_output_only (plainDir : Clean store.storeDir) (named : NameText outputName)
    (made : outputFields store sha drvName outputName false output = .ok fields) :
    OnlyReads id (fun _ => False) (parseNamedOutput store) (unparseFields outputName fields)
      (fun entry => entry.1 = outputName ∧ OutputSurvives output entry.2) := by
  by_cases isPath : ∃ path, output = .inputAddressed path
  · obtain ⟨path, rfl⟩ := isPath
    rw [← ok.inj made]
    exact input_addressed_only plainDir named path
  have notPath : ∀ path, output ≠ .inputAddressed path := fun path same => isPath ⟨path, same⟩
  obtain ⟨others, othersMade, read⟩ := output_fields_read store sha
    (fixed_printable plainDir made notPath)
  rw [made] at othersMade
  rw [← ok.inj othersMade] at read
  intro text rest entry final input ran
  rcases (parse_named_output_reads store named read).only text rest entry final input ran with
    ⟨same, isEntry⟩ | impossible
  · rw [isEntry]
    refine .inl ⟨same, rfl, ?_⟩
    cases output with
    | inputAddressed path => exact absurd rfl (notPath path)
    | caFixed | caFloating | deferred | impure => rfl
  · exact impossible.elim

theorem unparse_outputs_ok (printed : unparseOutputs store sha drvName false entries = .ok texts) :
    ∃ pairs : List ((Bytes × DerivationOutput) × Bytes), pairs.map Prod.fst = entries ∧
      pairs.map Prod.snd = texts ∧
      ∀ pair ∈ pairs, ∃ fields,
        outputFields store sha drvName pair.1.1 false pair.1.2 = .ok fields ∧
          pair.2 = unparseFields pair.1.1 fields := by
  induction entries generalizing texts with
  | nil =>
    rw [← ok.inj printed]
    exact ⟨[], rfl, rfl, nofun⟩
  | cons entry entries ih =>
    obtain ⟨fields, made, rest⟩ := except_bind_ok printed
    obtain ⟨more, morePrinted, done⟩ := except_bind_ok rest
    obtain ⟨pairs, firsts, seconds, each⟩ := ih morePrinted
    refine ⟨(entry, unparseFields entry.1 fields) :: pairs, ?_, ?_, ?_⟩
    · rw [map_cons, firsts]
    · rw [map_cons, seconds]
      exact ok.inj done
    · rw [forall_mem_cons]
      exact ⟨⟨fields, made, rfl⟩, each⟩

theorem parse_input_only (plainDir : Clean store.storeDir) (version : DerivationATermVersion)
    (path : StorePath) (node : InputNode) (named : NodeNamed node.val)
    (supported : version = .dynamicDerivations ∨ node.val.childMap = []) :
    OnlyReads id (fun _ => False) (parseInput store version)
      (unparseInput (printStorePath store path) node.val)
      (fun entry => Survives path entry.1 ∧ entry.2 = node) := by
  have text : unparseInput (printStorePath store path) node.val =
      ascii "(" ++ (printUnquotedString (printStorePath store path) ++ (ascii "," ++
        ([] ++ (unparseNode node.val ++ (ascii ")" ++ []))))) := by
    rw [unparseInput]
    simp
  rw [text]
  apply (expect_reads _).only_bind
  apply only_reads_bind (parse_path_only plainDir path)
  · intro value
    exact (expect_rejects (by decide)).bind
  intro drvPath reread
  apply (expect_reads _).only_bind
  intro remaining rest entry final input ran
  obtain ⟨result, middle, lifted, further⟩ := bind_ok ran
  obtain ⟨unmoved, parsed⟩ := lift_ok lifted
  rw [reread.2] at parsed
  rw [unmoved] at further
  have remainder : OnlyReads id (fun _ => False)
      (parseNode version >>= fun node => expect (ascii ")") >>= fun _ =>
        (pure (result, node) : Parse (StorePath × InputNode)))
      (unparseNode node.val ++ (ascii ")" ++ []))
      (fun entry => Survives path entry.1 ∧ entry.2 = node) := by
    apply (node_reads version node named supported).only_bind
    apply (expect_reads _).only_bind
    exact only_reads_pure ⟨reread_survives reread.1 parsed, rfl⟩
  exact remainder remaining rest entry final input further

theorem sorted_sources (store : StoreDirConfig) (sources : Finset StorePath) :
    ∃ paths : List StorePath, paths.Nodup ∧ paths.toFinset = sources ∧
      sortedValue (printStorePathSet store sources) = paths.map (printStorePath store) := by
  have each : ∀ text ∈ sortedValue (printStorePathSet store sources),
      ∃ path, printStorePath store path = text := by
    intro text member
    obtain ⟨path, _, printed⟩ := Finset.mem_image.mp (sorted_value_mem.mp member)
    exact ⟨path, printed⟩
  obtain ⟨paths, printed⟩ : sortedValue (printStorePathSet store sources) ∈
      Set.range (map (printStorePath store)) := by
    rw [Set.range_list_map]
    exact each
  refine ⟨paths, ?_, ?_, printed.symm⟩
  · apply List.Nodup.of_map (printStorePath store)
    rw [printed]
    exact Finset.sort_nodup _ _
  apply Finset.image_injective (print_store_path_injective store)
  change _ = printStorePathSet store sources
  rw [← sorted_value_to_finset (printStorePathSet store sources), ← printed]
  ext text
  simp

theorem parse_store_paths_ok (parsed : parseStorePaths store texts = .ok paths) :
    (∀ text ∈ texts, ∃ path, parseStorePath store text = .ok path) ∧
      ∀ path, path ∈ paths ↔ ∃ text ∈ texts, parseStorePath store text = .ok path := by
  induction texts generalizing paths with
  | nil =>
    rw [← ok.inj parsed]
    exact ⟨nofun, fun path => iff_of_false nofun (fun ⟨_, member, _⟩ => nomatch member)⟩
  | cons text texts ih =>
    obtain ⟨path, first, rest⟩ := except_bind_ok parsed
    obtain ⟨more, others, done⟩ := except_bind_ok rest
    obtain ⟨allParsed, members⟩ := ih others
    rw [← ok.inj done]
    refine ⟨forall_mem_cons.mpr ⟨⟨path, first⟩, allParsed⟩, ?_⟩
    intro other
    rw [mem_cons, members, exists_mem_cons_iff, first, ok.injEq]
    exact or_congr_left eq_comm

theorem parse_sources_only (plainDir : Clean store.storeDir) (paths : List StorePath) :
    OnlyReads id (fun _ => False) (parseStrings true)
      (printUnquotedStrings (paths.map (printStorePath store)))
      (fun texts => ∃ values : List Bytes, texts = values.toFinset ∧
        List.Forall₂ (Rereads store) paths values) := by
  have shape : printUnquotedStrings (paths.map (printStorePath store)) =
      ascii "[" ++ (([44].intercalate
        (paths.map fun path => printUnquotedString (printStorePath store path)) ++ [93]) ++ []) := by
    rw [printUnquotedStrings, map_map, append_nil]
    rfl
  rw [shape]
  apply (expect_reads _).only_bind
  apply only_reads_bind (parse_list_only paths (fun path _ => parse_path_only plainDir path)
    (fun path _ => starts_quote _) at_name_plain parse_path_rejects) (fun _ => rejects_nothing _)
  intro values reread
  exact only_reads_pure ⟨values, rfl, reread⟩

variable {values : List Bytes}

theorem sources_survive (reread : List.Forall₂ (Rereads store) paths values)
    (parsed : ∀ text ∈ values, ∃ path, parseStorePath store text = .ok path) :
    ∃ results, List.Forall₂ Survives paths results ∧
      ∀ path, path ∈ results ↔ ∃ text ∈ values, parseStorePath store text = .ok path := by
  induction reread with
  | nil =>
    exact ⟨[], List.Forall₂.nil,
      fun path => iff_of_false nofun (fun ⟨_, member, _⟩ => nomatch member)⟩
  | cons first _ ih =>
    rw [forall_mem_cons] at parsed
    obtain ⟨results, survive, members⟩ := ih parsed.2
    obtain ⟨result, isResult⟩ := parsed.1
    refine ⟨result :: results, List.Forall₂.cons ?_ survive, ?_⟩
    · rw [first.2] at isResult
      exact reread_survives first.1 isResult
    · intro other
      rw [mem_cons, members, exists_mem_cons_iff, isResult, ok.injEq]
      exact or_congr_left eq_comm

theorem sources_plain {sources : Finset StorePath} (distinct : paths.Nodup)
    (same : paths.toFinset = sources)
    (reread : List.Forall₂ (Rereads store) paths values)
    (parsed : parseStorePathSet store values.toFinset = .ok sources) :
    ∀ path ∈ sources, PlainSeparator path := by
  obtain ⟨listed, parsedList, made⟩ := except_bind_ok parsed
  obtain ⟨allParsed, listedMembers⟩ := parse_store_paths_ok parsedList
  simp only [sorted_value_mem, mem_toFinset] at allParsed listedMembers
  obtain ⟨results, survive, members⟩ := sources_survive reread allParsed
  have back : results.toFinset = paths.toFinset := by
    rw [same, ← ok.inj made]
    ext path
    rw [mem_toFinset, mem_toFinset, members, listedMembers]
  intro path member
  rw [← same, mem_toFinset] at member
  exact survivors_of_same_set distinct survive back path member

theorem inputs_plain {entries values : List (StorePath × InputNode)} (ascending : Ascending entries)
    (reread : List.Forall₂ (fun entry value => Survives entry.1 value.1 ∧ value.2 = entry.2)
      entries values)
    (same : (assignAll values).entries = entries) :
    ∀ entry ∈ entries, PlainSeparator entry.1 := by
  have pairs : List.Forall₂ Survives (entries.map Prod.fst) (values.map Prod.fst) := by
    rw [forall₂_map_left_iff, forall₂_map_right_iff]
    exact reread.imp fun _ _ both => both.1
  have distinct : (entries.map Prod.fst).Nodup :=
    pairwise_map.mpr (ascending.imp fun less => ne_of_lt less)
  have keys : (values.map Prod.fst).toFinset = (entries.map Prod.fst).toFinset := by
    ext path
    rw [mem_toFinset, mem_toFinset, ← assign_all_mem_keys, same]
  intro entry member
  exact survivors_of_same_set distinct pairs keys entry.1 (mem_map_of_mem member)

theorem survives_self {path : StorePath} (survives : Survives path path) : PlainSeparator path := by
  rcases survives with plain | smaller
  · exact plain.1
  · exact absurd smaller.2 (lt_irrefl _)

theorem outputs_survive {values : List (Bytes × DerivationOutput)} (ascending : Ascending entries)
    (reread : List.Forall₂ (fun entry value => value.1 = entry.1 ∧ OutputSurvives entry.2 value.2)
      entries values) (same : (emplaceAll values).entries = entries) :
    ∀ entry ∈ entries, OutputSurvives entry.2 entry.2 := by
  have names : values.map Prod.fst = entries.map Prod.fst := by
    rw [← forall₂_eq_eq_eq, forall₂_map_left_iff, forall₂_map_right_iff]
    exact (reread.imp fun _ _ both => both.1).flip
  have valuesAscending : Ascending values := by
    have ordered : (entries.map Prod.fst).Pairwise (· < ·) := pairwise_map.mpr ascending
    rw [← names] at ordered
    exact pairwise_map.mp ordered
  rw [emplace_all_entries _ valuesAscending] at same
  rw [same, forall₂_same] at reread
  intro entry member
  exact (reread entry member).2

end Parts

section

variable (store : StoreDirConfig) (sha : Sha256)

def ReadBack (drv : Derivation) : Prop :=
  ∃ text, unparse store sha drv false none = .ok text ∧
    parseDerivation store text drv.name = .ok drv

variable {drv : Derivation}

section

variable (plainDir : Clean store.storeDir)

include plainDir

theorem outputs_only (named : Named drv)
    (printed : unparseOutputs store sha drv.name false drv.outputs.entries = .ok texts) :
    OnlyReads id (fun _ => False) (parseList (parseNamedOutput store)) (listRest texts)
      (fun values => List.Forall₂
        (fun entry value => value.1 = entry.1 ∧ OutputSurvives entry.2 value.2)
        drv.outputs.entries values) := by
  obtain ⟨pairs, firsts, seconds, each⟩ := unparse_outputs_ok printed
  have whole : OnlyReads id (fun _ => False) (parseList (parseNamedOutput store))
      ([44].intercalate (pairs.map Prod.snd) ++ [93])
      (fun values => List.Forall₂
        (fun pair value => value.1 = pair.1.1 ∧ OutputSurvives pair.1.2 value.2) pairs values) := by
    apply parse_list_only
    · intro pair member
      obtain ⟨fields, made, text⟩ := each pair member
      rw [text]
      apply named_output_only plainDir (named.outputs pair.1 ?_) made
      rw [← firsts]
      exact mem_map_of_mem member
    · intro pair member
      obtain ⟨fields, _, text⟩ := each pair member
      rw [text, unparseFields]
      simp only [append_assoc]
      exact starts_bracket _
    · exact fun _ impossible => impossible.elim
    · exact rejects_nothing _
  rw [seconds] at whole
  intro text rest values final input ran
  rcases whole text rest values final input ran with ⟨same, reread⟩ | impossible
  · refine .inl ⟨same, ?_⟩
    rw [← firsts]
    exact forall₂_map_left_iff.mpr reread
  · exact impossible.elim

theorem inputs_only (named : Named drv) :
    OnlyReads id (fun _ => False) (parseList (parseInput store (versionOf drv)))
      (listRest (drv.inputTexts store))
      (fun values => List.Forall₂ (fun entry value => Survives entry.1 value.1 ∧ value.2 = entry.2)
        drv.inputDrvs.entries values) := by
  apply parse_list_only
  · intro entry member
    exact parse_input_only plainDir (versionOf drv) entry.1 entry.2 (named.inputs entry member)
      (version_supports member)
  · intro entry _
    exact starts_bracket _
  · exact fun _ impossible => impossible.elim
  · exact rejects_nothing _

theorem output_printable {entry : Bytes × DerivationOutput}
    (printed : unparseOutputs store sha drvName false entries = .ok texts)
    (member : entry ∈ entries) (survives : OutputSurvives entry.2 entry.2) :
    OutputPrintable store drvName entry.1 entry.2 := by
  obtain ⟨pairs, firsts, _, each⟩ := unparse_outputs_ok printed
  rw [← firsts] at member
  obtain ⟨pair, inside, rfl⟩ := mem_map.mp member
  obtain ⟨fields, made, _⟩ := each pair inside
  by_cases isPath : ∃ path, pair.1.2 = .inputAddressed path
  · obtain ⟨path, kind⟩ := isPath
    rw [kind] at survives ⊢
    obtain ⟨other, same, survivesOther⟩ := survives
    rw [← DerivationOutput.inputAddressed.inj same] at survivesOther
    exact (printable_path_iff plainDir path).mpr (survives_self survivesOther)
  · exact fixed_printable plainDir made fun path same => isPath ⟨path, same⟩

end

/-- What a successful parse has made of the printed parts of a derivation, up to
the platform. -/
structure Reread (drv result : Derivation) : Prop where
  outputs : ∃ values, result.outputs = SortedMap.emplaceAll values ∧
    List.Forall₂ (fun entry value => value.1 = entry.1 ∧ OutputSurvives entry.2 value.2)
      drv.outputs.entries values
  inputDrvs : ∃ values, result.inputDrvs = SortedMap.assignAll values ∧
    List.Forall₂ (fun entry value => Survives entry.1 value.1 ∧ value.2 = entry.2)
      drv.inputDrvs.entries values
  inputSrcs : ∃ paths values, paths.Nodup ∧ paths.toFinset = drv.inputSrcs ∧
    parseStorePathSet store values.toFinset = .ok result.inputSrcs ∧
    List.Forall₂ (fun path text => path.separator ≠ 34 ∧
      text = store.storeDir ++ ascii "/" ++ rereadBase path) paths values
  platform : ∃ rest, parseString (printUnquotedString drv.platform ++ textAfter drv) =
    .ok (result.platform, rest)

theorem body_reread {result : Derivation} {texts final : Bytes} {outputTexts : List Bytes}
    (plainDir : Clean store.storeDir) (named : Named drv)
    (printed : unparseOutputs store sha drv.name false drv.outputs.entries = .ok outputTexts)
    (text : texts = textBefore store drv outputTexts (drv.inputTexts store) ++
      (printUnquotedString drv.platform ++ textAfter drv))
    (ran : parseBody store drv.name texts = .ok (result, final)) : Reread store drv result := by
  obtain ⟨paths, distinct, pathSet, sorted⟩ := sorted_sources store drv.inputSrcs
  rw [textBefore, sorted] at text
  simp only [append_assoc] at text
  obtain ⟨_, _, text, rfl, ran⟩ := only_reads_peel (parse_version_reads drv).only text ran
  obtain ⟨_, _, text, _, ran⟩ := only_reads_peel (expect_reads _).only text ran
  obtain ⟨outputs, _, text, outputsReread, ran⟩ :=
    only_reads_peel (outputs_only store sha plainDir named printed) text ran
  obtain ⟨_, _, text, _, ran⟩ := only_reads_peel (expect_reads _).only text ran
  obtain ⟨inputs, _, text, inputsReread, ran⟩ :=
    only_reads_peel (inputs_only store plainDir named) text ran
  obtain ⟨_, _, text, _, ran⟩ := only_reads_peel (expect_reads _).only text ran
  obtain ⟨_, _, text, ⟨values, rfl, valuesReread⟩, ran⟩ :=
    only_reads_peel (parse_sources_only plainDir paths) text ran
  obtain ⟨sources, _, lifted, ran⟩ := bind_ok ran
  obtain ⟨unmoved, sourcesParsed⟩ := lift_ok lifted
  rw [unmoved] at ran
  obtain ⟨_, atPlatform, text, _, ran⟩ := only_reads_peel (expect_reads _).only text ran
  obtain ⟨platform, rest, platformRead, ran⟩ := bind_ok ran
  -- what comes behind the platform only fills the other fields
  iterate 7 obtain ⟨_, _, _, ran⟩ := bind_ok ran
  obtain ⟨made, _⟩ := pure_ok ran
  have whole : atPlatform = printUnquotedString drv.platform ++ textAfter drv := text
  rw [whole] at platformRead
  rw [← made]
  exact ⟨⟨outputs, rfl, outputsReread⟩, ⟨inputs, rfl, inputsReread⟩,
    ⟨paths, values, distinct, pathSet, sourcesParsed, valuesReread⟩, ⟨rest, platformRead⟩⟩

/-- A derivation that is read back is printable, where the store directory has
neither a quote nor a backslash. -/
theorem read_back_printable (plainDir : Clean store.storeDir) (named : Named drv)
    (back : ReadBack store sha drv) : Printable store drv := by
  obtain ⟨text, unparsed, parsed⟩ := back
  obtain ⟨outputTexts, printed, _⟩ := except_bind_ok unparsed
  rw [unparse_eq store sha drv printed none] at unparsed
  rw [parseDerivation] at parsed
  split at parsed
  next result final ran =>
    rw [ok.inj parsed] at ran
    have reread := body_reread store sha plainDir named printed (ok.inj unparsed).symm ran
    obtain ⟨outputs, sameOutputs, outputsReread⟩ := reread.outputs
    obtain ⟨inputs, sameInputs, inputsReread⟩ := reread.inputDrvs
    obtain ⟨paths, values, distinct, pathSet, sourcesParsed, valuesReread⟩ := reread.inputSrcs
    obtain ⟨rest, platformRead⟩ := reread.platform
    have outputsBack := congrArg entries sameOutputs.symm
    have inputsBack := congrArg entries sameInputs.symm
    refine ⟨?_, ?_, ?_, unquoted_value_clean platformRead⟩
    · intro entry member
      exact output_printable store sha plainDir printed member
        (outputs_survive drv.outputs.ascending outputsReread outputsBack entry member)
    · intro entry member
      exact (printable_path_iff plainDir entry.1).mpr
        (inputs_plain drv.inputDrvs.ascending inputsReread inputsBack entry member)
    · intro path member
      exact (printable_path_iff plainDir path).mpr
        (sources_plain distinct pathSet valuesReread sourcesParsed path member)
  · cases parsed

/-- Exactly the printable derivations are read back. A store directory with a
quote or a backslash may make the text of a fixed output look like something else,
so the exactness is about the other ones. -/
theorem read_back_iff_printable (drv : Derivation) (named : Named drv) :
    (Printable store drv → ReadBack store sha drv) ∧
      (Clean store.storeDir → (ReadBack store sha drv ↔ Printable store drv)) := by
  constructor
  · intro printable
    exact printable_round_trip store sha drv named printable
  intro plainDir
  constructor
  · intro back
    exact read_back_printable store sha plainDir named back
  · intro printable
    exact printable_round_trip store sha drv named printable

end

def zeroSha : Sha256 := ⟨fun _ => List.replicate 32 0, fun _ => rfl⟩

def floatingDrv (platform : Bytes) : Derivation where
  name := ascii "hello"
  outputs := SortedMap.emplaceAll [(ascii "out", .caFloating .bsdArchive .sha256)]
  inputSrcs := ∅
  platform := platform
  builder := ascii "/bin/sh"
  args := []
  env := SortedMap.assignAll []
  inputDrvs := SortedMap.assignAll []

theorem floating_drv_named (platform : Bytes) : Named (floatingDrv platform) := by
  constructor
  · intro entry member
    rw [mem_singleton.mp member]
    decide +kernel
  · exact nofun

theorem floating_drv_printable {platform : Bytes} (clean : Clean platform) :
    Printable usualStore (floatingDrv platform) := by
  refine ⟨?_, nofun, nofun, clean⟩
  intro entry member
  rw [mem_singleton.mp member]
  exact trivial

theorem read_back_iff_printable_plain : Named (floatingDrv (ascii "x86_64-linux")) ∧
      ReadBack usualStore zeroSha (floatingDrv (ascii "x86_64-linux")) := by
  have named := floating_drv_named (ascii "x86_64-linux")
  exact ⟨named, (read_back_iff_printable usualStore zeroSha _ named).1
    (floating_drv_printable (by decide))⟩

/-- The text of the derivation ends its platform at the quote in it. -/
theorem quoted_platform_not_read_back : Named (floatingDrv (ascii "\"")) ∧
      (∃ text, unparse usualStore zeroSha (floatingDrv (ascii "\"")) false none = .ok text) ∧
      ¬ ReadBack usualStore zeroSha (floatingDrv (ascii "\"")) := by
  have named := floating_drv_named (ascii "\"")
  refine ⟨named, ⟨_, rfl⟩, ?_⟩
  intro back
  have printable := read_back_printable usualStore zeroSha (by decide) named back
  exact absurd printable.platform (by decide)

end Bsd.Store.DerivationReread
