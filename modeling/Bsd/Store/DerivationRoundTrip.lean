import Bsd.Store.DerivationText

/-!
# Parsing a printed derivation

A derivation comes back from its text if every string that is printed without
escapes contains neither a quote nor a backslash.
-/

namespace Bsd.Store.DerivationRoundTrip

open List Lib.Occurrences Lib.OrdMap Lib.Readers Util.FilePath Util.Hashes Store.Path SortedMap
open Store.ContentAddresses Store.Derivations Store.DerivationText

def NameText (text : Bytes) : Prop := ∀ character ∈ text, isNameCharacter character = true

instance (text : Bytes) : Decidable (NameText text) :=
  inferInstanceAs (Decidable (∀ character ∈ text, isNameCharacter character = true))

theorem NameText.clean {text : Bytes} (named : NameText text) : Clean text :=
  clean_of_forall named (by decide) (by decide)

mutual

def NodeNamed : ChildNode → Prop
  | .node value childMap => (∀ name ∈ value, NameText name) ∧ ChildrenNamed childMap

def ChildrenNamed : ChildMap → Prop
  | [] => True
  | (outputName, child) :: rest => NameText outputName ∧ NodeNamed child ∧ ChildrenNamed rest

end

structure Named (drv : Derivation) : Prop where
  outputs : ∀ entry ∈ drv.outputs.entries, NameText entry.1
  inputs : ∀ entry ∈ drv.inputDrvs.entries, NodeNamed entry.2.val

theorem starts_quote (text : Bytes) : StartsPlain (printUnquotedString text) :=
  ⟨34, text ++ [34], rfl, by decide, by decide⟩

theorem starts_bracket (text : Bytes) : StartsPlain (ascii "(" ++ text) :=
  ⟨40, text, rfl, by decide, by decide⟩

variable {name : Bytes}

theorem sorted_value_mem {value : Finset Bytes} : name ∈ sortedValue value ↔ name ∈ value :=
  Finset.mem_sort (· ≤ ·)

theorem parse_strings_reads (arePaths : Bool) (value : Finset Bytes)
    (each : ∀ text ∈ value, Reads id (if arePaths then parsePath else parseString)
      (printUnquotedString text) text) :
    Reads id (parseStrings arePaths) (printUnquotedStrings (sortedValue value)) value := by
  apply reads_expect
  apply reads_map (parse_list_back (fun text member => each text (sorted_value_mem.mp member))
    fun text _ => starts_quote text)
  rw [sorted_value_to_finset]
  exact reads_pure value

theorem parse_names_reads (value : Finset Bytes) (named : ∀ name ∈ value, NameText name) :
    Reads id (parseStrings false) (printUnquotedStrings (sortedValue value)) value :=
  parse_strings_reads false value fun name member => parse_unquoted_reads (named name member).clean

def printChild (origin : Bytes × InputNode) : Bytes :=
  ascii "(" ++ printUnquotedString origin.1 ++ ascii "," ++ unparseNode origin.2.val ++ ascii ")"

theorem unparse_children_eq (origins : List (Bytes × InputNode)) :
    unparseChildren (origins.map eraseOrder) = origins.map printChild := by
  induction origins with
  | nil => rfl
  | cons origin origins ih =>
    rw [map_cons, unparseChildren, ih]
    rfl

def withOrder (children : ChildMap) (ordered : ChildrenOrdered children) :
    List (Bytes × InputNode) :=
  children.pmap (fun entry isOrdered => (entry.1, ⟨entry.2, isOrdered⟩))
    ((children_ordered_iff children).mp ordered)

theorem with_order_erase (children : ChildMap) (ordered : ChildrenOrdered children) :
    (withOrder children ordered).map eraseOrder = children := by
  rw [withOrder, map_pmap]
  exact pmap_eq_self.mpr fun _ _ => rfl

variable {children : ChildMap}

theorem with_order_ascending (ordered : ChildrenOrdered children) (ascending : Ascending children) :
    Ascending (withOrder children ordered) := by
  rw [← with_order_erase children ordered, Ascending, pairwise_map] at ascending
  exact ascending

theorem make_with_order (value : Finset Bytes) (children : ChildMap)
    (ordered : Ordered (.node value children)) :
    makeNode value (assignAll
        (withOrder children (by rw [Ordered] at ordered; exact ordered.2))) =
      ⟨.node value children, ordered⟩ := by
  have parts := ordered
  rw [makeNode]
  simp [assign_all_entries _ (with_order_ascending parts.2 parts.1), with_order_erase]

theorem parse_non_dynamic_reads (value : Finset Bytes) (named : ∀ name ∈ value, NameText name)
    (ordered : Ordered (.node value [])) :
    Reads id parseNonDynamic (printUnquotedStrings (sortedValue value))
      ⟨.node value [], ordered⟩ := by
  apply reads_map (parse_names_reads value named)
  exact reads_pure _

theorem parse_child_reads {node : Parse InputNode} (origin : Bytes × InputNode)
    (named : NameText origin.1) (reads : Reads id node (unparseNode origin.2.val) origin.2) :
    Reads id (parseChild node) (printChild origin) origin := by
  rw [printChild, append_assoc, append_assoc]
  apply reads_expect
  apply reads_bind (parse_unquoted_reads named.clean)
  apply reads_expect
  apply reads_bind reads
  exact reads_map (expect_reads _) (reads_pure _)

theorem peek_eq (character : Byte) (rest : Bytes) :
    peek (character :: rest) = .ok (some character, character :: rest) := rfl

variable {encoded : Bytes}

theorem reads_peek {Value : Type} {next : Option Byte → Parse Value} {value : Value}
    (character : Byte) (starts : encoded.head? = some character)
    (reads : Reads id (next (some character)) encoded value) :
    Reads id (peek >>= next) encoded value := by
  intro text rest input
  obtain ⟨final, ran, remains⟩ := reads text rest input
  refine ⟨final, ?_, remains⟩
  obtain ⟨tail, shape⟩ := head?_eq_some_iff.mp starts
  have whole : text = character :: (tail ++ rest) := by
    rw [shape] at input
    exact input
  rw [bind_eq, whole, peek_eq, ← whole]
  exact ran

theorem unparse_node_children (value : Finset Bytes) (first : Bytes × ChildNode)
    (rest : ChildMap) :
    unparseNode (.node value (first :: rest)) =
      ascii "(" ++ (printUnquotedStrings (sortedValue value) ++ (ascii ",[" ++
        (([44].intercalate (unparseChildren (first :: rest)) ++ [93]) ++ ascii ")"))) := by
  rw [unparseNode, printList]
  simp only [List.append_assoc]
  rfl

theorem child_text_length {entry : Bytes × ChildNode} (member : entry ∈ children) :
    (unparseNode entry.2).length < ([44].intercalate (unparseChildren children)).length := by
  have printed : ∃ text ∈ unparseChildren children, (unparseNode entry.2).length < text.length := by
    induction children with
    | nil => cases member
    | cons first rest ih =>
      rcases mem_cons.mp member with same | inRest
      · refine ⟨_, mem_cons_self, ?_⟩
        rw [same]
        simp only [length_append]
        have bracket : (ascii ")").length = 1 := rfl
        omega
      · obtain ⟨text, inside, shorter⟩ := ih inRest
        exact ⟨text, mem_cons_of_mem _ inside, shorter⟩
  obtain ⟨text, inside, shorter⟩ := printed
  exact lt_of_lt_of_le shorter (length_le_intercalate inside)

mutual

theorem parse_node_reads (node : ChildNode) (ordered : Ordered node) (named : NodeNamed node)
    (depth : Nat) (enough : (unparseNode node).length < depth) :
    Reads id (parseDerivedPathMapNode .dynamicDerivations depth) (unparseNode node)
      ⟨node, ordered⟩ := by
  match depth, node with
  | depth + 1, .node value [] =>
    apply reads_peek 91 rfl
    exact parse_non_dynamic_reads value named.1 ordered
  | depth + 1, .node value (first :: rest) =>
    have parts := ordered
    rw [unparse_node_children] at enough
    rw [unparse_node_children]
    apply reads_peek 40 rfl
    apply reads_expect
    apply reads_bind (parse_names_reads value named.1)
    apply reads_expect
    have children := parse_children_read (first :: rest) parts.2 named.2 depth (by
      intro entry member
      have shorter := child_text_length member
      simp only [length_append] at enough
      omega)
    have texts := unparse_children_eq (withOrder (first :: rest) parts.2)
    rw [with_order_erase] at texts
    have list : Reads id
        (parseList (parseChild (parseDerivedPathMapNode .dynamicDerivations depth)))
        ([44].intercalate (unparseChildren (first :: rest)) ++ [93])
        (withOrder (first :: rest) parts.2) := by
      rw [texts]
      apply parse_list_back
      · intro origin member
        apply children origin
        rw [← with_order_erase (first :: rest) parts.2]
        exact mem_map_of_mem member
      · intro origin _
        exact starts_bracket _
    apply reads_bind list
    apply reads_map (expect_reads _)
    rw [make_with_order value (first :: rest) ordered]
    exact reads_pure _

theorem parse_children_read (children : ChildMap)
    (ordered : ChildrenOrdered children) (named : ChildrenNamed children) (depth : Nat)
    (enough : ∀ entry ∈ children, (unparseNode entry.2).length < depth) :
    ∀ origin : Bytes × InputNode, eraseOrder origin ∈ children →
      Reads id (parseChild (parseDerivedPathMapNode .dynamicDerivations depth))
        (printChild origin) origin := by
  match children with
  | [] =>
    intro origin member
    cases member
  | (outputName, child) :: rest =>
    intro origin member
    rcases mem_cons.mp member with same | inRest
    · obtain ⟨sameName, sameNode⟩ := Prod.mk.inj same
      subst sameName
      subst sameNode
      apply parse_child_reads _ named.1
      exact parse_node_reads _ ordered.1 named.2.1 depth
        (enough (_, _) mem_cons_self)
    · exact parse_children_read rest ordered.2 named.2.2 depth
        (fun entry inside => enough entry (mem_cons_of_mem _ inside)) origin inRest

end

def versionOf (drv : Derivation) : DerivationATermVersion :=
  if hasDynamicDrvDep drv then .dynamicDerivations else .traditional

theorem parse_version_reads (drv : Derivation) :
    Reads id parseVersion (unparseHead drv) (versionOf drv) := by
  rw [unparseHead, versionOf]
  by_cases dynamic : hasDynamicDrvDep drv = true
  · rw [if_pos dynamic, if_pos dynamic]
    apply reads_expect
    apply reads_peek 114 rfl
    apply reads_expect
    apply reads_bind (parse_unquoted_reads (by decide))
    exact reads_map (expect_reads _) (reads_pure _)
  · rw [if_neg dynamic, if_neg dynamic]
    apply reads_expect
    apply reads_peek 101 rfl
    exact reads_map (expect_reads _) (reads_pure _)

theorem node_reads (version : DerivationATermVersion) (node : InputNode)
    (named : NodeNamed node.val)
    (supported : version = .dynamicDerivations ∨ node.val.childMap = []) :
    Reads id (parseNode version) (unparseNode node.val) node := by
  intro text rest input
  have size : text.length = _ := congrArg length input
  rw [length_append] at size
  cases version with
  | dynamicDerivations =>
    exact parse_node_reads node.val node.property named (text.length + 1) (by omega) text rest input
  | traditional =>
    have leaf : node.val.childMap = [] := by
      rcases supported with impossible | leaf
      · cases impossible
      · exact leaf
    obtain ⟨⟨value, children⟩, ordered⟩ := node
    have noChildren : children = [] := leaf
    subst noChildren
    exact parse_non_dynamic_reads value named.1 ordered text rest input

theorem version_supports {drv : Derivation} {entry : StorePath × InputNode}
    (member : entry ∈ drv.inputDrvs.entries) :
    versionOf drv = .dynamicDerivations ∨ entry.2.val.childMap = [] := by
  rw [versionOf]
  by_cases dynamic : hasDynamicDrvDep drv = true
  · rw [if_pos dynamic]
    exact .inl rfl
  rw [Bool.not_eq_true, hasDynamicDrvDep, List.any_eq_false] at dynamic
  have isLeaf := dynamic entry member
  rw [Bool.not_eq_true', Bool.not_eq_false, List.isEmpty_iff] at isLeaf
  exact .inr isLeaf

variable {path : StorePath}

section Paths

variable (store : StoreDirConfig)

/-- A path whose text is one string and one component. -/
def PrintablePath (path : StorePath) : Prop :=
  Clean (printStorePath store path) ∧ path.separator ≠ 47

theorem print_store_path_injective : Function.Injective (printStorePath store) := by
  intro left right same
  exact base_name_injective (append_cancel_left same)

theorem validate_printed (path : StorePath) :
    validatePath (printStorePath store path) = .ok () := by
  obtain ⟨rest, begins, _⟩ := canon_path_ok store.canonical
  rw [printStorePath, begins]
  exact if_pos rfl

theorem lift_reads {Value : Type} {result : Except Failure Value} {value : Value}
    (isOk : result = .ok value) : Reads id (lift result) [] value := by
  intro text rest input
  rw [isOk]
  exact ⟨text, rfl, input⟩

theorem parse_path_reads (clean : Clean (printStorePath store path)) :
    Reads id parsePath (printUnquotedString (printStorePath store path))
      (printStorePath store path) := by
  apply reads_map (parse_unquoted_reads clean)
  exact reads_map (lift_reads (validate_printed store path)) (reads_pure _)

theorem parse_store_paths_printed (texts : List Bytes)
    (printed : ∀ text ∈ texts, ∃ path : StorePath, path.separator ≠ 47 ∧
      text = printStorePath store path) :
    ∃ paths, parseStorePaths store texts = .ok paths ∧ paths.map (printStorePath store) = texts := by
  induction texts with
  | nil => exact ⟨[], rfl, rfl⟩
  | cons text texts ih =>
    obtain ⟨path, plain, same⟩ := printed text mem_cons_self
    obtain ⟨paths, parsed, sames⟩ := ih fun other member =>
      printed other (mem_cons_of_mem _ member)
    refine ⟨path :: paths, ?_, ?_⟩
    · rw [parseStorePaths, same, parse_print_store_path store path plain, parsed]
      rfl
    · rw [map_cons, sames, same]

theorem parse_store_path_set_printed (paths : Finset StorePath)
    (plain : ∀ path ∈ paths, path.separator ≠ 47) :
    parseStorePathSet store (printStorePathSet store paths) = .ok paths := by
  obtain ⟨parsed, parsedOk, same⟩ := parse_store_paths_printed store
    (sortedValue (printStorePathSet store paths)) (by
      intro text member
      obtain ⟨path, inside, printed⟩ := Finset.mem_image.mp (sorted_value_mem.mp member)
      exact ⟨path, plain path inside, printed.symm⟩)
  have back : parsed.toFinset = paths := by
    apply Finset.image_injective (print_store_path_injective store)
    rw [← sorted_value_to_finset (paths.image (printStorePath store))]
    change _ = (sortedValue (printStorePathSet store paths)).toFinset
    rw [← same]
    ext text
    simp
  rw [parseStorePathSet, parsedOk, ← back]
  rfl

end Paths

section

variable (method : ContentAddressMethod) (algo : HashAlgorithm)

include method algo

theorem parse_render_method_algo :
    parsePrefix (renderMethodAlgo method algo) = (method, printHashAlgo algo) := by
  cases method <;> cases algo <;> rfl

theorem render_method_algo_clean : Clean (renderMethodAlgo method algo) := by
  cases method <;> cases algo <;> decide

theorem render_method_algo_ne : renderMethodAlgo method algo ≠ [] := by
  cases method <;> cases algo <;> decide

end

theorem print_hash16_ne_impure (hash : Bytes) : printHash16 hash ≠ ascii "impure" := by
  intro same
  have member : (105 : Byte) ∈ printHash16 hash := by
    rw [same]
    decide
  exact absurd (print_hash16_character member) (by decide)

theorem print_hash16_ne_nil (hash : Hash) : printHash16 hash.hash ≠ [] := by
  intro same
  have size := congrArg length same
  have positive : 0 < regularHashSize hash.algo := by
    cases hash.algo <;> decide
  rw [print_hash16_length, hash.hashSize, length_nil] at size
  omega

theorem print_hash16_clean (hash : Bytes) : Clean (printHash16 hash) := by
  constructor
  · intro member
    exact absurd (print_hash16_character member) (by decide)
  · intro member
    exact absurd (print_hash16_character member) (by decide)

section Outputs

variable (store : StoreDirConfig) (sha : Sha256)

def OutputPrintable (drvName outputName : Bytes) : DerivationOutput → Prop
  | .inputAddressed path => PrintablePath store path
  | .caFixed ca =>
    Clean store.storeDir ∧ AddressAllowed ca ∧
      checkName (outputPathName drvName outputName) = .ok ()
  | _ => True

/-- The three strings of an output and how they read back. -/
structure FieldsRead (output : DerivationOutput) (fields : Bytes × Bytes × Bytes) : Prop where
  path : Clean fields.1
  algo : Clean fields.2.1
  hash : Clean fields.2.2
  parsed : parseOutputFields store fields.1 fields.2.1 fields.2.2 = .ok output

theorem printed_path_ne_nil (path : StorePath) : printStorePath store path ≠ [] := by
  intro nothing
  have validated := validate_printed store path
  rw [nothing] at validated
  cases validated

theorem made_path_clean (plainDir : Clean store.storeDir) {ca : ContentAddressWithReferences}
    (made : makeFixedOutputPathFromCA store sha name ca = .ok path) :
    Clean (printStorePath store path) := by
  have hashClean : Clean path.hashPart :=
    clean_of_forall (fun _ member => path.hash_part_character member) (by decide) (by decide)
  have nameClean : Clean path.name :=
    clean_of_forall path.goodName.characters (by decide) (by decide)
  rw [printStorePath, path.base_name_eq, fixed_output_path_separator made]
  apply clean_append.mpr
  refine ⟨clean_append.mpr ⟨plainDir, by decide⟩, clean_append.mpr ⟨hashClean, ?_⟩⟩
  exact clean_cons.mpr ⟨by decide, by decide, nameClean⟩

theorem parse_method_fields (pathS hashS : Bytes) (method : ContentAddressMethod)
    (hashAlgo : HashAlgorithm) :
    parseOutputFields store pathS (renderMethodAlgo method hashAlgo) hashS =
      if hashS = ascii "impure" then
        if pathS ≠ [] then
          .error (.formatError (ascii "impure derivation output should not specify output path"))
        else .ok (.impure method hashAlgo)
      else if hashS ≠ [] then do
        validatePath pathS
        let hash ← parseHash hashS hashAlgo
        pure (.caFixed ⟨method, hash⟩)
      else if pathS ≠ [] then
        .error (.formatError
          (ascii "content-addressing derivation output should not specify output path"))
      else .ok (.caFloating method hashAlgo) := by
  rw [parseOutputFields, if_pos (render_method_algo_ne _ _), parse_render_method_algo]
  dsimp only
  rw [parse_print_hash_algo]
  rfl

variable {output : DerivationOutput} {outputName : Bytes}

theorem output_fields_read {drvName : Bytes}
    (printable : OutputPrintable store drvName outputName output) :
    ∃ fields, outputFields store sha drvName outputName false output = .ok fields ∧
      FieldsRead store output fields := by
  cases output with
  | inputAddressed path =>
    refine ⟨_, rfl, printable.1, clean_nil, clean_nil, ?_⟩
    change parseOutputFields store (printStorePath store path) [] [] = _
    rw [parseOutputFields, if_neg (printed_path_ne_nil store path),
      validate_printed, parse_print_store_path store path printable.2]
    rfl
  | caFixed ca =>
    obtain ⟨plainDir, allowed, goodName⟩ := printable
    obtain ⟨path, made⟩ :=
      (fixed_output_path_ok_iff store sha (outputPathName drvName outputName) ca).mpr
        ⟨allowed, goodName⟩
    refine ⟨(printStorePath store path, ca.printMethodAlgo, printHash16 ca.hash.hash), ?_,
      made_path_clean store sha plainDir made, render_method_algo_clean _ _,
      print_hash16_clean _, ?_⟩
    · rw [outputFields, fixedPath, made]
      rfl
    change parseOutputFields store (printStorePath store path)
      (renderMethodAlgo ca.method ca.hash.algo) (printHash16 ca.hash.hash) = _
    rw [parse_method_fields, if_neg (print_hash16_ne_impure _),
      if_pos (print_hash16_ne_nil _), validate_printed, parse_print_hash]
    rfl
  | caFloating method hashAlgo =>
    refine ⟨_, rfl, clean_nil, render_method_algo_clean _ _, clean_nil, ?_⟩
    rw [parse_method_fields]
    rfl
  | deferred => exact ⟨_, rfl, clean_nil, clean_nil, clean_nil, rfl⟩
  | impure method hashAlgo =>
    have impureClean : Clean (ascii "impure") := by decide
    refine ⟨_, rfl, clean_nil, render_method_algo_clean _ _, impureClean, ?_⟩
    rw [parse_method_fields]
    rfl

theorem parse_named_output_reads {fields : Bytes × Bytes × Bytes} (named : NameText outputName)
    (read : FieldsRead store output fields) :
    Reads id (parseNamedOutput store) (unparseFields outputName fields) (outputName, output) := by
  let tail := ascii "," ++ (printUnquotedString fields.1 ++ (ascii "," ++
    (printUnquotedString fields.2.1 ++ (ascii "," ++ (printUnquotedString fields.2.2 ++ ascii ")")))))
  have text : unparseFields outputName fields =
      ascii "(" ++ (printUnquotedString outputName ++ tail) := by
    rw [unparseFields]
    simp [tail]
  have output : Reads id (parseDerivationOutput store) tail output := by
    apply reads_expect
    apply reads_bind (parse_unquoted_reads read.path)
    apply reads_expect
    apply reads_bind (parse_unquoted_reads read.algo)
    apply reads_expect
    apply reads_bind (parse_unquoted_reads read.hash)
    exact reads_map (expect_reads _) (lift_reads read.parsed)
  rw [text]
  apply reads_expect
  apply reads_bind (parse_unquoted_reads named.clean)
  exact reads_map output (reads_pure _)

theorem outputs_read (drvName : Bytes) (entries : List (Bytes × DerivationOutput))
    (named : ∀ entry ∈ entries, NameText entry.1)
    (printable : ∀ entry ∈ entries, OutputPrintable store drvName entry.1 entry.2) :
    ∃ pairs : List ((Bytes × DerivationOutput) × Bytes), pairs.map Prod.fst = entries ∧
      unparseOutputs store sha drvName false entries = .ok (pairs.map Prod.snd) ∧
      ∀ pair ∈ pairs, Reads id (parseNamedOutput store) pair.2 pair.1 ∧ StartsPlain pair.2 := by
  induction entries with
  | nil => exact ⟨[], rfl, rfl, nofun⟩
  | cons entry entries ih =>
    obtain ⟨fields, made, read⟩ :=
      output_fields_read store sha (printable entry mem_cons_self)
    obtain ⟨pairs, same, rest, reads⟩ := ih
      (fun other member => named other (mem_cons_of_mem _ member))
      (fun other member => printable other (mem_cons_of_mem _ member))
    refine ⟨(entry, unparseFields entry.1 fields) :: pairs, ?_, ?_, ?_⟩
    · rw [map_cons, same]
    · rw [unparseOutputs, made, rest]
      rfl
    · rw [forall_mem_cons]
      refine ⟨⟨?_, ?_⟩, reads⟩
      · exact parse_named_output_reads store (named entry mem_cons_self) read
      · rw [unparseFields]
        exact starts_bracket _

end Outputs

section

variable (store : StoreDirConfig) (sha : Sha256)

structure Printable (drv : Derivation) : Prop where
  outputs : ∀ entry ∈ drv.outputs.entries, OutputPrintable store drv.name entry.1 entry.2
  inputDrvs : ∀ entry ∈ drv.inputDrvs.entries, PrintablePath store entry.1
  inputSrcs : ∀ path ∈ drv.inputSrcs, PrintablePath store path
  platform : Clean drv.platform

def listRest (texts : List Bytes) : Bytes := [44].intercalate texts ++ [93]

def textBefore (drv : Derivation) (outputs inputs : List Bytes) : Bytes :=
  unparseHead drv ++ (ascii "[" ++ (listRest outputs ++ (ascii ",[" ++
    (listRest inputs ++ (ascii "," ++
      (printUnquotedStrings (sortedValue (printStorePathSet store drv.inputSrcs)) ++ ascii ","))))))

def textAfter (drv : Derivation) : Bytes :=
  ascii "," ++ (printString drv.builder ++ (ascii ",[" ++ (listRest (drv.args.map printString) ++
    (ascii ",[" ++ (listRest (unparseEnv drv false) ++ ascii ")")))))

theorem unparse_eq (drv : Derivation) {outputs : List Bytes}
    (printed : unparseOutputs store sha drv.name false drv.outputs.entries = .ok outputs)
    (actualInputs : Option ChildMap) :
    unparse store sha drv false actualInputs =
      .ok (textBefore store drv outputs (unparseInputs store drv actualInputs) ++
        (printUnquotedString drv.platform ++ textAfter drv)) := by
  rw [unparse, printed]
  simp only [textBefore, textAfter, listRest, printList, printStrings, append_assoc]
  rfl

theorem env_reads (drv : Derivation) :
    Reads id (parseList parseEnvEntry) (listRest (unparseEnv drv false)) drv.env.entries := by
  apply parse_list_back
  · intro entry _
    simp only [append_assoc]
    apply reads_expect
    apply reads_bind (parse_string_reads _)
    apply reads_expect
    apply reads_bind (parse_string_reads _)
    exact reads_map (expect_reads _) (reads_pure _)
  · intro entry _
    exact starts_bracket _

theorem args_read (args : List Bytes) :
    Reads id (parseList parseString) (listRest (args.map printString)) args := by
  apply parse_list_back
  · intro text _
    exact parse_string_reads text
  · intro text _
    exact ⟨34, text.flatMap escape ++ [34], rfl, by decide, by decide⟩

section

variable (drv : Derivation) (named : Named drv)

include drv named

theorem inputs_read (printable : ∀ entry ∈ drv.inputDrvs.entries, PrintablePath store entry.1) :
    Reads id (parseList (parseInput store (versionOf drv))) (listRest (drv.inputTexts store))
      drv.inputDrvs.entries := by
  apply parse_list_back
  · rintro ⟨path, node⟩ member
    have good := printable _ member
    rw [unparseInput, append_assoc, append_assoc]
    apply reads_expect
    apply reads_bind (parse_path_reads store good.1)
    apply reads_expect
    apply reads_bind (lift_reads (parse_print_store_path store path good.2))
    apply reads_bind (node_reads _ node (named.inputs _ member) (version_supports member))
    exact reads_map (expect_reads _) (reads_pure _)
  · intro entry _
    exact starts_bracket _

theorem parse_body_reads (printable : Printable store drv) :
    ∃ text, unparse store sha drv false none = .ok text ∧
      Reads id (parseBody store drv.name) text drv := by
  obtain ⟨pairs, entries, printed, outputReads⟩ := outputs_read store sha drv.name
    drv.outputs.entries named.outputs printable.outputs
  have outputs : Reads id (parseList (parseNamedOutput store)) (listRest (pairs.map Prod.snd))
      (pairs.map Prod.fst) := by
    apply parse_list_reads
    · intro pair member
      exact (outputReads pair member).1
    · intro pair member
      exact (outputReads pair member).2
  rw [entries] at outputs
  refine ⟨_, unparse_eq store sha drv printed none, ?_⟩
  rw [textBefore]
  simp only [append_assoc]
  apply reads_bind (parse_version_reads drv)
  apply reads_expect
  apply reads_bind outputs
  apply reads_expect
  apply reads_bind (inputs_read store drv named printable.inputDrvs)
  apply reads_expect
  apply reads_bind (parse_strings_reads true _ fun text member => by
    obtain ⟨path, inside, printed⟩ := Finset.mem_image.mp member
    rw [← printed]
    exact parse_path_reads store (printable.inputSrcs path inside).1)
  apply reads_bind (lift_reads (parse_store_path_set_printed store drv.inputSrcs
    fun path member => (printable.inputSrcs path member).2))
  apply reads_expect
  apply reads_bind (parse_unquoted_reads printable.platform)
  apply reads_expect
  apply reads_bind (parse_string_reads _)
  apply reads_expect
  apply reads_bind (args_read drv.args)
  apply reads_expect
  apply reads_bind (env_reads drv)
  apply reads_map (expect_reads _)
  have outputsBack : emplaceAll drv.outputs.entries = drv.outputs :=
    SortedMap.ext (emplace_all_entries _ drv.outputs.ascending)
  have envBack : assignAll drv.env.entries = drv.env :=
    SortedMap.ext (assign_all_entries _ drv.env.ascending)
  have inputsBack : assignAll drv.inputDrvs.entries = drv.inputDrvs :=
    SortedMap.ext (assign_all_entries _ drv.inputDrvs.ascending)
  rw [outputsBack, envBack, inputsBack]
  exact reads_pure drv

/-- A printable derivation is read back from its text. -/
theorem printable_round_trip (printable : Printable store drv) :
    ∃ text, unparse store sha drv false none = .ok text ∧
      parseDerivation store text drv.name = .ok drv := by
  obtain ⟨text, printed, reads⟩ := parse_body_reads store sha drv named printable
  obtain ⟨final, ran, _⟩ := reads text [] (append_nil _).symm
  refine ⟨text, printed, ?_⟩
  rw [parseDerivation, ran]

end

end

end Bsd.Store.DerivationRoundTrip
