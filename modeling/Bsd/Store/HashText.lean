import Bsd.Lib.QuotedText
import Bsd.Store.PathFingerprints
import Bsd.Store.HashModulo

/-!
# The hashed text determines the derivation

The text is read from the left up to the platform, which is printed without
escapes. Behind it come strings with escapes in brackets, and only one string is
outside of all brackets, so the end of the platform is found as well.
-/

namespace Bsd.Store.HashText

open List Lib.Occurrences Lib.OrdMap Lib.Readers Lib.PrefixCodes Lib.QuotedText Util.FilePath
open Util.Hashes
open Store.Path Store.ContentAddresses Store.Derivations Store.DerivationText
open Store.DerivationRoundTrip Store.DerivationReread Store.HashModulo Store.PathFingerprints

theorem escape_content (character : Byte) : StringContent (escape character) := by
  intro depth begun
  rw [escape]
  split_ifs with special
  · rfl
  · rfl
  · rfl
  · rfl
  · rw [not_or] at special
    exact (if_neg special.1).trans (if_neg special.2)

theorem print_string_content (text : Bytes) : StringContent (text.flatMap escape) := by
  intro depth begun
  induction text with
  | nil => rfl
  | cons byte text ih => rw [flatMap_cons, scan_text_append, escape_content byte, ih]

theorem print_string_balanced {depth : Int} (inBrackets : depth ≠ 0) (text : Bytes) :
    Balanced depth (printString text) := by
  intro begun
  refine (scan_string (print_string_content text) ..).trans ?_
  rw [if_neg inBrackets]

theorem args_balanced (args : List Bytes) :
    Balanced 0 ([91] ++ [44].intercalate (args.map printString) ++ [93]) := by
  apply Balanced.square
  apply balanced_joined
  intro text member
  obtain ⟨argument, _, printed⟩ := mem_map.mp member
  rw [← printed]
  exact print_string_balanced (by decide) argument

theorem env_balanced (drv : Derivation) (maskOutputs : Bool) :
    Balanced 0 ([91] ++ [44].intercalate (unparseEnv drv maskOutputs) ++ [93]) := by
  apply Balanced.square
  apply balanced_joined
  intro text member
  obtain ⟨entry, _, printed⟩ := mem_map.mp member
  rw [← printed]
  dsimp only
  rw [append_assoc (ascii "(")]
  rw [append_assoc (ascii "(")]
  apply Balanced.round
  apply Balanced.append
  · apply Balanced.append
    · exact print_string_balanced (by decide) _
    · exact balanced_comma _
  · exact print_string_balanced (by decide) _

theorem text_after_tail (drv : Derivation) : IsTail (textAfter drv) := by
  have shape : textAfter drv = [44] ++ ([34] ++ drv.builder.flatMap escape ++ [34]) ++
      (([44] ++ ([91] ++ [44].intercalate (drv.args.map printString) ++ [93])) ++
        ([44] ++ ([91] ++ [44].intercalate (unparseEnv drv false) ++ [93]))) ++ [41] := by
    simp only [textAfter, printString, listRest, append_assoc]
    rfl
  rw [shape]
  apply tail_of_balanced (print_string_content drv.builder)
  exact ((balanced_comma 0).append (args_balanced drv.args)).append
    ((balanced_comma 0).append (env_balanced drv false))

variable {left right : Derivation}

theorem text_after_inj (same : textAfter left = textAfter right) :
    left.builder = right.builder ∧ left.args = right.args ∧ left.env = right.env := by
  obtain ⟨builder, same⟩ := reads_append_inj (parse_string_reads left.builder)
    (parse_string_reads right.builder) (append_cancel_left same)
  obtain ⟨args, same⟩ := reads_append_inj (args_read left.args) (args_read right.args)
    (append_cancel_left same)
  obtain ⟨env, _⟩ := reads_append_inj (env_reads left) (env_reads right)
    (append_cancel_left same)
  exact ⟨builder, args, SortedMap.ext env⟩

variable {moreLeft moreRight : Bytes}

section Paths

variable (store : StoreDirConfig)

def printField (path : Option StorePath) : Bytes :=
  printUnquotedString ((path.map (printStorePath store)).getD [])

theorem print_path_code : PrefixCode (fun _ => True)
    (fun path => printUnquotedString (printStorePath store path)) := by
  intro left right _ _ moreLeft moreRight same
  simp only [printUnquotedString, append_assoc] at same
  apply marked_path_code (by decide : isNameCharacter 34 = false) left right trivial trivial
  rw [append_assoc, append_assoc]
  exact append_cancel_left same

theorem print_field_nil_ne (path : StorePath) (more other : Bytes) :
    printField store none ++ more ≠ printField store (some path) ++ other := by
  obtain ⟨rest, begins, _⟩ := canon_path_ok store.canonical
  intro same
  have text : printField store (some path) =
      34 :: 47 :: (rest ++ ascii "/" ++ path.baseName ++ ascii "\"") := by
    change ascii "\"" ++ printStorePath store path ++ ascii "\"" = _
    rw [printStorePath, begins]
    rfl
  rw [text] at same
  have slash : (34 : Byte) = 47 := (cons.inj (cons.inj same).2).1
  exact absurd slash (by decide)

theorem print_field_code : PrefixCode (fun _ => True) (printField store) := by
  intro left right _ _ moreLeft moreRight same
  cases left with
  | none =>
    cases right with
    | none => exact ⟨rfl, append_cancel_left same⟩
    | some path => exact absurd same (print_field_nil_ne store path _ _)
  | some leftPath =>
    cases right with
    | none => exact absurd same.symm (print_field_nil_ne store leftPath _ _)
    | some rightPath =>
      obtain ⟨samePath, sameMore⟩ :=
        print_path_code store leftPath rightPath trivial trivial _ _ same
      exact ⟨congrArg some samePath, sameMore⟩

theorem sources_inj {left right : Finset StorePath}
    (same : printUnquotedStrings (sortedValue (printStorePathSet store left)) ++ moreLeft =
      printUnquotedStrings (sortedValue (printStorePathSet store right)) ++ moreRight) :
    left = right ∧ moreLeft = moreRight := by
  obtain ⟨leftPaths, _, leftSet, leftSorted⟩ := sorted_sources store left
  obtain ⟨rightPaths, _, rightSet, rightSorted⟩ := sorted_sources store right
  have joined : PrefixCode (fun paths : List StorePath => ∀ path ∈ paths, True)
      (fun paths => [44].intercalate
        (paths.map fun path => printUnquotedString (printStorePath store path)) ++ [93]) := by
    apply prefix_code_joined (print_path_code store) (by decide)
    intro path _
    exact ⟨34, _, rfl, by decide⟩
  have shape : ∀ (paths : List StorePath) (more : Bytes),
      printUnquotedStrings (paths.map (printStorePath store)) ++ more = ascii "[" ++
        (([44].intercalate
          (paths.map fun path => printUnquotedString (printStorePath store path)) ++ [93]) ++ more) := by
    intro paths more
    rw [printUnquotedStrings, map_map]
    rfl
  rw [leftSorted, rightSorted, shape, shape] at same
  obtain ⟨samePaths, sameMore⟩ := joined leftPaths rightPaths (fun _ _ => trivial)
    (fun _ _ => trivial) _ _ (append_cancel_left same)
  exact ⟨by rw [← leftSet, ← rightSet, samePaths], sameMore⟩

end Paths

def outputCode : DerivationOutput → Option StorePath × Bytes × Bytes
  | .inputAddressed path => (some path, [], [])
  | .caFloating method hashAlgo => (none, renderMethodAlgo method hashAlgo, [])
  | .impure method hashAlgo => (none, renderMethodAlgo method hashAlgo, ascii "impure")
  | _ => (none, [], [])

variable {method otherMethod : ContentAddressMethod} {algo otherAlgo : HashAlgorithm}

theorem render_method_algo_inj_iff :
    renderMethodAlgo method algo = renderMethodAlgo otherMethod otherAlgo ↔
      method = otherMethod ∧ algo = otherAlgo := by
  refine ⟨fun same => ?_, fun both => by rw [both.1, both.2]⟩
  have parsed := congrArg parsePrefix same
  rw [parse_render_method_algo, parse_render_method_algo] at parsed
  obtain ⟨sameMethod, sameText⟩ := Prod.mk.inj parsed
  refine ⟨sameMethod, ?_⟩
  have sameAlgo := congrArg parseHashAlgo sameText
  rw [parse_print_hash_algo, parse_print_hash_algo] at sameAlgo
  exact Except.ok.inj sameAlgo

theorem output_code_inj {left right : DerivationOutput} (leftPlain : isCaFixed left = false)
    (rightPlain : isCaFixed right = false) (same : outputCode left = outputCode right) :
    left = right := by
  have impureNe : ascii "impure" ≠ [] := by decide
  cases left <;> cases right <;>
    simp_all [outputCode, isCaFixed, render_method_algo_ne, render_method_algo_inj_iff]

theorem output_code_clean (output : DerivationOutput) :
    Clean (outputCode output).2.1 ∧ Clean (outputCode output).2.2 := by
  cases output with
  | inputAddressed | caFixed | deferred => exact ⟨clean_nil, clean_nil⟩
  | caFloating method hashAlgo => exact ⟨render_method_algo_clean _ _, clean_nil⟩
  | impure method hashAlgo =>
    have impureClean : Clean (ascii "impure") := by decide
    exact ⟨render_method_algo_clean _ _, impureClean⟩

section Outputs

variable (store : StoreDirConfig) (sha : Sha256)

def outputText (entry : Bytes × DerivationOutput) : Bytes :=
  unparseFields entry.1 (((outputCode entry.2).1.map (printStorePath store)).getD [],
    (outputCode entry.2).2)

theorem unparse_outputs_plain (drvName : Bytes) {entries : List (Bytes × DerivationOutput)}
    (plain : ∀ entry ∈ entries, isCaFixed entry.2 = false) :
    unparseOutputs store sha drvName false entries = .ok (entries.map (outputText store)) := by
  induction entries with
  | nil => rfl
  | cons entry rest ih =>
    rw [forall_mem_cons] at plain
    have fields : outputFields store sha drvName entry.1 false entry.2 =
        .ok (((outputCode entry.2).1.map (printStorePath store)).getD [],
          (outputCode entry.2).2) := by
      cases kind : entry.2 with
      | caFixed ca =>
        rw [kind] at plain
        cases plain.1
      | inputAddressed | caFloating | deferred | impure => rfl
    rw [unparseOutputs, fields, ih plain.2]
    rfl

theorem output_text_code : PrefixCode
    (fun entry : Bytes × DerivationOutput => NameText entry.1 ∧ isCaFixed entry.2 = false)
    (outputText store) := by
  intro left right leftGood rightGood moreLeft moreRight same
  have shape : ∀ (entry : Bytes × DerivationOutput) (more : Bytes), outputText store entry ++ more =
      ascii "(" ++ (printUnquotedString entry.1 ++ (ascii "," ++
        (printField store (outputCode entry.2).1 ++ (ascii "," ++
          (printUnquotedString (outputCode entry.2).2.1 ++ (ascii "," ++
            (printUnquotedString (outputCode entry.2).2.2 ++ (ascii ")" ++ more)))))))) := by
    intro entry more
    rw [outputText, unparseFields, printField]
    simp
  rw [shape, shape] at same
  obtain ⟨sameName, same⟩ := reads_append_inj (parse_unquoted_reads leftGood.1.clean)
    (parse_unquoted_reads rightGood.1.clean) (append_cancel_left same)
  obtain ⟨samePath, same⟩ :=
    print_field_code store _ _ trivial trivial _ _ (append_cancel_left same)
  obtain ⟨sameAlgo, same⟩ := reads_append_inj (parse_unquoted_reads (output_code_clean left.2).1)
    (parse_unquoted_reads (output_code_clean right.2).1) (append_cancel_left same)
  obtain ⟨sameHash, same⟩ := reads_append_inj (parse_unquoted_reads (output_code_clean left.2).2)
    (parse_unquoted_reads (output_code_clean right.2).2) (append_cancel_left same)
  have sameOutput : left.2 = right.2 := by
    apply output_code_inj leftGood.2 rightGood.2
    exact Prod.ext samePath (Prod.ext sameAlgo sameHash)
  exact ⟨Prod.ext sameName sameOutput, append_cancel_left same⟩

end Outputs

variable {type : DerivationType}

theorem fixed_type_ok {outputs : List (Bytes × DerivationOutput)}
    (isType : fixedType outputs = .ok type) : type = .contentAddressed false true := by
  rw [fixedType.eq_def] at isType
  split at isType
  · split at isType
    · exact (Except.ok.inj isType).symm
    · cases isType
  · cases isType

variable {drv : Derivation}

theorem type_not_fixed (isType : drv.type = .ok type) (notFixed : type.isFixed = false) :
    ∀ entry ∈ drv.outputs.entries, isCaFixed entry.2 = false := by
  intro entry member
  obtain ⟨_, _, chosen⟩ := except_bind_ok isType
  have otherKind : ∀ kind : DerivationOutput → Bool,
      (∀ output, kind output = true → isCaFixed output = false) →
      (drv.outputs.entries.all fun entry => kind entry.2) = true → isCaFixed entry.2 = false := by
    intro kind excludes all
    exact excludes entry.2 (all_eq_true.mp all entry member)
  split_ifs at chosen with isEmpty allPath allFixed allFloating allDeferred allImpure
  · exact otherKind isInputAddressed (fun output _ => by cases output <;> trivial) allPath
  · rw [fixed_type_ok chosen] at notFixed
    cases notFixed
  · exact otherKind isCaFloating (fun output _ => by cases output <;> trivial) allFloating
  · exact otherKind isDeferred (fun output _ => by cases output <;> trivial) allDeferred
  · exact otherKind isImpure (fun output _ => by cases output <;> trivial) allImpure

theorem type_outputs_ne (isType : drv.type = .ok type) : drv.outputs.entries ≠ [] := by
  intro noOutputs
  rw [Derivation.type, noOutputs] at isType
  cases isType

def leafNode (value : Finset Bytes) : InputNode := makeNode value (SortedMap.assignAll [])

def InputsNamed (inputs2 : OutputsByHash) : Prop :=
  ∀ entry ∈ inputs2.entries, NameText entry.1 ∧ ∀ name ∈ entry.2, NameText name

def leafEntry (entry : Bytes × Finset Bytes) : Bytes × InputNode := (entry.1, leafNode entry.2)

theorem leaf_entry_injective : Function.Injective leafEntry := by
  intro left right same
  obtain ⟨sameKey, sameNode⟩ := Prod.mk.inj same
  have sameValue := congrArg (fun node : InputNode => node.val.value) sameNode
  exact Prod.ext sameKey sameValue

theorem actual_inputs_read (store : StoreDirConfig) (drv : Derivation)
    {inputs2 : OutputsByHash} (named : InputsNamed inputs2) :
    Reads id (parseList (parseChild parseNonDynamic))
      (listRest (unparseInputs store drv (some (actualInputs inputs2))))
      (inputs2.entries.map leafEntry) := by
  have texts : unparseInputs store drv (some (actualInputs inputs2)) =
      inputs2.entries.map fun entry => printChild (leafEntry entry) := by
    rw [unparseInputs, actualInputs, map_map]
    rfl
  rw [texts]
  apply parse_list_reads
  · intro entry member
    obtain ⟨keyNamed, valueNamed⟩ := named entry member
    apply parse_child_reads (leafEntry entry) keyNamed
    exact parse_non_dynamic_reads entry.2 valueNamed (leafNode entry.2).property
  · intro entry _
    exact starts_bracket _

variable {leftInputs rightInputs : OutputsByHash} {store : StoreDirConfig}

def PlainOutputs (drv : Derivation) : Prop :=
  ∀ entry ∈ drv.outputs.entries, NameText entry.1 ∧ isCaFixed entry.2 = false

theorem preimage_eq (store : StoreDirConfig) (sha : Sha256) (plain : PlainOutputs drv)
    (inputs2 : OutputsByHash) : preimage store sha drv false inputs2 =
      .ok (textBefore store drv (drv.outputs.entries.map (outputText store))
          (unparseInputs store drv (some (actualInputs inputs2))) ++
        (printUnquotedString drv.platform ++ textAfter drv)) :=
  unparse_eq store sha drv
    (unparse_outputs_plain store sha drv.name fun entry member => (plain entry member).2) _

theorem preimage_inj {sha : Sha256} (leftPlain : PlainOutputs left)
    (rightPlain : PlainOutputs right) (leftNamed : InputsNamed leftInputs)
    (rightNamed : InputsNamed rightInputs)
    (same : preimage store sha left false leftInputs = preimage store sha right false rightInputs) :
    SameParts left right ∧ leftInputs = rightInputs := by
  rw [preimage_eq store sha leftPlain, preimage_eq store sha rightPlain] at same
  have texts := Except.ok.inj same
  rw [textBefore, textBefore] at texts
  simp only [append_assoc] at texts
  obtain ⟨version, texts⟩ :=
    reads_append_inj (parse_version_reads left) (parse_version_reads right) texts
  have dynamic : hasDynamicDrvDep left = hasDynamicDrvDep right := by
    rw [versionOf, versionOf] at version
    cases leftDynamic : hasDynamicDrvDep left <;> cases rightDynamic : hasDynamicDrvDep right <;>
      simp_all
  obtain ⟨outputs, texts⟩ := prefix_code_joined (output_text_code store) (by decide)
    (fun entry _ => ⟨40, _, rfl, by decide⟩) _ _ leftPlain rightPlain _ _ (append_cancel_left texts)
  obtain ⟨inputs, texts⟩ := reads_append_inj (actual_inputs_read store left leftNamed)
    (actual_inputs_read store right rightNamed) (append_cancel_left texts)
  obtain ⟨inputSrcs, texts⟩ := sources_inj store (append_cancel_left texts)
  have tails := append_cancel_left texts
  simp only [printUnquotedString, append_assoc] at tails
  obtain ⟨platform, tails⟩ := tail_unique (text_after_tail left) (text_after_tail right)
    (append_cancel_left tails)
  obtain ⟨builder, args, env⟩ := text_after_inj tails
  exact ⟨⟨dynamic, SortedMap.ext outputs, inputSrcs, platform, builder, args, env⟩,
    SortedMap.ext (leaf_entry_injective.list_map inputs)⟩

end Bsd.Store.HashText
