import Bsd.Store.HashProvenance
import Bsd.Store.HashText

/-!
# What the hash of a derivation tells

Two derivations with the same hash agree on everything that stands in the hashed
text. Of the inputs these are the outputs that are used directly; of the outputs of
outputs, in the nested `childMap`s, the text tells only whether there are any.
-/

namespace Bsd.Store.HashSeparation

open List Lib.Occurrences Lib.OrdMap Lib.Readers Lib.Memo Util.Hashes Store.Path
  SortedMap
open Store.ContentAddresses Store.Derivations Store.DerivationRoundTrip
open Store.HashModulo Store.HashProvenance Store.HashText

def NonFixed (drv : Derivation) : Prop := ∃ type, drv.type = .ok type ∧ type.isFixed = false

section

variable (store : StoreDirConfig) (sha : Sha256) (readFile : ReadFile)

/-- Some call of `hashDerivationModulo(drv, false)` returns this. -/
def Gives (drv : Derivation) (result : DrvHash) : Prop :=
  ∃ depth drvHashes, Filled store sha readFile drvHashes ∧
    (hashDerivationModulo store sha readFile depth drv false drvHashes).1 = .ok result

def SameHash (left right : Derivation) : Prop :=
  ∃ leftResult rightResult, Gives store sha readFile left leftResult ∧
    Gives store sha readFile right rightResult ∧
    ∃ leftName rightName hash, leftResult.hashes.get leftName = some hash ∧
      rightResult.hashes.get rightName = some hash

def OutputHash (drvPath : StorePath) (name : Bytes) (hash : Hash) : Prop :=
  ∃ res, PathHash store sha readFile drvPath res ∧ res.hashes.get name = some hash

def HashAt (drvPath : StorePath) (name : Bytes) : Option Hash → Prop
  | some hash => OutputHash store sha readFile drvPath name hash
  | none => ∀ hash, ¬ OutputHash store sha readFile drvPath name hash

/-- An output in the tree of inputs, used itself or with the outputs in a node
below it. The hash stands in the place of the path. -/
def InputItem (drv : Derivation) (hash : Option Hash) (name : Bytes) (child : Option ChildNode) :
    Prop :=
  ∃ entry ∈ drv.inputDrvs.entries, HashAt store sha readFile entry.1 name hash ∧ match child with
    | none => name ∈ entry.2.val.value
    | some node => (name, node) ∈ entry.2.val.childMap

structure Agree (left right : Derivation) : Prop where
  outputs : left.outputs = right.outputs
  inputSrcs : left.inputSrcs = right.inputSrcs
  platform : left.platform = right.platform
  builder : left.builder = right.builder
  args : left.args = right.args
  env : left.env = right.env
  inputDrvs : ∀ hash name child, InputItem store sha readFile left hash name child ↔
    InputItem store sha readFile right hash name child

def Gathers (drv : Derivation) (gathered : Gathered) : Prop :=
  ∃ type, drv.type = .ok type ∧ ∃ depth,
    (gatherInputs drv.name drv.inputDrvs.entries ⟨kindOf type, SortedMap.empty⟩).eval
      (plain .outOfDepth (pathCalls store sha readFile) depth) = .ok gathered

def HashedText (drv : Derivation) (text : Bytes) : Prop :=
  ∃ gathered, Gathers store sha readFile drv gathered ∧
    preimage store sha drv false gathered.inputs2 = .ok text

/-- SHA-256 does not map the texts of two derivations to one hash, unless they are
the same text. -/
def NoCollision (left right : Derivation) : Prop :=
  ∀ leftText rightText, HashedText store sha readFile left leftText →
    HashedText store sha readFile right rightText →
    sha.digest leftText = sha.digest rightText → leftText = rightText

end

variable {name : Bytes} {hash : Hash}

section Hashes

variable {store : StoreDirConfig} {sha : Sha256} {readFile : ReadFile}
  {drv : Derivation} {result : DrvHash}

theorem gives_iff :
    Gives store sha readFile drv result ↔ HashesTo store sha readFile drv false result := by
  constructor
  · intro gives
    obtain ⟨depth, drvHashes, filled, ran⟩ := gives
    exact (eval_memo_faithful (memo_faithful depth) _ _ filled.sound).2 result ran
  intro hashes
  obtain ⟨depth, evaluated⟩ := hashes
  exact ⟨depth, empty, Filled.empty,
    eval_memo_finds (memo_faithful depth) (memo_finds depth) _ _ sound_empty evaluated⟩

theorem fixed_hashes_mem {drvName : Bytes} {outputs : List (Bytes × DerivationOutput)}
    {hashes : List (Bytes × Hash)} (made : fixedHashes store sha drvName outputs = .ok hashes) :
    ∀ entry ∈ hashes, ∃ text, entry.2 = hashString sha text := by
  induction outputs generalizing hashes with
  | nil =>
    rw [← Except.ok.inj made]
    exact nofun
  | cons output rest ih =>
    obtain ⟨name, kind⟩ := output
    cases kind with
    | caFixed ca =>
      obtain ⟨text, _, made⟩ := except_bind_ok made
      obtain ⟨more, moreMade, made⟩ := except_bind_ok made
      rw [← Except.ok.inj made, forall_mem_cons]
      exact ⟨⟨text, rfl⟩, ih moreMade⟩
    | inputAddressed | caFloating | deferred | impure => cases made

theorem hash_calls_made {maskOutputs : Bool} {answer : Answers}
    (evaluated : (hashCalls store sha drv maskOutputs).eval answer = .ok result)
    (found : result.hashes.get name = some hash) : ∃ text, hash = hashString sha text := by
  cases isType : drv.type with
  | error failure =>
    rw [hashCalls, isType] at evaluated
    cases evaluated
  | ok type =>
    cases fixed : type.isFixed with
    | true =>
      rw [hash_calls_fixed isType fixed] at evaluated
      obtain ⟨hashes, made, isResult⟩ := map_ok_iff.mp evaluated
      rw [← isResult] at found
      exact fixed_hashes_mem made _ (get_assign_all found)
    | false =>
      obtain ⟨gathered, _, text, _, isResult⟩ := (hash_calls_ok_iff isType fixed).mp evaluated
      rw [isResult] at found
      obtain ⟨entry, _, same⟩ := mem_map.mp (get_assign_all found)
      exact ⟨text, (congrArg Prod.snd same).symm⟩

theorem output_hash_made {drvPath : StorePath}
    (outputHash : OutputHash store sha readFile drvPath name hash) :
    ∃ text, hash = hashString sha text := by
  obtain ⟨res, ⟨depth, ends⟩, found⟩ := outputHash
  cases depth with
  | zero => cases ends
  | succ depth =>
    rw [plain, pathCalls, Calls.eval_bind] at ends
    obtain ⟨derivation, _, evaluated⟩ := except_bind_ok ends
    exact hash_calls_made evaluated found

end Hashes

section

variable {store : StoreDirConfig} {sha : Sha256} {readFile : ReadFile}
  {drv : Derivation}

def Uses (store : StoreDirConfig) (sha : Sha256) (readFile : ReadFile)
    (drv : Derivation) (name : Bytes) (hash : Hash) : Prop :=
  ∃ entry ∈ drv.inputDrvs.entries, OutputHash store sha readFile entry.1 name hash ∧
    name ∈ entry.2.val.value

/-- What has been gathered: every output that is used has a hash, and `inputs2`
lists the outputs under the texts of their hashes. -/
structure GatheredUses (store : StoreDirConfig) (sha : Sha256)
    (readFile : ReadFile) (drv : Derivation)
    (inputs2 : OutputsByHash) : Prop where
  hashed : ∀ entry ∈ drv.inputDrvs.entries, ∀ name ∈ entry.2.val.value,
    ∃ hash, OutputHash store sha readFile entry.1 name hash
  full : inputs2.Full
  lists : ∀ key name, inputs2.Lists key name ↔
    ∃ hash, Uses store sha readFile drv name hash ∧ key = printHash16 hash.hash

theorem gathers_uses {gathered : Gathered} (gathers : Gathers store sha readFile drv gathered) :
    GatheredUses store sha readFile drv gathered.inputs2 := by
  obtain ⟨type, _, depth, ran⟩ := gathers
  have gatheredFrom := gather_ok ran
  refine ⟨?_, gatheredFrom.full full_empty, ?_⟩
  · intro entry member name used
    obtain ⟨res, answer, hashes⟩ := gatheredFrom.answered entry member
    obtain ⟨hash, found⟩ := hashes name used
    exact ⟨hash, res, ⟨depth, answer⟩, found⟩
  intro key name
  have notBefore : ¬Lists (empty : OutputsByHash) key name := by
    rintro ⟨_, found, _⟩
    cases found
  rw [gatheredFrom.lists, or_iff_right notBefore]
  constructor
  · intro refers
    obtain ⟨entry, member, used, res, answer, hash, found, isKey⟩ := refers
    exact ⟨hash, ⟨entry, member, ⟨res, ⟨depth, answer⟩, found⟩, used⟩, isKey⟩
  intro listed
  obtain ⟨hash, ⟨entry, member, ⟨other, path, otherFound⟩, used⟩, isKey⟩ := listed
  obtain ⟨res, answer, _⟩ := gatheredFrom.answered entry member
  rw [← converges_unique ⟨depth, answer⟩ path] at otherFound
  exact ⟨entry, member, used, res, answer, hash, otherFound, isKey⟩

theorem print_hash16_named (hash : Bytes) : NameText (printHash16 hash) := by
  have digits : ∀ character ∈ base16Chars, isNameCharacter character = true := by decide +kernel
  intro character member
  exact digits character (print_hash16_character member)

variable {node : ChildNode}

theorem node_named_value (named : NodeNamed node) : ∀ name ∈ node.value, NameText name := by
  cases node with
  | node value childMap =>
    exact named.1

variable {inputs2 : OutputsByHash}

theorem gathered_named (named : Named drv)
    (uses : GatheredUses store sha readFile drv inputs2) : InputsNamed inputs2 := by
  intro entry member
  have found : inputs2.get entry.1 = some entry.2 := find_of_mem inputs2.ascending member
  constructor
  · obtain ⟨name, inside⟩ := uses.full entry.1 entry.2 found
    obtain ⟨hash, _, isKey⟩ := (uses.lists entry.1 name).mp ⟨entry.2, found, inside⟩
    rw [isKey]
    exact print_hash16_named hash.hash
  · intro name inside
    obtain ⟨hash, ⟨input, inputMember, _, used⟩, _⟩ :=
      (uses.lists entry.1 name).mp ⟨entry.2, found, inside⟩
    exact node_named_value (named.inputs input inputMember) name used

variable {left right : Derivation}

/-- Without nested outputs, `inputs2` tells the whole tree of inputs. -/
theorem input_item_subset (leftUses : GatheredUses store sha readFile left inputs2)
    (rightUses : GatheredUses store sha readFile right inputs2)
    (noDynamic : hasDynamicDrvDep left = false) {hash : Option Hash} {child : Option ChildNode}
    (item : InputItem store sha readFile left hash name child) :
    InputItem store sha readFile right hash name child := by
  obtain ⟨entry, member, hashAt, used⟩ := item
  cases child with
  | some node =>
    have dynamic := has_dynamic_iff.mpr ⟨entry, member, name, mem_map_of_mem used⟩
    rw [noDynamic] at dynamic
    cases dynamic
  | none =>
    cases hash with
    | none =>
      obtain ⟨found, isHash⟩ := leftUses.hashed entry member name used
      exact absurd isHash (hashAt found)
    | some hash =>
      have listed := (leftUses.lists _ name).mpr ⟨hash, ⟨entry, member, hashAt, used⟩, rfl⟩
      obtain ⟨other, otherUsed, sameText⟩ := (rightUses.lists _ name).mp listed
      obtain ⟨text, isHash⟩ := output_hash_made hashAt
      obtain ⟨otherText, isOther⟩ := output_hash_made otherUsed.choose_spec.2.1
      have sameBytes := print_hash16_injective sameText
      have same : hash = other := by
        rw [isHash, isOther] at sameBytes ⊢
        change sha.digest text = sha.digest otherText at sameBytes
        simp [hashString, sameBytes]
      rw [same]
      exact otherUsed

theorem NonFixed.hashes {result : DrvHash} (nonFixed : NonFixed drv)
    (gives : Gives store sha readFile drv result) :
    ∃ gathered, Gathers store sha readFile drv gathered ∧
      ∃ text, preimage store sha drv false gathered.inputs2 = .ok text ∧
        ∀ name hash, result.hashes.get name = some hash → hash = hashString sha text := by
  obtain ⟨type, isType, notFixed⟩ := nonFixed
  obtain ⟨depth, evaluated⟩ := gives_iff.mp gives
  obtain ⟨gathered, ran, text, isText, isResult⟩ :=
    (hash_calls_ok_iff isType notFixed).mp evaluated
  refine ⟨gathered, ⟨type, isType, depth, ran⟩, text, isText, ?_⟩
  intro name hash found
  rw [isResult] at found
  obtain ⟨entry, _, same⟩ := mem_map.mp (get_assign_all found)
  exact (congrArg Prod.snd same).symm

theorem NonFixed.plain (nonFixed : NonFixed drv) (named : Named drv) : PlainOutputs drv := by
  obtain ⟨type, isType, notFixed⟩ := nonFixed
  intro entry member
  exact ⟨named.outputs entry member, type_not_fixed isType notFixed entry member⟩

theorem same_hash_agree (leftNamed : Named left) (rightNamed : Named right)
    (leftNonFixed : NonFixed left) (rightNonFixed : NonFixed right)
    (noDynamic : hasDynamicDrvDep left = false) (same : SameHash store sha readFile left right)
    (noCollision : NoCollision store sha readFile left right) :
    Agree store sha readFile left right := by
  obtain ⟨leftResult, rightResult, leftGives, rightGives, leftName, rightName, hash, leftFound,
    rightFound⟩ := same
  obtain ⟨leftGathered, leftGathers, leftText, leftIs, leftHash⟩ := leftNonFixed.hashes leftGives
  obtain ⟨rightGathered, rightGathers, rightText, rightIs, rightHash⟩ :=
    rightNonFixed.hashes rightGives
  have sameDigest : sha.digest leftText = sha.digest rightText := by
    have sameHash := (leftHash _ _ leftFound).symm.trans (rightHash _ _ rightFound)
    exact congrArg Hash.hash sameHash
  have sameText := noCollision leftText rightText ⟨leftGathered, leftGathers, leftIs⟩
    ⟨rightGathered, rightGathers, rightIs⟩ sameDigest
  have leftUses := gathers_uses leftGathers
  have rightUses := gathers_uses rightGathers
  obtain ⟨parts, sameInputs⟩ := preimage_inj (leftNonFixed.plain leftNamed)
    (rightNonFixed.plain rightNamed) (gathered_named leftNamed leftUses)
    (gathered_named rightNamed rightUses) (by rw [leftIs, rightIs, sameText])
  rw [sameInputs] at leftUses
  refine { parts with inputDrvs := ?_ }
  intro inputHash name child
  exact ⟨input_item_subset leftUses rightUses noDynamic,
    input_item_subset rightUses leftUses (parts.dynamic.symm.trans noDynamic)⟩

end

section

variable {store : StoreDirConfig} {sha : Sha256} {readFile : ReadFile}
  {drv : Derivation}

def swapChild (fresh node : InputNode) : InputNode :=
  match node with
  | ⟨.node value [], ordered⟩ => ⟨.node value [], ordered⟩
  | ⟨.node value ((name, _) :: rest), ordered⟩ =>
    ⟨.node value ((name, fresh.val) :: rest), by
      rw [Ordered, ChildrenOrdered] at ordered ⊢
      exact ⟨List.pairwise_cons.mpr (List.pairwise_cons.mp ordered.1), fresh.property, ordered.2.2⟩⟩

theorem swap_child_value (fresh node : InputNode) :
    (swapChild fresh node).val.value = node.val.value := by
  obtain ⟨⟨value, children⟩, ordered⟩ := node
  cases children with
  | nil | cons => rfl

theorem swap_child_keys (fresh node : InputNode) :
    (swapChild fresh node).val.childMap.map Prod.fst = node.val.childMap.map Prod.fst := by
  obtain ⟨⟨value, children⟩, ordered⟩ := node
  cases children with
  | nil | cons => rfl

variable {fresh : InputNode} {node : InputNode}

theorem swap_child_named (freshNamed : NodeNamed fresh.val)
    (named : NodeNamed node.val) : NodeNamed (swapChild fresh node).val := by
  obtain ⟨⟨value, children⟩, ordered⟩ := node
  cases children with
  | nil => exact named
  | cons first rest =>
    exact ⟨named.1, named.2.1, freshNamed, named.2.2.2⟩

theorem swap_child_mem (fresh : InputNode) (isChild : name ∈ node.val.childMap.map Prod.fst) :
    ∃ other, (other, fresh.val) ∈ (swapChild fresh node).val.childMap := by
  obtain ⟨⟨value, children⟩, ordered⟩ := node
  cases children with
  | nil => cases isChild
  | cons first rest => exact ⟨first.1, mem_cons_self⟩

def swapChildren (fresh : InputNode) (drv : Derivation) : Derivation :=
  { drv with inputDrvs := drv.inputDrvs.mapValues (swapChild fresh) }

theorem swap_children_mem {entry : StorePath × InputNode} :
    entry ∈ (swapChildren fresh drv).inputDrvs.entries ↔
      ∃ old ∈ drv.inputDrvs.entries, (old.1, swapChild fresh old.2) = entry :=
  mem_map

theorem swap_children_dynamic (fresh : InputNode) :
    hasDynamicDrvDep (swapChildren fresh drv) = hasDynamicDrvDep drv := by
  rw [Bool.eq_iff_iff, has_dynamic_iff, has_dynamic_iff]
  constructor
  · intro found
    obtain ⟨entry, member, name, isChild⟩ := found
    obtain ⟨old, oldMember, same⟩ := swap_children_mem.mp member
    rw [← same, swap_child_keys] at isChild
    exact ⟨old, oldMember, name, isChild⟩
  · intro found
    obtain ⟨old, oldMember, name, isChild⟩ := found
    refine ⟨_, swap_children_mem.mpr ⟨old, oldMember, rfl⟩, name, ?_⟩
    rw [swap_child_keys]
    exact isChild

theorem swap_children_parts (fresh : InputNode) : SameParts drv (swapChildren fresh drv) :=
  ⟨(swap_children_dynamic fresh).symm, rfl, rfl, rfl, rfl, rfl, rfl⟩

theorem swap_children_use (fresh : InputNode) (answer : Answers) :
    SameUse answer answer drv.inputDrvs.entries (swapChildren fresh drv).inputDrvs.entries := by
  change SameUse answer answer drv.inputDrvs.entries
    (drv.inputDrvs.entries.map fun entry => (entry.1, swapChild fresh entry.2))
  constructor
  · simp only [Answered, forall_mem_map, swap_child_value]
  · intro key name
    simp only [Refers, mem_map, exists_exists_and_eq_and, swap_child_value]
  · simp only [Defers, mem_map, exists_exists_and_eq_and]

theorem swap_children_named (freshNamed : NodeNamed fresh.val) (named : Named drv) :
    Named (swapChildren fresh drv) := by
  refine ⟨named.outputs, ?_⟩
  intro entry member
  obtain ⟨old, oldMember, same⟩ := swap_children_mem.mp member
  rw [← same]
  exact swap_child_named freshNamed (named.inputs old oldMember)

theorem swap_children_gathers {gathered : Gathered} :
    Gathers store sha readFile (swapChildren fresh drv) gathered ↔
      Gathers store sha readFile drv gathered := by
  apply exists_congr
  intro type
  apply and_congr_right
  intro _
  apply exists_congr
  intro depth
  exact ((swap_children_use fresh _).gathers drv.name drv.name full_empty gathered).symm

theorem swap_children_text {text : Bytes} :
    HashedText store sha readFile (swapChildren fresh drv) text ↔
      HashedText store sha readFile drv text := by
  apply exists_congr
  intro gathered
  rw [swap_children_gathers, ← (swap_children_parts fresh).preimage rfl]

variable {result : DrvHash}

theorem swap_children_hashes (gives : Gives store sha readFile drv result) :
    Gives store sha readFile (swapChildren fresh drv) result := by
  rw [gives_iff] at gives ⊢
  obtain ⟨depth, evaluated⟩ := gives
  exact ⟨depth, ((swap_children_use fresh _).hash_calls (swap_children_parts fresh) rfl).mp evaluated⟩

theorem hashed_text_unique {one two : Bytes} (first : HashedText store sha readFile drv one)
    (second : HashedText store sha readFile drv two) : one = two := by
  obtain ⟨gathered, ⟨type, isType, depth, ran⟩, isOne⟩ := first
  obtain ⟨otherGathered, ⟨otherType, isOtherType, otherDepth, otherRan⟩, isTwo⟩ := second
  rw [isType] at isOtherType
  rw [← Except.ok.inj isOtherType] at otherRan
  have deep := Calls.eval_mono (fun _ _ => plain_mono (Nat.le_max_left depth otherDepth)) ran
  have otherDeep :=
    Calls.eval_mono (fun _ _ => plain_mono (Nat.le_max_right depth otherDepth)) otherRan
  rw [deep] at otherDeep
  rw [← Except.ok.inj otherDeep, isOne] at isTwo
  exact Except.ok.inj isTwo

theorem swap_children_no_collision (fresh : InputNode) :
    NoCollision store sha readFile drv (swapChildren fresh drv) := by
  intro leftText rightText isLeft isRight _
  exact hashed_text_unique isLeft (swap_children_text.mp isRight)

theorem exists_fresh (drv : Derivation) : ∃ fresh : InputNode, NodeNamed fresh.val ∧
      ∀ entry ∈ drv.inputDrvs.entries, ∀ child ∈ entry.2.val.childMap, child.2 ≠ fresh.val := by
  let candidate : Nat → ChildNode := fun size => .node {replicate size 97} []
  have injective : Function.Injective candidate := by
    intro one two same
    have sameValue : ({replicate one 97} : Finset Bytes) = {replicate two 97} :=
      congrArg ChildNode.value same
    have sameSize := congrArg length (Finset.singleton_injective sameValue)
    rwa [length_replicate, length_replicate] at sameSize
  let present : List ChildNode :=
    drv.inputDrvs.entries.flatMap fun entry => entry.2.val.childMap.map Prod.snd
  obtain ⟨node, ⟨size, isNode⟩, absent⟩ := (Set.infinite_range_of_injective injective).exists_notMem_finite
    (finite_toSet present)
  refine ⟨leafNode {replicate size 97}, ?_, ?_⟩
  · change NodeNamed (.node {replicate size 97} [])
    refine ⟨?_, trivial⟩
    intro name member character inside
    rw [Finset.mem_singleton.mp member] at inside
    rw [eq_of_mem_replicate inside]
    decide
  · intro entry member child isChild same
    apply absent
    rw [← isNode]
    exact mem_flatMap.mpr ⟨entry, member, mem_map.mpr ⟨child, isChild, same⟩⟩

theorem swap_children_disagree (dynamic : hasDynamicDrvDep drv = true)
    (absent : ∀ entry ∈ drv.inputDrvs.entries, ∀ child ∈ entry.2.val.childMap,
      child.2 ≠ fresh.val) : ¬ Agree store sha readFile drv (swapChildren fresh drv) := by
  intro agree
  obtain ⟨entry, member, name, isChild⟩ := has_dynamic_iff.mp dynamic
  obtain ⟨other, swapped⟩ := swap_child_mem fresh isChild
  obtain ⟨hash, hashAt⟩ : ∃ hash, HashAt store sha readFile entry.1 other hash := by
    by_cases isHashed : ∃ hash, OutputHash store sha readFile entry.1 other hash
    · obtain ⟨hash, isHash⟩ := isHashed
      exact ⟨some hash, isHash⟩
    · exact ⟨none, fun hash isHash => isHashed ⟨hash, isHash⟩⟩
  have item : InputItem store sha readFile (swapChildren fresh drv) hash other (some fresh.val) :=
    ⟨_, swap_children_mem.mpr ⟨entry, member, rfl⟩, hashAt, swapped⟩
  obtain ⟨old, oldMember, _, inOld⟩ := (agree.inputDrvs hash other (some fresh.val)).mpr item
  exact absent old oldMember (other, fresh.val) inOld rfl

theorem gives_output (nonFixed : NonFixed drv) (gives : Gives store sha readFile drv result) :
    ∃ name hash, result.hashes.get name = some hash := by
  obtain ⟨type, isType, notFixed⟩ := nonFixed
  obtain ⟨depth, evaluated⟩ := gives_iff.mp gives
  obtain ⟨gathered, _, text, _, isResult⟩ := (hash_calls_ok_iff isType notFixed).mp evaluated
  obtain ⟨entry, member⟩ := exists_mem_of_ne_nil _ (type_outputs_ne isType)
  refine ⟨entry.1, ?_⟩
  rw [isResult]
  apply get_of_mem_keys
  rw [assign_all_mem_keys, map_map]
  exact mem_map_of_mem member

/-- The hash of a derivation tells it from all others exactly if it has no nested
outputs among its inputs. -/
theorem hash_separates_iff {result : DrvHash} (named : Named drv) (nonFixed : NonFixed drv)
    (gives : Gives store sha readFile drv result) :
    (∀ other, Named other → NonFixed other → SameHash store sha readFile drv other →
      NoCollision store sha readFile drv other → Agree store sha readFile drv other) ↔
      hasDynamicDrvDep drv = false := by
  constructor
  · intro separates
    rw [← Bool.not_eq_true]
    intro dynamic
    obtain ⟨fresh, freshNamed, absent⟩ := exists_fresh drv
    obtain ⟨name, hash, found⟩ := gives_output nonFixed gives
    have same : SameHash store sha readFile drv (swapChildren fresh drv) :=
      ⟨result, result, gives, swap_children_hashes gives, name, name, hash, found, found⟩
    exact swap_children_disagree dynamic absent
      (separates _ (swap_children_named freshNamed named) nonFixed same
        (swap_children_no_collision fresh))
  · intro noDynamic other otherNamed otherNonFixed same noCollision
    exact same_hash_agree named otherNamed nonFixed otherNonFixed noDynamic same noCollision

end

theorem user_drv_named : Named (userDrv curlPath) := by
  constructor
  · intro entry member
    rw [mem_singleton.mp member]
    decide +kernel
  · intro entry member
    rw [mem_singleton.mp member]
    exact ⟨by decide +kernel, trivial⟩

theorem hash_separates_iff_user : ∃ result,
    Gives usualStore sumSha fetchFile (userDrv curlPath) result ∧
      ∀ other, Named other → NonFixed other →
        SameHash usualStore sumSha fetchFile (userDrv curlPath) other →
        NoCollision usualStore sumSha fetchFile (userDrv curlPath) other →
        Agree usualStore sumSha fetchFile (userDrv curlPath) other := by
  obtain ⟨result, hashed⟩ := user_drv_hashed sumSha
  have gives := gives_iff.mpr hashed
  exact ⟨result, gives,
    (hash_separates_iff user_drv_named ⟨.inputAddressed true, rfl, rfl⟩ gives).mpr rfl⟩

/-- A derivation that uses an output of a derivation that is made by another one. -/
def nestedDrv (name : Bytes) : Derivation :=
  { userDrv curlPath with
    inputDrvs := SortedMap.assignAll
      [(curlPath, makeNode ∅ (SortedMap.assignAll [(ascii "out", leafNode {name})]))] }

theorem nested_drv_non_fixed (name : Bytes) : NonFixed (nestedDrv name) :=
  ⟨.inputAddressed true, rfl, rfl⟩

theorem nested_drv_gives (sha : Sha256) (name : Bytes) :
    ∃ result, Gives usualStore sha fetchFile (nestedDrv name) result := by
  have hashed : ∃ result, HashesTo usualStore sha fetchFile (nestedDrv name) false result := by
    refine user_hashed sha rfl (fun _ => ⟨_, rfl⟩) ?_
    intro entry member
    rw [mem_singleton.mp member]
    exact ⟨rfl, Finset.empty_subset _⟩
  obtain ⟨result, isResult⟩ := hashed
  exact ⟨result, gives_iff.mpr isResult⟩

/-- Whichever output of the output is used, the hash is the same. -/
theorem nested_outputs_not_separated :
    NonFixed (nestedDrv (ascii "a")) ∧ NonFixed (nestedDrv (ascii "b")) ∧
      ∀ sha, (∃ result, Gives usualStore sha fetchFile (nestedDrv (ascii "a")) result ∧
          Gives usualStore sha fetchFile (nestedDrv (ascii "b")) result) ∧
        NoCollision usualStore sha fetchFile (nestedDrv (ascii "a")) (nestedDrv (ascii "b")) ∧
        ¬ Agree usualStore sha fetchFile (nestedDrv (ascii "a")) (nestedDrv (ascii "b")) := by
  have swapped : nestedDrv (ascii "b") =
      swapChildren (leafNode {ascii "b"}) (nestedDrv (ascii "a")) := rfl
  refine ⟨nested_drv_non_fixed _, nested_drv_non_fixed _, ?_⟩
  intro sha
  obtain ⟨result, gives⟩ := nested_drv_gives sha (ascii "a")
  rw [swapped]
  refine ⟨⟨result, gives, swap_children_hashes gives⟩, swap_children_no_collision _, ?_⟩
  apply swap_children_disagree rfl
  intro entry member child isChild same
  rw [mem_singleton.mp member] at isChild
  rw [mem_singleton.mp isChild] at same
  have sameValue : ({ascii "a"} : Finset Bytes) = {ascii "b"} := congrArg ChildNode.value same
  exact absurd (Finset.singleton_injective sameValue) (by decide)

end Bsd.Store.HashSeparation
