import Bsd.Util.Base32
import Bsd.Store.DerivationReread

/-!
# The fingerprints behind store paths

A store path is the short hash of a fingerprint, in which the type, the hash, the
store directory and the name stand between colons. References are part of the type,
and the digest of a fixed output is the hash of a text of its own. A fingerprint can
still be read back, so that a store path determines what it was made from.
-/

namespace Bsd.Store.PathFingerprints

open List Lib.Occurrences Lib.PrefixCodes Util.FilePath Util.Hashes Util.Base32 Store.Path
open Store.ContentAddresses Store.Derivations Store.DerivationReread

def fingerprint (store : StoreDirConfig) (type : Bytes) (hash : Hash) (name : Bytes) : Bytes :=
  type ++ ascii ":" ++ hash.printWithAlgo ++ ascii ":" ++ store.storeDir ++ ascii ":" ++ name

variable {hash : Hash}

theorem make_store_path_base_name {store : StoreDirConfig} {sha : Sha256} {type name : Bytes}
    {path : StorePath} (made : makeStorePath store sha type hash name = .ok path) :
    path.baseName = printHash32 (compressHash (hashString sha (fingerprint store type hash name)) 20) ++
      (ascii "-" ++ name) := by
  rw [makeStorePath, StorePath.ofHash] at made
  split at made
  · rw [← Except.ok.inj made, ← append_assoc]
    rfl
  · cases made
  · cases made

def fixedPayload (method : FileIngestionMethod) (hash : Hash) : Bytes :=
  ascii "fixed:out:" ++ makeFileIngestionPrefix method ++ hash.printWithAlgo ++ ascii ":"

/-- A call that makes a store path. The hash given to `makeOutputPath` is the digest
of a text. -/
inductive Application where
  | fromCA (name : Bytes) (ca : ContentAddressWithReferences)
  | forOutput (id digested drvName : Bytes)

/-- An output has a good name, of a derivation with a good name, and its digest is not
made as that of a fixed output. -/
def Application.Proper : Application → Prop
  | .fromCA _ _ => True
  | .forOutput id digested drvName =>
    checkName id = .ok () ∧ checkName drvName = .ok () ∧ ¬ascii "fixed:out:" <+: digested

section Paths

variable (store : StoreDirConfig) (sha : Sha256)

def Application.path : Application → Except Failure StorePath
  | .fromCA name ca => makeFixedOutputPathFromCA store sha name ca
  | .forOutput id digested drvName => makeOutputPath store sha id (hashString sha digested) drvName

def Application.arguments : Application → Bytes × Hash × Bytes
  | .fromCA name (.textInfo hash references) =>
    (makeType store (ascii "text") ⟨references, false⟩, hash, name)
  | .fromCA name (.fixedOutputInfo method hash references) =>
    if hash.algo = .sha256 ∧ method = .bsdArchive then
      (makeType store (ascii "source") references, hash, name)
    else (ascii "output:out", hashString sha (fixedPayload method hash), name)
  | .forOutput id digested drvName =>
    (ascii "output:" ++ id, hashString sha digested, outputPathName drvName id)

def Application.text (application : Application) : Bytes :=
  let (type, hash, name) := application.arguments store sha
  fingerprint store type hash name

def Application.texts : Application → List Bytes
  | .fromCA name (.fixedOutputInfo method hash references) =>
    [(Application.fromCA name (.fixedOutputInfo method hash references)).text store sha,
      fixedPayload method hash]
  | .forOutput id digested drvName =>
    [(Application.forOutput id digested drvName).text store sha, digested]
  | application => [application.text store sha]

inductive Makes : Application → Bytes → Hash → Bytes → Prop where
  | text {name : Bytes} {hash : Hash} {references : Finset StorePath}
      (isSha256 : hash.algo = .sha256) :
      Makes (.fromCA name (.textInfo hash references))
        (makeType store (ascii "text") ⟨references, false⟩) hash name
  | source {name : Bytes} {hash : Hash} {references : StoreReferences}
      (isSha256 : hash.algo = .sha256) :
      Makes (.fromCA name (.fixedOutputInfo .bsdArchive hash references))
        (makeType store (ascii "source") references) hash name
  | fixed {name : Bytes} {method : FileIngestionMethod} {hash : Hash} :
      Makes (.fromCA name (.fixedOutputInfo method hash ⟨∅, false⟩)) (ascii "output:out")
        (hashString sha (fixedPayload method hash)) name
  | output {id digested drvName : Bytes} (named : GoodName id)
      (notFixed : ¬ascii "fixed:out:" <+: digested) :
      Makes (.forOutput id digested drvName) (ascii "output:" ++ id) (hashString sha digested)
        (outputPathName drvName id)

variable {store : StoreDirConfig} {sha : Sha256}

theorem references_empty_eq {references : StoreReferences}
    (empty : referencesEmpty references = true) : references = ⟨∅, false⟩ := by
  rw [referencesEmpty, Bool.and_eq_true, Bool.not_eq_true', decide_eq_true_eq] at empty
  rw [StoreReferences.mk.injEq]
  exact ⟨empty.2, empty.1⟩

theorem makes_of_path {application : Application} {path : StorePath}
    (proper : application.Proper) (made : application.path store sha = .ok path) :
    ∃ type hash name, Makes store sha application type hash name ∧
      application.text store sha = fingerprint store type hash name ∧
      makeStorePath store sha type hash name = .ok path := by
  cases application with
  | forOutput id digested drvName =>
    exact ⟨_, _, _, .output (check_name_ok proper.1) proper.2.2, rfl, made⟩
  | fromCA name ca =>
    cases ca with
    | textInfo hash references =>
      rw [Application.path, makeFixedOutputPathFromCA] at made
      split at made
      next isSha256 => exact ⟨_, _, _, .text isSha256, rfl, made⟩
      · cases made
    | fixedOutputInfo method hash references =>
      rw [Application.path, makeFixedOutputPathFromCA, makeFixedOutputPath] at made
      split at made
      · cases made
      rw [Application.text, Application.arguments]
      split at made
      next isSource =>
        rw [if_pos isSource]
        refine ⟨_, _, _, ?_, rfl, made⟩
        rw [isSource.2]
        exact .source isSource.1
      next other =>
        rw [if_neg other]
        split at made
        · cases made
        next empty =>
          rw [Bool.not_eq_true, Bool.not_eq_false'] at empty
          rw [references_empty_eq empty]
          exact ⟨_, _, _, .fixed, rfl, made⟩

end Paths

theorem mark_not_in_name {name : Bytes} {mark : Byte} (other : isNameCharacter mark = false)
    (named : GoodName name) : mark ∉ name :=
  fun member => Bool.false_ne_true (other.symm.trans (named.characters mark member))

theorem print_hash_algo_code : PrefixCode (fun _ => True)
    (fun algo : HashAlgorithm => printHashAlgo algo ++ [58]) := by
  intro left right _ _ moreLeft moreRight same
  obtain ⟨sameText, sameMore⟩ :=
    prefix_code_marked 58 _ _ (print_hash_algo_plain left) (print_hash_algo_plain right) moreLeft
      moreRight same
  have sameAlgo := congrArg parseHashAlgo sameText
  rw [parse_print_hash_algo, parse_print_hash_algo] at sameAlgo
  exact ⟨Except.ok.inj sameAlgo, sameMore⟩

theorem print_with_algo_code : PrefixCode (fun _ => True) Hash.printWithAlgo := by
  intro left right _ _ moreLeft moreRight same
  rw [Hash.printWithAlgo, Hash.printWithAlgo, append_assoc, append_assoc _ _ moreRight]
    at same
  obtain ⟨sameAlgo, later⟩ := print_hash_algo_code _ _ trivial trivial _ _ same
  have sameLength : (printHash16 left.hash).length = (printHash16 right.hash).length := by
    rw [print_hash16_length, print_hash16_length, left.hashSize, right.hashSize, sameAlgo]
  obtain ⟨sameDigits, sameMore⟩ := append_inj later sameLength
  refine ⟨?_, sameMore⟩
  cases left
  cases right
  rw [Hash.mk.injEq]
  exact ⟨sameAlgo, print_hash16_injective sameDigits⟩

section Reading

variable {store : StoreDirConfig}

def afterType (store : StoreDirConfig) (hash : Hash) (name : Bytes) : Bytes :=
  hash.printWithAlgo ++ (ascii ":" ++ store.storeDir ++ ascii ":" ++ name)

theorem fingerprint_eq (type : Bytes) (hash : Hash) (name : Bytes) :
    fingerprint store type hash name = type ++ [58] ++ afterType store hash name := by
  rw [fingerprint, afterType]
  simp only [append_assoc]
  rfl

variable {leftName rightName : Bytes}

theorem after_type_inj {left right : Hash}
    (same : afterType store left leftName = afterType store right rightName) :
    left = right ∧ leftName = rightName := by
  obtain ⟨sameHash, later⟩ := print_with_algo_code left right trivial trivial _ _ same
  exact ⟨sameHash, append_cancel_left later⟩

/-- The separator of a path may be any character, but it is at a fixed place. -/
theorem marked_path_code {mark : Byte} (other : isNameCharacter mark = false) :
    PrefixCode (fun _ => True) (fun path => printStorePath store path ++ [mark]) := by
  intro left right _ _ moreLeft moreRight same
  have shape : ∀ (path : StorePath) (more : Bytes), printStorePath store path ++ [mark] ++ more =
      (store.storeDir ++ ascii "/") ++
        (path.hashPart ++ (path.separator :: (path.name ++ [mark] ++ more))) := by
    intro path more
    rw [printStorePath, path.base_name_eq]
    simp
  rw [shape, shape] at same
  obtain ⟨sameHash, later⟩ := append_inj (append_cancel_left same)
    (left.hash_part_length.trans right.hash_part_length.symm)
  obtain ⟨sameSeparator, later⟩ := cons.inj later
  obtain ⟨sameName, sameMore⟩ := prefix_code_marked mark _ _ (mark_not_in_name other left.goodName)
    (mark_not_in_name other right.goodName) _ _ later
  refine ⟨base_name_injective ?_, sameMore⟩
  rw [left.base_name_eq, right.base_name_eq, sameHash, sameSeparator, sameName]

theorem make_type_eq (type : Bytes) (references : StoreReferences) (more : Bytes) :
    makeType store type references ++ [58] ++ more =
      type ++ [58] ++ ((references.others.sort (· ≤ ·)).flatMap
        (fun path => printStorePath store path ++ [58]) ++
          ((if references.self then ascii "self:" else []) ++ more)) := by
  -- each reference has its colon in front, so the colons move up by one place
  have moved : ∀ (paths : List StorePath) (later : Bytes),
      paths.flatMap (fun path => ascii ":" ++ printStorePath store path) ++ 58 :: later =
        58 :: (paths.flatMap (fun path => printStorePath store path ++ [58]) ++ later) := by
    intro paths later
    induction paths with
    | nil => rfl
    | cons path paths ih =>
      rw [flatMap_cons, append_assoc, ih, flatMap_cons]
      simp only [append_assoc]
      rfl
  rw [makeType]
  simp only [append_assoc]
  congr 1
  cases references.self with
  | false | true => exact moved _ _

theorem sha256_text (store : StoreDirConfig) (isSha256 : hash.algo = .sha256) (name : Bytes) :
    ∃ more, afterType store hash name = ascii "sha256:" ++ more := by
  rw [afterType, Hash.printWithAlgo, isSha256]
  exact ⟨_, rfl⟩

theorem self_marker_inj {left right : Bool} {leftMore rightMore : Bytes}
    (same : (if left then ascii "self:" else []) ++ (ascii "sha256:" ++ leftMore) =
      (if right then ascii "self:" else []) ++ (ascii "sha256:" ++ rightMore)) :
    left = right ∧ leftMore = rightMore := by
  have apart : ∀ one two : Bytes,
      ascii "self:" ++ (ascii "sha256:" ++ one) ≠ ascii "sha256:" ++ two := by
    intro one two equal
    have second : (101 : Byte) = 104 := (cons.inj (cons.inj equal).2).1
    exact absurd second (by decide)
  cases left <;> cases right
  · exact ⟨rfl, append_cancel_left same⟩
  · exact absurd same.symm (apart _ _)
  · exact absurd same (apart _ _)
  · exact ⟨rfl, append_cancel_left (append_cancel_left same)⟩

theorem make_type_inj {type : Bytes} {left right : StoreReferences} {leftHash rightHash : Hash}
    (leftSha256 : leftHash.algo = .sha256) (rightSha256 : rightHash.algo = .sha256)
    (same : makeType store type left ++ [58] ++ afterType store leftHash leftName =
      makeType store type right ++ [58] ++ afterType store rightHash rightName) :
    left = right ∧ leftHash = rightHash ∧ leftName = rightName := by
  obtain ⟨leftMore, leftText⟩ := sha256_text store leftSha256 leftName
  obtain ⟨rightMore, rightText⟩ := sha256_text store rightSha256 rightName
  have stops : ∀ (self : Bool) (more : Bytes), ∃ later,
      (if self then ascii "self:" else []) ++ (ascii "sha256:" ++ more) = 115 :: later := by
    intro self more
    cases self <;> exact ⟨_, rfl⟩
  have apart : ∀ path : StorePath, True → ∀ more,
      ¬∃ later, printStorePath store path ++ [58] ++ more = (115 : Byte) :: later := by
    intro path _ more begins
    obtain ⟨later, equal⟩ := begins
    obtain ⟨rest, slash, _⟩ := canon_path_ok store.canonical
    rw [printStorePath, slash] at equal
    have first : (47 : Byte) = 115 := (cons.inj equal).1
    exact absurd first (by decide)
  rw [make_type_eq, make_type_eq, leftText, rightText] at same
  obtain ⟨sameOthers, later⟩ := prefix_code_list (marked_path_code (by decide))
    (fun text => ∃ later, text = 115 :: later) apart (fun _ _ => trivial) (fun _ _ => trivial)
    (stops left.self leftMore) (stops right.self rightMore) (append_cancel_left same)
  obtain ⟨sameSelf, sameMore⟩ := self_marker_inj later
  have sameAfter : afterType store leftHash leftName = afterType store rightHash rightName := by
    rw [leftText, rightText, sameMore]
  refine ⟨?_, after_type_inj sameAfter⟩
  have sets := congrArg toFinset sameOthers
  rw [Finset.sort_toFinset, Finset.sort_toFinset] at sets
  cases left
  cases right
  rw [StoreReferences.mk.injEq]
  exact ⟨sets, sameSelf⟩

end Reading

theorem parse_ingestion_prefix (method : FileIngestionMethod) (algo : HashAlgorithm)
    (more : Bytes) :
    (parsePrefix (makeFileIngestionPrefix method ++ (printHashAlgo algo ++ more))).2 =
        printHashAlgo algo ++ more ∧
      (parsePrefix (makeFileIngestionPrefix method ++
        (printHashAlgo algo ++ more))).1.getFileIngestionMethod = method := by
  cases method <;> cases algo <;> exact ⟨rfl, rfl⟩

theorem fixed_payload_inj {left right : FileIngestionMethod} {leftHash rightHash : Hash}
    (same : fixedPayload left leftHash = fixedPayload right rightHash) :
    left = right ∧ leftHash = rightHash := by
  rw [fixedPayload, fixedPayload] at same
  simp only [append_assoc, Hash.printWithAlgo] at same
  have parsed := congrArg parsePrefix (append_cancel_left same)
  obtain ⟨leftRest, leftMethod⟩ := parse_ingestion_prefix left leftHash.algo
    (ascii ":" ++ (printHash16 leftHash.hash ++ ascii ":"))
  obtain ⟨rightRest, rightMethod⟩ := parse_ingestion_prefix right rightHash.algo
    (ascii ":" ++ (printHash16 rightHash.hash ++ ascii ":"))
  constructor
  · rw [← leftMethod, parsed, rightMethod]
  have hashes : leftHash.printWithAlgo ++ ascii ":" = rightHash.printWithAlgo ++ ascii ":" := by
    rw [Hash.printWithAlgo, Hash.printWithAlgo]
    simp only [append_assoc]
    rw [← leftRest, parsed, rightRest]
  exact (print_with_algo_code _ _ trivial trivial _ _ hashes).1

theorem output_path_name_inj {id left right : Bytes}
    (same : outputPathName left id = outputPathName right id) : left = right := by
  rw [outputPathName, outputPathName] at same
  split at same
  · exact same
  · exact append_cancel_right (append_cancel_right same)

section

variable {store : StoreDirConfig} {sha : Sha256}

theorem digest_eq {left right : Bytes} (same : hashString sha left = hashString sha right) :
    sha.digest left = sha.digest right := congrArg Hash.hash same

theorem first_letter_ne {left right : Byte} (different : left ≠ right) {moreLeft moreRight : Bytes} :
    left :: moreLeft ≠ right :: moreRight := fun same => different (cons.inj same).1

theorem fixed_ne_output {method : FileIngestionMethod} {name id digested : Bytes}
    {outputName : Bytes} (named : GoodName id) (notFixed : ¬ascii "fixed:out:" <+: digested)
    (apart : sha.digest (fixedPayload method hash) = sha.digest digested →
      fixedPayload method hash = digested) :
    ascii "output:out" ++ [58] ++ afterType store (hashString sha (fixedPayload method hash)) name ≠
      ascii "output:" ++ id ++ [58] ++ afterType store (hashString sha digested) outputName := by
  intro same
  have later : ascii "out" ++ [58] ++ afterType store (hashString sha (fixedPayload method hash)) name =
      id ++ [58] ++ afterType store (hashString sha digested) outputName := by
    have out : ascii "output:out" = ascii "output:" ++ ascii "out" := rfl
    rw [out] at same
    simp only [append_assoc] at same ⊢
    exact append_cancel_left same
  obtain ⟨_, sameAfter⟩ :=
    prefix_code_marked 58 _ _ (by decide) (mark_not_in_name rfl named) _ _ later
  have samePayload := apart (digest_eq (after_type_inj sameAfter).1)
  apply notFixed
  rw [← samePayload]
  exact prefix_append _ _

theorem same_text_same_application {left right : Application} {type otherType name otherName : Bytes}
    {hash otherHash : Hash} (leftMakes : Makes store sha left type hash name)
    (rightMakes : Makes store sha right otherType otherHash otherName)
    (noCollision : Set.InjOn sha.digest
      {text | text ∈ left.texts store sha ∨ text ∈ right.texts store sha})
    (same : type ++ [58] ++ afterType store hash name =
      otherType ++ [58] ++ afterType store otherHash otherName) : left = right := by
  cases leftMakes with
  | text isSha256 =>
    cases rightMakes with
    | text otherSha256 =>
      obtain ⟨sameReferences, sameHash, sameName⟩ := make_type_inj isSha256 otherSha256 same
      rw [(StoreReferences.mk.inj sameReferences).1, sameHash, sameName]
    | source | fixed | output => exact absurd same (first_letter_ne (by decide))
  | source isSha256 =>
    cases rightMakes with
    | text otherSha256 | fixed | output => exact absurd same (first_letter_ne (by decide))
    | source otherSha256 =>
      obtain ⟨sameReferences, sameHash, sameName⟩ := make_type_inj isSha256 otherSha256 same
      rw [sameReferences, sameHash, sameName]
  | fixed =>
    cases rightMakes with
    | text | source => exact absurd same (first_letter_ne (by decide))
    | fixed =>
      obtain ⟨sameDigest, sameName⟩ := after_type_inj (append_cancel_left same)
      have samePayload := noCollision (.inl (.tail _ (.head _))) (.inr (.tail _ (.head _)))
        (digest_eq sameDigest)
      obtain ⟨sameMethod, sameHash⟩ := fixed_payload_inj samePayload
      rw [sameMethod, sameHash, sameName]
    | output named notFixed =>
      refine absurd same (fixed_ne_output named notFixed ?_)
      exact noCollision (.inl (.tail _ (.head _))) (.inr (.tail _ (.head _)))
  | output named notFixed =>
    cases rightMakes with
    | text | source => exact absurd same (first_letter_ne (by decide))
    | fixed =>
      refine absurd same.symm (fixed_ne_output named notFixed ?_)
      exact noCollision (.inr (.tail _ (.head _))) (.inl (.tail _ (.head _)))
    | output otherNamed otherNotFixed =>
      rw [append_assoc (ascii "output:"), append_assoc (ascii "output:")] at same
      obtain ⟨sameId, sameAfter⟩ := prefix_code_marked 58 _ _ (mark_not_in_name rfl named)
        (mark_not_in_name rfl otherNamed) _ _ (append_cancel_left same)
      obtain ⟨sameDigest, sameName⟩ := after_type_inj sameAfter
      have sameDigested := noCollision (.inl (.tail _ (.head _))) (.inr (.tail _ (.head _)))
        (digest_eq sameDigest)
      rw [sameId] at sameName
      rw [sameId, sameDigested, output_path_name_inj sameName]

theorem same_short_hash {type otherType name otherName : Bytes} {hash otherHash : Hash}
    {path : StorePath} (left : makeStorePath store sha type hash name = .ok path)
    (right : makeStorePath store sha otherType otherHash otherName = .ok path) :
    compressHash (hashString sha (fingerprint store type hash name)) 20 =
      compressHash (hashString sha (fingerprint store otherType otherHash otherName)) 20 := by
  have sameBase := (make_store_path_base_name left).symm.trans (make_store_path_base_name right)
  have sizes : ∀ one two : Hash, (compressHash one 20).length = (compressHash two 20).length :=
    fun one two => by rw [compress_hash_length, compress_hash_length]
  have samePrinted := (append_inj sameBase (by
    rw [print_hash32_length, print_hash32_length, sizes])).1
  exact print_hash32_injective (sizes _ _) samePrinted

/-- Where no two of the texts collide, nor the short hashes of the fingerprints, equal
store paths are made by the same call. -/
theorem equal_paths_same_application {left right : Application} {path : StorePath}
    (leftProper : left.Proper) (rightProper : right.Proper)
    (noCollision : Set.InjOn sha.digest
      {text | text ∈ left.texts store sha ∨ text ∈ right.texts store sha})
    (noShortCollision : Set.InjOn (fun hash => compressHash hash 20)
      {hashString sha (left.text store sha), hashString sha (right.text store sha)})
    (leftMade : left.path store sha = .ok path) (rightMade : right.path store sha = .ok path) :
    left = right := by
  obtain ⟨type, hash, name, leftMakes, leftText, leftPath⟩ := makes_of_path leftProper leftMade
  obtain ⟨otherType, otherHash, otherName, rightMakes, rightText, rightPath⟩ :=
    makes_of_path rightProper rightMade
  have sameShort := same_short_hash leftPath rightPath
  rw [← leftText, ← rightText] at sameShort
  have sameHash := noShortCollision (.inl rfl) (.inr rfl) sameShort
  have first : ∀ application : Application,
      application.text store sha ∈ application.texts store sha := by
    intro application
    rw [Application.texts.eq_def]
    split <;> exact mem_cons_self
  have sameText := noCollision (.inl (first left)) (.inr (first right)) (digest_eq sameHash)
  rw [leftText, rightText, fingerprint_eq, fingerprint_eq] at sameText
  exact same_text_same_application leftMakes rightMakes noCollision sameText

end

def noteText (first second : StorePath) : Application :=
  .fromCA (ascii "note") (.textInfo (hashString zeroSha []) {first, second})

def compiler : StorePath := ⟨ascii "0c0z63zaph7g5y3g3wgzs7lxq0gp9cyk-gcc", by decide +kernel⟩

def library : StorePath := ⟨ascii "1gp2rzlsy8kc4nd4zs9m0mjgjv9xxvvc-glibc", by decide +kernel⟩

theorem equal_paths_same_application_note :
    (∃ path, (noteText compiler library).path usualStore zeroSha = .ok path) ∧
      noteText compiler library = noteText library compiler := by
  have swapped : noteText library compiler = noteText compiler library := by
    rw [noteText, noteText, Finset.pair_comm]
  have makes : ∃ path, (noteText compiler library).path usualStore zeroSha = .ok path := by
    exact make_store_path_ok_iff.mpr (by decide +kernel : checkName (ascii "note") = .ok ())
  obtain ⟨path, made⟩ := makes
  refine ⟨⟨path, made⟩, equal_paths_same_application trivial trivial ?_ ?_ made ?_⟩
  · rw [swapped]
    intro one oneText two twoText _
    have single : ∀ text, text ∈ (noteText compiler library).texts usualStore zeroSha →
        text = (noteText compiler library).text usualStore zeroSha :=
      fun text member => mem_singleton.mp member
    rw [single one (oneText.elim id id), single two (twoText.elim id id)]
  · rw [swapped, Set.pair_eq_singleton]
    exact Set.injOn_singleton _ _
  · rw [swapped]
    exact made

end Bsd.Store.PathFingerprints
