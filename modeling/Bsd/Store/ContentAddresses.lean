import Mathlib.Data.Finset.Sort
import Bsd.Store.Path

/-!
# Content addresses and the store paths made from them

All experimental features are taken to be enabled, so the checks that require
them are left out.
-/

namespace Bsd.Store.ContentAddresses

open Lib.Occurrences Util.FilePath Util.Hashes Store.Path List

inductive FileIngestionMethod where
  | flat
  | bsdArchive
  | git
  deriving DecidableEq

inductive ContentAddressMethod where
  | flat
  | bsdArchive
  | git
  | text
  deriving DecidableEq

def makeFileIngestionPrefix : FileIngestionMethod → Bytes
  | .flat => []
  | .bsdArchive => ascii "r:"
  | .git => ascii "git:"

def ContentAddressMethod.getFileIngestionMethod : ContentAddressMethod → FileIngestionMethod
  | .flat => .flat
  | .bsdArchive => .bsdArchive
  | .git => .git
  | .text => .flat

def ContentAddressMethod.renderPrefix : ContentAddressMethod → Bytes
  | .text => ascii "text:"
  | method => makeFileIngestionPrefix method.getFileIngestionMethod

def parsePrefix (text : Bytes) : ContentAddressMethod × Bytes :=
  match splitFront text (ascii "r:") with
  | some rest => (.bsdArchive, rest)
  | none =>
    match splitFront text (ascii "git:") with
    | some rest => (.git, rest)
    | none =>
      match splitFront text (ascii "text:") with
      | some rest => (.text, rest)
      | none => (.flat, text)

structure ContentAddress where
  method : ContentAddressMethod
  hash : Hash
  deriving DecidableEq

def renderMethodAlgo (method : ContentAddressMethod) (algo : HashAlgorithm) : Bytes :=
  method.renderPrefix ++ printHashAlgo algo

def ContentAddress.printMethodAlgo (ca : ContentAddress) : Bytes :=
  renderMethodAlgo ca.method ca.hash.algo

structure StoreReferences where
  others : Finset StorePath
  self : Bool

inductive ContentAddressWithReferences where
  | textInfo (hash : Hash) (references : Finset StorePath)
  | fixedOutputInfo (method : FileIngestionMethod) (hash : Hash) (references : StoreReferences)

def withoutRefs (ca : ContentAddress) : ContentAddressWithReferences :=
  match ca.method with
  | .text => .textInfo ca.hash ∅
  | method => .fixedOutputInfo method.getFileIngestionMethod ca.hash ⟨∅, false⟩

variable {name hash : Bytes}

section Making

variable (store : StoreDirConfig) (sha : Sha256)

theorem base32_is_hash_character : ∀ digit < 32,
    isHashCharacter (bsd32Chars.getD digit 0) = true := by
  decide

theorem hash_base_name_ok (size : hash.length = 20) (checked : checkName name = .ok ()) :
    checkBaseName (printHash32 hash ++ ascii "-" ++ name) = .ok () := by
  have printed : (printHash32 hash).length = hashLen := by
    rw [print_hash32_length, size]
    rfl
  apply check_base_name_ok.mpr
  refine ⟨?_, ?_, ?_⟩
  · rw [length_append, length_append, printed]
    exact Nat.le_add_right _ _
  · intro character member
    rw [hashPartOf, append_assoc, take_append_of_le_length (le_of_eq printed.symm),
      take_of_length_le (le_of_eq printed)] at member
    obtain ⟨n, _, same⟩ := mem_map.mp member
    rw [← same]
    exact base32_is_hash_character _ (Nat.mod_lt _ (by decide))
  · have dropped : nameOf (printHash32 hash ++ ascii "-" ++ name) = name := by
      apply drop_left'
      rw [length_append, printed]
      rfl
    rw [dropped]
    exact checked

/-- The constructor of `StorePath` from a hash, which checks the name only. -/
def StorePath.ofHash (hash : Bytes) (size : hash.length = 20) (name : Bytes) :
    Except Failure StorePath :=
  match checked : checkName name with
  | .ok _ => .ok ⟨printHash32 hash ++ ascii "-" ++ name, hash_base_name_ok size checked⟩
  | .error (.badStorePathName message) =>
    .error (.badStorePath (ascii "path " ++ quoted (printHash32 hash ++ ascii "-" ++ name) ++
      ascii " is not a valid store path: " ++ message))
  | .error failure => .error failure

def makeStorePath (type : Bytes) (hash : Hash) (name : Bytes) : Except Failure StorePath :=
  let text := type ++ ascii ":" ++ hash.printWithAlgo ++ ascii ":" ++ store.storeDir ++
    ascii ":" ++ name
  StorePath.ofHash (compressHash (hashString sha text) 20) (compress_hash_length _ _) name

def makeType (type : Bytes) (references : StoreReferences) : Bytes :=
  type ++ (references.others.sort (· ≤ ·)).flatMap
      (fun path => ascii ":" ++ printStorePath store path) ++
    if references.self then ascii ":self" else []

def referencesEmpty (references : StoreReferences) : Bool :=
  !references.self && decide (references.others = ∅)

def makeFixedOutputPath (name : Bytes) (method : FileIngestionMethod) (hash : Hash)
    (references : StoreReferences) : Except Failure StorePath :=
  if method = .git ∧ hash.algo ≠ .sha1 then
    .error (.error (ascii "Git file ingestion must use SHA-1 hash"))
  else if hash.algo = .sha256 ∧ method = .bsdArchive then
    makeStorePath store sha (makeType store (ascii "source") references) hash name
  else if !referencesEmpty references then
    .error (.error (ascii "fixed output derivation " ++ quoted name ++
      ascii " is not allowed to refer to other store paths.\nYou may need to " ++
      ascii "use the 'unsafeDiscardReferences' derivation attribute, see the manual for more details."))
  else
    let payload := ascii "fixed:out:" ++ makeFileIngestionPrefix method ++ hash.printWithAlgo ++
      ascii ":"
    makeStorePath store sha (ascii "output:out") (hashString sha payload) name

def makeFixedOutputPathFromCA (name : Bytes) (ca : ContentAddressWithReferences) :
    Except Failure StorePath :=
  match ca with
  | .textInfo hash references =>
    if hash.algo = .sha256 then
      makeStorePath store sha (makeType store (ascii "text") ⟨references, false⟩) hash name
    else .error .assertion
  | .fixedOutputInfo method hash references =>
    makeFixedOutputPath store sha name method hash references

end Making

theorem of_hash_ok_iff (size : hash.length = 20) :
    (∃ path, StorePath.ofHash hash size name = .ok path) ↔ checkName name = .ok () := by
  rw [StorePath.ofHash]
  split
  next checked => exact iff_of_true ⟨_, rfl⟩ checked
  next message checked =>
    rw [checked]
    exact iff_of_false nofun nofun
  next failure _ checked =>
    rw [checked]
    exact iff_of_false nofun nofun

variable {path : StorePath}

theorem of_hash_separator (size : hash.length = 20)
    (made : StorePath.ofHash hash size name = .ok path) : path.separator = 45 := by
  rw [StorePath.ofHash] at made
  split at made
  · have printed : (printHash32 hash).length = hashLen := by
      rw [print_hash32_length, size]
      rfl
    rw [← Except.ok.inj made]
    change (printHash32 hash ++ ascii "-" ++ name).getD hashLen 0 = 45
    rw [append_assoc, getD_append_right _ _ _ _ (le_of_eq printed), printed]
    rfl
  · cases made
  · cases made

def AddressAllowed (ca : ContentAddress) : Prop :=
  (ca.method = .text → ca.hash.algo = .sha256) ∧ (ca.method = .git → ca.hash.algo = .sha1)

variable {type : Bytes} {store : StoreDirConfig} {sha : Sha256}

theorem make_store_path_ok_iff {hash : Hash} :
    (∃ path, makeStorePath store sha type hash name = .ok path) ↔ checkName name = .ok () :=
  of_hash_ok_iff (compress_hash_length _ _)

theorem make_store_path_separator {hash : Hash}
    (made : makeStorePath store sha type hash name = .ok path) : path.separator = 45 :=
  of_hash_separator (compress_hash_length _ _) made

/-- A path can be made from every address that is allowed, under a good name. -/
theorem fixed_output_path_ok_iff (store : StoreDirConfig) (sha : Sha256) (name : Bytes)
    (ca : ContentAddress) :
    (∃ path, makeFixedOutputPathFromCA store sha name (withoutRefs ca) = .ok path) ↔
      AddressAllowed ca ∧ checkName name = .ok () := by
  obtain ⟨method, hash⟩ := ca
  cases method with
  | text =>
    rw [withoutRefs, makeFixedOutputPathFromCA]
    by_cases isSha256 : hash.algo = .sha256
    · rw [if_pos isSha256, make_store_path_ok_iff]
      exact (and_iff_right ⟨fun _ => isSha256, nofun⟩).symm
    · rw [if_neg isSha256]
      exact iff_of_false nofun fun both => isSha256 (both.1.1 rfl)
  | flat =>
    rw [withoutRefs, makeFixedOutputPathFromCA, makeFixedOutputPath, if_neg nofun,
      if_neg nofun, if_neg nofun, make_store_path_ok_iff]
    exact (and_iff_right ⟨nofun, nofun⟩).symm
  | git =>
    rw [withoutRefs, makeFixedOutputPathFromCA, makeFixedOutputPath]
    by_cases isSha1 : hash.algo = .sha1
    · rw [if_neg fun both => both.2 isSha1, if_neg nofun, if_neg nofun, make_store_path_ok_iff]
      exact (and_iff_right ⟨nofun, fun _ => isSha1⟩).symm
    · rw [if_pos ⟨rfl, isSha1⟩]
      exact iff_of_false nofun fun both => isSha1 (both.1.2 rfl)
  | bsdArchive =>
    rw [withoutRefs, makeFixedOutputPathFromCA, makeFixedOutputPath, if_neg nofun]
    have allowed : AddressAllowed ⟨.bsdArchive, hash⟩ := ⟨nofun, nofun⟩
    by_cases isSha256 : hash.algo = .sha256
    · rw [if_pos ⟨isSha256, rfl⟩, make_store_path_ok_iff]
      exact (and_iff_right allowed).symm
    · rw [if_neg fun both => isSha256 both.1, if_neg nofun, make_store_path_ok_iff]
      exact (and_iff_right allowed).symm

theorem fixed_output_path_separator {ca : ContentAddressWithReferences}
    (made : makeFixedOutputPathFromCA store sha name ca = .ok path) : path.separator = 45 := by
  cases ca with
  | textInfo hash references =>
    rw [makeFixedOutputPathFromCA] at made
    split at made
    · exact make_store_path_separator made
    · cases made
  | fixedOutputInfo method hash references =>
    rw [makeFixedOutputPathFromCA, makeFixedOutputPath] at made
    split at made
    · cases made
    split at made
    · exact make_store_path_separator made
    · split at made
      · cases made
      · exact make_store_path_separator made

end Bsd.Store.ContentAddresses
