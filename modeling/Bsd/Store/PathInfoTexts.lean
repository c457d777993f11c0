import Bsd.Lib.Decimals
import Bsd.Store.HashText
import Bsd.Store.PathInfoCache
import Bsd.Util.HashFormats

/-!
# Texts about valid paths

The fingerprint of a path info is what signatures are made for. Its fields end at marks that the
names of store paths and the digits of numbers do not contain.
-/

namespace Bsd.Store.PathInfoTexts

open List Lib.Occurrences Lib.PrefixCodes Lib.Decimals Util.FilePath Util.Hashes Util.Base32
open Store.Path Store.Derivations Store.DerivationReread Store.PathFingerprints
open Store.PathInfoCache

def fingerprint (store : StoreDirConfig) (info : ValidPathInfo) : Except Failure Bytes :=
  if info.narSize = 0 then
    .error (.error (ascii "cannot calculate fingerprint of path " ++
      quoted (printStorePath store info.path) ++ ascii " because its size is not known"))
  else .ok (ascii "1;" ++ printStorePath store info.path ++ ascii ";" ++
    info.narHash.toString .bsd32 true ++ ascii ";" ++ decimal info.narSize ++ ascii ";" ++
    [44].intercalate (sortedValue (printStorePathSet store info.references)))

def CheckSignature (verify : Bytes → Bytes → Prop) (store : StoreDirConfig) (info : ValidPathInfo)
    (signature : Bytes) : Prop :=
  ∃ data, fingerprint store info = .ok data ∧ verify data signature

def SameSigned (left right : ValidPathInfo) : Prop :=
  left.path = right.path ∧ left.narHash = right.narHash ∧ left.narSize = right.narSize ∧
    left.references = right.references

theorem intercalate_marked (mark : Byte) {texts : List Bytes} (nonempty : texts ≠ []) :
    [mark].intercalate texts ++ [mark] = texts.flatMap (· ++ [mark]) := by
  induction texts with
  | nil => exact absurd rfl nonempty
  | cons first rest ih =>
    cases rest with
    | nil => simp
    | cons second rest =>
      rw [flatMap_cons, ← ih (cons_ne_nil _ _)]
      simp

variable {store : StoreDirConfig}

theorem references_inj {left right : Finset StorePath}
    (same : [44].intercalate (sortedValue (printStorePathSet store left)) =
      [44].intercalate (sortedValue (printStorePathSet store right))) : left = right := by
  obtain ⟨leftPaths, _, leftSet, leftSorted⟩ := sorted_sources store left
  obtain ⟨rightPaths, _, rightSet, rightSorted⟩ := sorted_sources store right
  rw [leftSorted, rightSorted] at same
  rw [← leftSet, ← rightSet]
  have printed (path : StorePath) (rest : List StorePath) :
      [44].intercalate ((path :: rest).map (printStorePath store)) ≠ [] := by
    simp [intercalate_cons_eq, printStorePath, ascii]
  rcases leftPaths with _ | ⟨first, leftPaths⟩ <;> rcases rightPaths with _ | ⟨other, rightPaths⟩
  · rfl
  · exact absurd same.symm (printed other rightPaths)
  · exact absurd same (printed first leftPaths)
  · have marked := congrArg (· ++ [44]) same
    simp only [intercalate_marked, ne_eq, map_eq_nil_iff, reduceCtorEq, not_false_eq_true,
      flatMap_map] at marked
    obtain ⟨samePaths, _⟩ := prefix_code_list (marked_path_code (by decide)) (· = [])
      (by simp) (fun _ _ => trivial) (fun _ _ => trivial) rfl rfl
      (congrArg (· ++ ([] : Bytes)) marked)
    rw [samePaths]

theorem hash_text_inj {left right : Hash} (sameAlgo : left.algo = right.algo)
    {moreLeft moreRight : Bytes}
    (same : left.toString .bsd32 true ++ moreLeft = right.toString .bsd32 true ++ moreRight) :
    left = right ∧ moreLeft = moreRight := by
  have sizes : left.hash.length = right.hash.length := by
    rw [left.hashSize, right.hashSize, sameAlgo]
  simp only [to_string_eq, sameAlgo, append_assoc] at same
  obtain ⟨sameHash, sameMore⟩ := append_inj (cons.inj (append_cancel_left same)).2
    (by rw [Hash.printBytes, Hash.printBytes, print_hash32_length, print_hash32_length, sizes])
  have bytes := print_hash32_injective sizes sameHash
  cases left
  cases right
  cases sameAlgo
  cases bytes
  exact ⟨rfl, sameMore⟩

theorem fingerprint_inj {left right : ValidPathInfo} {data : Bytes}
    (sameAlgo : left.narHash.algo = right.narHash.algo)
    (leftPrint : fingerprint store left = .ok data)
    (rightPrint : fingerprint store right = .ok data) : SameSigned left right := by
  rw [fingerprint] at leftPrint rightPrint
  split at leftPrint
  · cases leftPrint
  split at rightPrint
  · cases rightPrint
  have same := Except.ok.inj (leftPrint.trans rightPrint.symm)
  simp only [append_assoc] at same
  obtain ⟨samePath, same⟩ := marked_path_code (by decide : isNameCharacter 59 = false)
    left.path right.path trivial trivial _ _
    (by rw [append_assoc, append_assoc]; exact append_cancel_left same)
  obtain ⟨sameHash, same⟩ := hash_text_inj sameAlgo same
  obtain ⟨sameSize, same⟩ := prefix_code_marked 59 _ _ (decimal_plain left.narSize (by decide))
    (decimal_plain right.narSize (by decide)) _ _
    (by rw [append_assoc, append_assoc]; exact append_cancel_left same)
  refine ⟨samePath, sameHash, ?_, references_inj same⟩
  rw [← decimal_value left.narSize, sameSize, decimal_value]

/-- Equal fingerprints are made of equal data. Where a signature is accepted for one text only, it
is therefore not accepted for a path info with other data. -/
theorem fingerprint_determines (store : StoreDirConfig) (left right : ValidPathInfo)
    (leftHash : left.narHash.algo = .sha256) (rightHash : right.narHash.algo = .sha256)
    (leftSize : left.narSize ≠ 0) :
    (fingerprint store left = fingerprint store right → SameSigned left right) ∧
    ∀ verify : Bytes → Bytes → Prop,
      (∀ data other signature, verify data signature → verify other signature → data = other) →
      ∀ signature, CheckSignature verify store left signature →
        CheckSignature verify store right signature → SameSigned left right := by
  have sameAlgo := leftHash.trans rightHash.symm
  constructor
  · intro same
    exact fingerprint_inj sameAlgo (if_neg leftSize) (same.symm.trans (if_neg leftSize))
  · rintro verify unique signature ⟨data, leftPrint, leftValid⟩ ⟨other, rightPrint, rightValid⟩
    rw [← unique data other signature leftValid rightValid] at rightPrint
    exact fingerprint_inj sameAlgo leftPrint rightPrint

def signedPath : ValidPathInfo where
  path := ⟨ascii "ffffffffffffffffffffffffffffffff-hello", by decide +kernel⟩
  deriver := none
  narHash := ⟨.sha256, _, zero_hash_size⟩
  references := ∅
  registrationTime := 0
  narSize := 120
  id := 0
  ultimate := false
  sigs := ∅
  ca := none

theorem fingerprint_determines_size :
    fingerprint usualStore signedPath ≠ fingerprint usualStore { signedPath with narSize := 121 } := by
  intro same
  have agree := (fingerprint_determines usualStore signedPath { signedPath with narSize := 121 } rfl
    rfl (by decide)).1 same
  exact absurd agree.2.2.1 (by decide)

end Bsd.Store.PathInfoTexts
