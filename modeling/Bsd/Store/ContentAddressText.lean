import Bsd.Util.Base32
import Bsd.Store.ContentAddresses

/-!
# The text of a content address

A content address is kept as `text:` or `fixed:` and the prefix of its method,
followed by its hash in base 32.
-/

namespace Bsd.Store.ContentAddressText

open Lib.Occurrences Util.FilePath Util.Hashes Util.Base32 Store.ContentAddresses

def renderPrefixModern : ContentAddressMethod → Bytes
  | .text => ascii "text:"
  | method => ascii "fixed:" ++ makeFileIngestionPrefix method.getFileIngestionMethod

def ContentAddress.render (ca : ContentAddress) : Bytes :=
  renderPrefixModern ca.method ++
    (printHashAlgo ca.hash.algo ++ ascii ":" ++ printHash32 ca.hash.hash)

def parseAlgoPart (wholeInput rest : Bytes) : Except Failure (HashAlgorithm × Bytes) :=
  match splitPrefixTo rest 58 with
  | none =>
    .error (.usageError (ascii "content address hash must be in form '<algo>:<hash>', but found: " ++
      wholeInput))
  | some (hashAlgoRaw, rest) => do
      let hashAlgo ← parseHashAlgo hashAlgoRaw
      pure (hashAlgo, rest)

def parseFixedMethod (rest : Bytes) : ContentAddressMethod × Bytes :=
  match splitFront rest (ascii "r:") with
  | some rest => (.bsdArchive, rest)
  | none =>
    match splitFront rest (ascii "git:") with
    | some rest => (.git, rest)
    | none => (.flat, rest)

def parseContentAddressMethodPrefix (wholeInput : Bytes) :
    Except Failure (ContentAddressMethod × HashAlgorithm × Bytes) :=
  match splitPrefixTo wholeInput 58 with
  | none =>
    .error (.usageError (ascii
      "not a content address because it is not in the form '<prefix>:<rest>': " ++ wholeInput))
  | some (front, rest) =>
    if front = ascii "text" then do
      let (hashAlgo, rest) ← parseAlgoPart wholeInput rest
      pure (.text, hashAlgo, rest)
    else if front = ascii "fixed" then do
      let (hashAlgo, later) ← parseAlgoPart wholeInput (parseFixedMethod rest).2
      pure ((parseFixedMethod rest).1, hashAlgo, later)
    else
      .error (.usageError (ascii "content address prefix " ++ quoted front ++
        ascii " is unrecognized. Recogonized prefixes are 'text' or 'fixed'"))

def ContentAddress.parse (rawCa : Bytes) : Except Failure ContentAddress := do
  let (caMethod, hashAlgo, rest) ← parseContentAddressMethodPrefix rawCa
  let hash ← parseHash rest hashAlgo
  pure ⟨caMethod, hash⟩

def ContentAddress.parseOpt (rawCaOpt : Bytes) : Except Failure (Option ContentAddress) :=
  if rawCaOpt = [] then .ok none
  else do
    let ca ← ContentAddress.parse rawCaOpt
    pure (some ca)

theorem parse_algo_part_printed (wholeInput : Bytes) (algo : HashAlgorithm) (rest : Bytes) :
    parseAlgoPart wholeInput (printHashAlgo algo ++ 58 :: rest) = .ok (algo, rest) := by
  rw [parseAlgoPart, split_prefix_to_marked (print_hash_algo_plain algo)]
  dsimp only
  rw [parse_print_hash_algo]
  rfl

theorem parse_fixed_method_rendered {method : ContentAddressMethod} (notText : method ≠ .text)
    (algo : HashAlgorithm) (rest : Bytes) :
    parseFixedMethod (makeFileIngestionPrefix method.getFileIngestionMethod ++
        (printHashAlgo algo ++ rest)) = (method, printHashAlgo algo ++ rest) := by
  cases method with
  | text => exact absurd rfl notText
  | flat => cases algo <;> rfl
  | bsdArchive | git => rfl

section

variable (ca : ContentAddress)

include ca

theorem render_eq : ContentAddress.render ca = renderPrefixModern ca.method ++
    (printHashAlgo ca.hash.algo ++ 58 :: printHash32 ca.hash.hash) := by
  rw [ContentAddress.render, List.append_assoc]
  rfl

theorem parse_method_prefix_rendered : parseContentAddressMethodPrefix (ContentAddress.render ca) =
      .ok (ca.method, ca.hash.algo, printHash32 ca.hash.hash) := by
  by_cases isText : ca.method = .text
  · have split : splitPrefixTo (ContentAddress.render ca) 58 =
        some (ascii "text", printHashAlgo ca.hash.algo ++ 58 :: printHash32 ca.hash.hash) := by
      have plain : (58 : Byte) ∉ ascii "text" := by decide
      rw [render_eq, isText]
      exact split_prefix_to_marked plain _
    rw [parseContentAddressMethodPrefix, split]
    dsimp only
    rw [parse_algo_part_printed, isText]
    rfl
  · have split : splitPrefixTo (ContentAddress.render ca) 58 =
        some (ascii "fixed", makeFileIngestionPrefix ca.method.getFileIngestionMethod ++
          (printHashAlgo ca.hash.algo ++ 58 :: printHash32 ca.hash.hash)) := by
      have shape : renderPrefixModern ca.method =
          ascii "fixed:" ++ makeFileIngestionPrefix ca.method.getFileIngestionMethod := by
        cases method : ca.method with
        | text => exact absurd method isText
        | flat | bsdArchive | git => rfl
      have plain : (58 : Byte) ∉ ascii "fixed" := by decide
      rw [render_eq, shape]
      exact split_prefix_to_marked plain _
    rw [parseContentAddressMethodPrefix, split]
    dsimp only
    rw [parse_fixed_method_rendered isText, parse_algo_part_printed]
    rfl

theorem parse_opt_render : ContentAddress.parseOpt (ContentAddress.render ca) = .ok (some ca) := by
  have nonempty : ContentAddress.render ca ≠ [] := by
    rw [render_eq]
    exact List.append_ne_nil_of_right_ne_nil _ (List.append_ne_nil_of_right_ne_nil _ nofun)
  rw [ContentAddress.parseOpt, if_neg nonempty, ContentAddress.parse, parse_method_prefix_rendered]
  change ((parseHash (printHash32 ca.hash.hash) ca.hash.algo >>= _) >>= _) = _
  rw [parse_print_hash32]
  rfl

theorem zero_not_rendered : (0 : Byte) ∉ ContentAddress.render ca := by
  rw [render_eq]
  intro member
  rcases List.mem_append.mp member with inPrefix | later
  · revert inPrefix
    cases ca.method <;> decide
  rcases List.mem_append.mp later with inAlgo | inHash
  · revert inAlgo
    cases ca.hash.algo <;> decide
  rcases List.mem_cons.mp inHash with isColon | inDigits
  · exact absurd isColon (by decide)
  · have base32 := print_hash32_base32 inDigits
    rw [zero_not_base32] at base32
    cases base32

end

end Bsd.Store.ContentAddressText
