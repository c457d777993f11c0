import Mathlib.Data.ZMod.Defs
import Bsd.Util.FilePath

/-!
# Hashes and their text

A `Hash` holds as many bytes as its algorithm produces. It is printed in base 16
or in the base-32 variant of the store, whose alphabet `bsd32Chars` omits `e`,
`o`, `u` and `t`; a text is parsed by its length, in base 16, 32 or 64.
-/

namespace Bsd.Util.Hashes

open Lib.Occurrences Util.FilePath List

inductive HashAlgorithm where
  | md5
  | sha1
  | sha256
  | sha512
  | blake3
  deriving DecidableEq

def regularHashSize : HashAlgorithm → Nat
  | .md5 => 16
  | .sha1 => 20
  | .sha256 => 32
  | .sha512 => 64
  | .blake3 => 32

def printHashAlgo : HashAlgorithm → Bytes
  | .md5 => ascii "md5"
  | .sha1 => ascii "sha1"
  | .sha256 => ascii "sha256"
  | .sha512 => ascii "sha512"
  | .blake3 => ascii "blake3"

def parseHashAlgoOpt (text : Bytes) : Option HashAlgorithm :=
  if text = ascii "blake3" then some .blake3
  else if text = ascii "md5" then some .md5
  else if text = ascii "sha1" then some .sha1
  else if text = ascii "sha256" then some .sha256
  else if text = ascii "sha512" then some .sha512
  else none

def parseHashAlgo (text : Bytes) : Except Failure HashAlgorithm :=
  match parseHashAlgoOpt text with
  | some algo => .ok algo
  | none =>
    .error (.usageError (ascii "unknown hash algorithm " ++ quoted text ++
      ascii ", expect 'blake3', 'md5', 'sha1', 'sha256', or 'sha512'"))

structure Hash where
  algo : HashAlgorithm
  hash : Bytes
  hashSize : hash.length = regularHashSize algo
  deriving DecidableEq

/-- The SHA-256 function of the crypto library. -/
structure Sha256 where
  digest : Bytes → Bytes
  size : ∀ data, (digest data).length = 32

/-- `hashString(HashAlgorithm::SHA256, data)`. -/
def hashString (sha : Sha256) (data : Bytes) : Hash where
  algo := .sha256
  hash := sha.digest data
  hashSize := sha.size data

theorem zero_hash_size : (replicate 32 (0 : Byte)).length = regularHashSize .sha256 := rfl

/-- A stand-in for SHA-256 that adds the bytes up. -/
def sumSha : Sha256 := ⟨fun data => data.sum :: List.replicate 31 0, fun _ => rfl⟩

def base16Chars : Bytes := ascii "0123456789abcdef"

def printHash16 (hash : Bytes) : Bytes :=
  hash.flatMap fun byte => [base16Chars.getD (byte.val >>> 4) 0, base16Chars.getD (byte.val &&& 15) 0]

def bsd32Chars : Bytes := ascii "0123456789abcdfghijklmnpqrsvwxyz"

def isBase32 (character : Byte) : Bool := bsd32Chars.contains character

def base32Len (size : Nat) : Nat := (size * 8 - 1) / 5 + 1

def base32Digit (hash : Bytes) (n : Nat) : Nat :=
  let i := n * 5 / 8
  let j := n * 5 % 8
  let low := (hash.getD i 0).val >>> j
  let high := if hash.length - 1 ≤ i then 0 else (hash.getD (i + 1) 0).val <<< (8 - j)
  (low ||| high) % 32

def printHash32 (hash : Bytes) : Bytes :=
  (List.range (base32Len hash.length)).reverse.map fun n =>
    bsd32Chars.getD (base32Digit hash n) 0

def Hash.printWithAlgo (hash : Hash) : Bytes :=
  printHashAlgo hash.algo ++ ascii ":" ++ printHash16 hash.hash

/-- `compressHash`: the bytes of the shorter hash. -/
def compressHash (hash : Hash) (newSize : Nat) : Bytes :=
  (List.range newSize).map fun i =>
    hash.hash.zipIdx.foldl
      (fun byte entry => if entry.2 % newSize = i then byte ^^^ entry.1 else byte) 0

def parseHexDigit (character : Byte) : Option Nat :=
  if 48 ≤ character.val ∧ character.val ≤ 57 then some (character.val - 48)
  else if 65 ≤ character.val ∧ character.val ≤ 70 then some (character.val - 65 + 10)
  else if 97 ≤ character.val ∧ character.val ≤ 102 then some (character.val - 97 + 10)
  else none

def parseBase16 : Bytes → Option Bytes
  | high :: low :: rest =>
    match parseHexDigit high, parseHexDigit low, parseBase16 rest with
    | some upper, some lower, some bytes => some (Fin.ofNat 256 (upper <<< 4 ||| lower) :: bytes)
    | _, _, _ => none
  | _ => some []

def orInto (hash : Bytes) (i value : Nat) : Bytes :=
  hash.modify i fun byte => Fin.ofNat 256 (byte.val ||| value)

def parseBase32Step (size : Nat) (state : Option Bytes) (entry : Byte × Nat) : Option Bytes := do
  let hash ← state
  let digit ← bsd32Chars.idxOf? entry.1
  let i := entry.2 * 5 / 8
  let j := entry.2 * 5 % 8
  let lower := orInto hash i (digit <<< j)
  if i < size - 1 then some (orInto lower (i + 1) (digit >>> (8 - j)))
  else if digit >>> (8 - j) ≠ 0 then none
  else some lower

def parseBase32 (size : Nat) (text : Bytes) : Option Bytes :=
  text.reverse.zipIdx.foldl (parseBase32Step size) (some (List.replicate size 0))

def base64Chars : Bytes :=
  ascii "ABCDEFGHIJKLMNOPQRSTUVWXYZabcdefghijklmnopqrstuvwxyz0123456789+/"

/-- The loop of `base64Decode`; `data` is an `unsigned int`. -/
def base64Loop : Bytes → Nat → Nat → Option Bytes
  | [], _, _ => some []
  | character :: rest, data, bits =>
    if character = 61 then some []
    else if character = 10 then base64Loop rest data bits
    else
      match base64Chars.idxOf? character with
      | none => none
      | some digit =>
        let data := (data <<< 6 ||| digit) % 2 ^ 32
        if 8 ≤ bits + 6 then
          (base64Loop rest data (bits + 6 - 8)).map (Fin.ofNat 256 (data >>> (bits + 6 - 8)) :: ·)
        else base64Loop rest data (bits + 6)

def base64Decode (text : Bytes) : Option Bytes := base64Loop text 0 0

def base64Len (size : Nat) : Nat := (4 * size / 3 + 3) / 4 * 4

/-- The bytes behind a text that says neither its algorithm nor its base. A
failure of `base64Decode` is caught there and leaves the empty string. -/
def parseHashBytes (size : Nat) (text : Bytes) : Option Bytes :=
  if text.length = size * 2 then parseBase16 text
  else if text.length = base32Len size then parseBase32 size text
  else if text.length = base64Len size then some ((base64Decode text).getD [])
  else none

def parseHashMessage (algo : HashAlgorithm) (text : Bytes) : Bytes :=
  let size := regularHashSize algo
  if text.length = size * 2 then ascii "invalid base-16 hash " ++ quoted text
  else if text.length = base32Len size then ascii "invalid base-32 hash " ++ quoted text
  else if text.length = base64Len size then ascii "invalid base-64 hash " ++ quoted text
  else ascii "hash " ++ quoted text ++ ascii " has wrong length for hash algorithm " ++
    quoted (printHashAlgo algo)

/-- `Hash::parseNonSRIUnprefixed`. -/
def parseHash (text : Bytes) (algo : HashAlgorithm) : Except Failure Hash :=
  match parseHashBytes (regularHashSize algo) text with
  | some hash =>
    if size : hash.length = regularHashSize algo then .ok ⟨algo, hash, size⟩
    else .error (.badHash (parseHashMessage algo text))
  | none => .error (.badHash (parseHashMessage algo text))

/-- The constructor of `Hash` for the rest of an SRI text. -/
def parseHashSRI (text : Bytes) (algo : HashAlgorithm) : Except Failure Hash :=
  let hash := (base64Decode text).getD []
  if size : hash.length = regularHashSize algo then .ok ⟨algo, hash, size⟩
  else .error (.badHash (ascii "invalid SRI hash " ++ quoted text))

def parseAnyPrefixed (original : Bytes) : Except Failure Hash :=
  match splitPrefixTo original 58 with
  | some (algoText, rest) => do
      let algo ← parseHashAlgo algoText
      parseHash rest algo
  | none =>
    match splitPrefixTo original 45 with
    | some (algoText, rest) => do
        let algo ← parseHashAlgo algoText
        parseHashSRI rest algo
    | none => .error (.badHash (ascii "hash " ++ quoted original ++ ascii " does not include a type"))

/-- `Hash::parseAny`. -/
def parseAny (original : Bytes) (optAlgo : Option HashAlgorithm) : Except Failure Hash := do
  let (optParsedType, rest, isSRI) ←
    match splitPrefixTo original 58 with
    | some (algoText, rest) => do
        let algo ← parseHashAlgo algoText
        pure (some algo, rest, false)
    | none =>
      match splitPrefixTo original 45 with
      | some (algoText, rest) => do
          let algo ← parseHashAlgo algoText
          pure (some algo, rest, true)
      | none => pure (none, original, false)
  let algo ←
    match optParsedType, optAlgo with
    | none, none =>
      throw (.badHash (ascii "hash " ++ quoted rest ++
        ascii " does not include a type, nor is the type otherwise known from context"))
    | some parsed, some algo =>
      if parsed = algo then pure parsed
      else throw (.badHash (ascii "hash " ++ quoted original ++ ascii " should have type " ++
        quoted (printHashAlgo algo)))
    | some parsed, none => pure parsed
    | none, some algo => pure algo
  if isSRI then parseHashSRI rest algo else parseHash rest algo

def newHashAllowEmpty (hashStr : Bytes) (ha : Option HashAlgorithm) : Except Failure Hash :=
  if hashStr = [] then
    match ha with
    | none => .error (.badHash (ascii "empty hash requires explicit hash algorithm"))
    | some algo => .ok ⟨algo, List.replicate (regularHashSize algo) 0, List.length_replicate⟩
  else parseAny hashStr ha

theorem zero_not_base32 : isBase32 0 = false := by decide

theorem parse_print_hash_algo (algo : HashAlgorithm) :
    parseHashAlgo (printHashAlgo algo) = .ok algo := by
  cases algo <;> rfl

theorem print_hash16_length (hash : Bytes) : (printHash16 hash).length = hash.length * 2 := by
  induction hash with
  | nil => rfl
  | cons byte rest ih =>
    rw [printHash16, flatMap_cons, length_append, ← printHash16]
    simp only [length_cons, length_nil]
    omega

theorem parse_hex_digit_char : ∀ digit < 16,
    parseHexDigit (base16Chars.getD digit 0) = some digit := by
  decide

theorem hex_pair_byte : ∀ byte : Byte, byte.val >>> 4 < 16 ∧ byte.val &&& 15 < 16 ∧
      Fin.ofNat 256 ((byte.val >>> 4) <<< 4 ||| (byte.val &&& 15)) = byte := by
  decide +kernel

theorem parse_print_base16 (hash : Bytes) : parseBase16 (printHash16 hash) = some hash := by
  induction hash with
  | nil => rfl
  | cons byte rest ih =>
    obtain ⟨high, low, same⟩ := hex_pair_byte byte
    change parseBase16 (_ :: _ :: printHash16 rest) = _
    rw [parseBase16, parse_hex_digit_char _ high, parse_hex_digit_char _ low, ih]
    simp only [same]

theorem parse_print_hash (hash : Hash) : parseHash (printHash16 hash.hash) hash.algo = .ok hash := by
  have bytes : parseHashBytes (regularHashSize hash.algo) (printHash16 hash.hash) =
      some hash.hash := by
    rw [parseHashBytes, if_pos (by rw [print_hash16_length, hash.hashSize]), parse_print_base16]
  rw [parseHash, bytes]
  simp [dif_pos hash.hashSize]

theorem print_hash16_injective {left right : Bytes} (same : printHash16 left = printHash16 right) :
    left = right := by
  have parsed := congrArg parseBase16 same
  rw [parse_print_base16, parse_print_base16] at parsed
  exact Option.some.inj parsed

variable {character : Byte}

theorem print_hash16_character {hash : Bytes}
    (member : character ∈ printHash16 hash) : character ∈ base16Chars := by
  have digitMember : ∀ digit < 16, base16Chars.getD digit 0 ∈ base16Chars := by decide
  obtain ⟨byte, _, inPair⟩ := mem_flatMap.mp member
  obtain ⟨high, low, _⟩ := hex_pair_byte byte
  rcases mem_cons.mp inPair with same | inLast
  · rw [same]
    exact digitMember _ high
  · rw [mem_singleton.mp inLast]
    exact digitMember _ low

theorem print_hash32_length (hash : Bytes) : (printHash32 hash).length = base32Len hash.length := by
  rw [printHash32, length_map, length_reverse, length_range]

theorem print_hash32_base32 {hash : Bytes}
    (member : character ∈ printHash32 hash) : isBase32 character = true := by
  obtain ⟨n, _, same⟩ := mem_map.mp member
  have small : base32Digit hash n < 32 := Nat.mod_lt _ (by decide)
  rw [← same]
  generalize base32Digit hash n = digit at small
  revert digit
  decide

theorem compress_hash_length (hash : Hash) (newSize : Nat) :
    (compressHash hash newSize).length = newSize := by
  rw [compressHash, length_map, length_range]

theorem print_hash_algo_plain (algo : HashAlgorithm) : (58 : Byte) ∉ printHashAlgo algo := by
  cases algo <;> decide

theorem parse_any_prefixed_print (hash : Hash) : parseAnyPrefixed hash.printWithAlgo = .ok hash := by
  have split := split_prefix_to_marked (print_hash_algo_plain hash.algo) (printHash16 hash.hash)
  rw [Hash.printWithAlgo, append_assoc]
  change parseAnyPrefixed (printHashAlgo hash.algo ++ 58 :: printHash16 hash.hash) = _
  rw [parseAnyPrefixed, split]
  dsimp only
  rw [parse_print_hash_algo]
  exact parse_print_hash hash

end Bsd.Util.Hashes
