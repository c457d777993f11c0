import Bsd.Util.Base32

/-!
# The formats of hashes

`Hash::to_string` prints a hash in base 16, 32 or 64 or as an SRI text, and `Hash::parseAny`
tells them apart by the separator and the length.
-/

namespace Bsd.Util.Hashes

open List Lib.Occurrences Util.FilePath Util.Base32

/-- The inner loop of `base64Encode`, with the bits that are left. -/
def pushDigits (data : Nat) : Nat → Bytes × Nat
  | nbits + 6 =>
    let (digits, left) := pushDigits data nbits
    (base64Chars.getD (data >>> nbits % 64) 0 :: digits, left)
  | nbits => ([], nbits)

/-- The loop of `base64Encode`; no more than thirteen bits of the `int data` are ever used. -/
def encodeLoop : Bytes → Nat → Nat → Bytes
  | [], data, nbits =>
    if nbits = 0 then [] else [base64Chars.getD (data <<< (6 - nbits) % 64) 0]
  | character :: rest, data, nbits =>
    let data := (data <<< 8 ||| character.val) % 2 ^ 32
    let (digits, left) := pushDigits data (nbits + 8)
    digits ++ encodeLoop rest data left

def base64Encode (bytes : Bytes) : Bytes :=
  let digits := encodeLoop bytes 0 0
  digits ++ replicate ((4 - digits.length % 4) % 4) 61

inductive HashFormat where
  | base16
  | bsd32
  | base64
  | sri
  deriving DecidableEq

def Hash.printBytes (hash : Hash) : HashFormat → Bytes
  | .base16 => printHash16 hash.hash
  | .bsd32 => printHash32 hash.hash
  | .base64 | .sri => base64Encode hash.hash

def Hash.toString (hash : Hash) (format : HashFormat) (includeAlgo : Bool) : Bytes :=
  (if format = .sri ∨ includeAlgo then
    printHashAlgo hash.algo ++ [if format = .sri then 45 else 58] else []) ++
    hash.printBytes format

theorem shift_or (data : Nat) {digit width : Nat} (small : digit < 2 ^ width) :
    data <<< width ||| digit = data * 2 ^ width + digit := by
  rw [← Nat.shiftLeft_add_eq_or_of_lt small, Nat.shiftLeft_eq]

theorem digit_of_base64 : ∀ digit < 64, base64Chars.idxOf? (base64Chars.getD digit 0) = some digit ∧
      base64Chars.getD digit 0 ≠ 61 ∧ base64Chars.getD digit 0 ≠ 10 := by
  decide +kernel

theorem decode_digit (digit : Nat) (rest : Bytes) (data bits : Nat) :
    base64Loop (base64Chars.getD (digit % 64) 0 :: rest) data bits =
      let next := (data * 2 ^ 6 + digit % 64) % 2 ^ 32
      if 8 ≤ bits + 6 then
        (base64Loop rest next (bits + 6 - 8)).map (Fin.ofNat 256 (next >>> (bits + 6 - 8)) :: ·)
      else base64Loop rest next (bits + 6) := by
  have small : digit % 64 < 2 ^ 6 := Nat.mod_lt _ (by decide)
  obtain ⟨found, notPad, notNewline⟩ := digit_of_base64 _ small
  rw [base64Loop, if_neg notPad, if_neg notNewline, found]
  dsimp only
  rw [shift_or data small]

theorem decode_padding (count data bits : Nat) :
    base64Loop (replicate count 61) data bits = some [] := by
  cases count with
  | zero => rfl
  | succ count => rw [replicate_succ, base64Loop, if_pos rfl]

theorem push_eight (data : Nat) :
    pushDigits data 8 = ([base64Chars.getD (data >>> 2 % 64) 0], 2) := rfl

theorem push_ten (data : Nat) :
    pushDigits data 10 = ([base64Chars.getD (data >>> 4 % 64) 0], 4) := rfl

theorem push_twelve (data : Nat) : pushDigits data 12 = ([base64Chars.getD (data >>> 6 % 64) 0,
      base64Chars.getD (data >>> 0 % 64) 0], 0) := rfl

/-- With two or four bits left to print, the decoder waits with the bits of the same byte that are
printed already. -/
theorem decode_encode_loop (count : Nat) (bytes : Bytes) : ∀ data read : Nat,
    base64Loop (encodeLoop bytes data 0 ++ replicate count 61) read 0 = some bytes ∧
    base64Loop (encodeLoop bytes data 2 ++ replicate count 61) read 6 =
      some (Fin.ofNat 256 (read % 64 * 4 + data % 4) :: bytes) ∧
    base64Loop (encodeLoop bytes data 4 ++ replicate count 61) read 4 =
      some (Fin.ofNat 256 (read % 16 * 16 + data % 16) :: bytes) := by
  induction bytes with
  | nil =>
    simp only [encodeLoop, if_true, if_false, OfNat.ofNat_ne_zero, nil_append, singleton_append,
      decode_digit, decode_padding, Fin.ofNat]
    simp
    omega
  | cons byte rest ih =>
    intro data read
    have joined : data <<< 8 ||| byte.val = data * 2 ^ 8 + byte.val := shift_or data byte.isLt
    simp only [encodeLoop, push_eight, push_ten, push_twelve, cons_append, nil_append,
      decode_digit, fun next later => (ih next later).1, fun next later => (ih next later).2.1,
      fun next later => (ih next later).2.2, Nat.reduceAdd, Nat.reduceSub,
      Nat.reduceLeDiff, if_true, if_false, Option.map_some, Option.some.injEq, cons.injEq, and_true,
      Fin.ext_iff, Fin.ofNat]
    omega

theorem decode_encode (bytes : Bytes) : base64Decode (base64Encode bytes) = some bytes :=
  (decode_encode_loop _ bytes 0 0).1

theorem encode_loop_length (bytes : Bytes) : ∀ data,
    (encodeLoop bytes data 0).length = (bytes.length * 8 + 5) / 6 ∧
    (encodeLoop bytes data 2).length = (bytes.length * 8 + 7) / 6 ∧
    (encodeLoop bytes data 4).length = (bytes.length * 8 + 9) / 6 := by
  induction bytes with
  | nil => simp [encodeLoop]
  | cons byte rest ih =>
    simp only [encodeLoop, push_eight, push_ten, push_twelve, length_append, length_cons, length_nil,
      fun next => (ih next).1, fun next => (ih next).2.1, fun next => (ih next).2.2, Nat.reduceAdd]
    omega

theorem base64_encode_length (bytes : Bytes) :
    (base64Encode bytes).length = base64Len bytes.length := by
  have digits := (encode_loop_length bytes 0).1
  rw [base64Encode, length_append, length_replicate, base64Len]
  omega

theorem base64_character_plain (digit : Nat) : base64Chars.getD digit 0 ≠ 58 := by
  by_cases inside : digit < base64Chars.length
  · rw [getD_eq_getElem _ _ inside]
    have plain : (58 : Byte) ∉ base64Chars := by decide
    exact fun same => plain (same ▸ getElem_mem inside)
  · rw [getD_eq_default _ _ (Nat.le_of_not_lt inside)]
    decide

theorem push_digits_plain (data nbits : Nat) : (58 : Byte) ∉ (pushDigits data nbits).1 := by
  fun_induction pushDigits data nbits with
  | case1 nbits digits left pushed ih =>
    rw [pushed] at ih
    rw [mem_cons, not_or]
    exact ⟨(base64_character_plain _).symm, ih⟩
  | case2 => exact not_mem_nil

theorem encode_loop_plain (bytes : Bytes) (data nbits : Nat) :
    (58 : Byte) ∉ encodeLoop bytes data nbits := by
  induction bytes generalizing data nbits with
  | nil =>
    rw [encodeLoop]
    split
    · exact not_mem_nil
    · exact fun member => base64_character_plain _ (mem_singleton.mp member).symm
  | cons byte rest ih =>
    rw [encodeLoop, mem_append, not_or]
    exact ⟨push_digits_plain _ _, ih _ _⟩

theorem parse_hash_base64 (hash : Hash) : parseHash (base64Encode hash.hash) hash.algo = .ok hash ∧
      parseHashSRI (base64Encode hash.hash) hash.algo = .ok hash := by
  have length := base64_encode_length hash.hash
  have others : base64Len hash.hash.length ≠ regularHashSize hash.algo * 2 ∧
      base64Len hash.hash.length ≠ base32Len (regularHashSize hash.algo) := by
    rw [hash.hashSize]
    cases hash.algo <;> decide
  have bytes : parseHashBytes (regularHashSize hash.algo) (base64Encode hash.hash) =
      some hash.hash := by
    rw [parseHashBytes, length, if_neg others.1, if_neg others.2, hash.hashSize, if_pos rfl,
      decode_encode, Option.getD_some]
  constructor
  · rw [parseHash, bytes]
    simp [dif_pos hash.hashSize]
  · simp [parseHashSRI, decode_encode, dif_pos hash.hashSize]

theorem to_string_eq (hash : Hash) (format : HashFormat) : hash.toString format true =
    printHashAlgo hash.algo ++ (if format = .sri then 45 else 58) :: hash.printBytes format := by
  simp [Hash.toString]

theorem parse_any_to_string (hash : Hash) (format : HashFormat) :
    parseAny (hash.toString format true) none = .ok hash := by
  have typed (rest : Bytes) (parsed : parseHash rest hash.algo = .ok hash) :
      parseAny (printHashAlgo hash.algo ++ 58 :: rest) none = .ok hash := by
    rw [parseAny, split_prefix_to_marked (print_hash_algo_plain hash.algo)]
    simp only [parse_print_hash_algo]
    exact parsed
  rw [to_string_eq]
  cases format with
  | base16 => exact typed _ (parse_print_hash hash)
  | bsd32 => exact typed _ (parse_print_hash32 hash)
  | base64 => exact typed _ (parse_hash_base64 hash).1
  | sri =>
    have dash : (45 : Byte) ∉ printHashAlgo hash.algo := by cases hash.algo <;> decide
    have noColon : (58 : Byte) ∉ printHashAlgo hash.algo ++ 45 :: base64Encode hash.hash := by
      simp [print_hash_algo_plain, base64Encode, encode_loop_plain]
    change parseAny (printHashAlgo hash.algo ++ 45 :: base64Encode hash.hash) none = .ok hash
    have split := split_prefix_to_marked dash (base64Encode hash.hash)
    rw [parseAny, splitPrefixTo, if_neg noColon, split]
    simp only [parse_print_hash_algo]
    exact (parse_hash_base64 hash).2

theorem parse_base32_printed {algo : HashAlgorithm} {text : Bytes} {hash : Hash}
    (length : text.length = base32Len (regularHashSize algo))
    (parsed : parseHash text algo = .ok hash) : printHash32 hash.hash = text := by
  have notBase16 : base32Len (regularHashSize algo) ≠ regularHashSize algo * 2 := by
    cases algo <;> decide
  have nonempty : 0 < regularHashSize algo := by cases algo <;> decide
  rw [parseHash, parseHashBytes, length, if_neg notBase16, if_pos rfl] at parsed
  cases accepted : parseBase32 (regularHashSize algo) text with
  | none =>
    rw [accepted] at parsed
    cases parsed
  | some bytes =>
    obtain ⟨size, printed⟩ := parse_base32_canonical nonempty length accepted
    simp only [accepted, dif_pos size] at parsed
    cases parsed
    exact printed

/-- Every printed form is read back as the hash, and a hash has one text in base 32. -/
theorem hash_texts_faithful : (∀ (hash : Hash) (format : HashFormat),
      parseAny (hash.toString format true) none = .ok hash) ∧
    (∀ (algo : HashAlgorithm) (text : Bytes) (hash : Hash),
      text.length = base32Len (regularHashSize algo) → parseHash text algo = .ok hash →
        printHash32 hash.hash = text) ∧
    ∀ (algo : HashAlgorithm) (left right : Bytes) (hash : Hash),
      left.length = base32Len (regularHashSize algo) →
      right.length = base32Len (regularHashSize algo) →
      parseHash left algo = .ok hash → parseHash right algo = .ok hash → left = right := by
  refine ⟨parse_any_to_string, fun _ _ _ => parse_base32_printed, ?_⟩
  intro algo left right hash leftLength rightLength leftParsed rightParsed
  rw [← parse_base32_printed leftLength leftParsed, parse_base32_printed rightLength rightParsed]

theorem hash_texts_faithful_zero :
    parseAny (Hash.toString ⟨.sha256, _, zero_hash_size⟩ .sri true) none =
        .ok ⟨.sha256, _, zero_hash_size⟩ ∧
      printHash32 (replicate 32 0) = replicate 52 48 :=
  ⟨hash_texts_faithful.1 _ _, hash_texts_faithful.2.1 .sha256 _ ⟨.sha256, _, zero_hash_size⟩
    (by decide) (by decide +kernel)⟩

end Bsd.Util.Hashes
