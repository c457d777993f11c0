import Mathlib.Data.Nat.Bitwise
import Bsd.Util.Hashes

/-!
# Base-32 text of hashes

The digits of `printHash32` are groups of five bits, taken from the end of the hash.
A digit and a byte that cover the same bit agree on it, so the text determines the
bits of the hash and is parsed back to it.
-/

namespace Bsd.Util.Base32

open List Lib.Occurrences Util.Hashes

/-- A bit of a byte string, counted from the low bit of the first byte. -/
def bitAt (bytes : Bytes) (position : Nat) : Bool :=
  (bytes.getD (position / 8) 0).val.testBit (position % 8)

variable {bit : Nat}

theorem byte_high_bit (byte : Byte) (high : 8 ≤ bit) : byte.val.testBit bit = false := by
  have bound : 2 ^ 8 ≤ 2 ^ bit := Nat.pow_le_pow_right (by decide) high
  exact Nat.testBit_lt_two_pow (lt_of_lt_of_le byte.isLt bound)

theorem bit_past_end {bytes : Bytes} {position : Nat} (past : bytes.length * 8 ≤ position) :
    bitAt bytes position = false := by
  have outside : bytes.length ≤ position / 8 := by omega
  rw [bitAt, getD_eq_default _ _ outside]
  exact Nat.zero_testBit _

variable {left right : Bytes}

theorem bits_ext (size : left.length = right.length)
    (same : ∀ position, bitAt left position = bitAt right position) : left = right := by
  apply ext_getElem size
  intro i leftBound rightBound
  apply Fin.ext
  apply Nat.eq_of_testBit_eq
  intro bit
  by_cases low : bit < 8
  · have here := same (8 * i + bit)
    have index : (8 * i + bit) / 8 = i := by omega
    have offset : (8 * i + bit) % 8 = bit := by omega
    rwa [bitAt, bitAt, index, offset, getD_eq_getElem _ _ leftBound,
      getD_eq_getElem _ _ rightBound] at here
  · rw [byte_high_bit _ (Nat.le_of_not_lt low), byte_high_bit _ (Nat.le_of_not_lt low)]

theorem digit_bit (hash : Bytes) (n : Nat) (small : bit < 5) :
    (base32Digit hash n).testBit bit = bitAt hash (n * 5 + bit) := by
  have mask : (32 : Nat) = 2 ^ 5 := rfl
  simp only [base32Digit, bitAt, mask, Nat.testBit_mod_two_pow, small, decide_true, Bool.true_and,
    Nat.testBit_or, Nat.testBit_shiftRight]
  by_cases inside : n * 5 % 8 + bit < 8
  · have index : (n * 5 + bit) / 8 = n * 5 / 8 := by omega
    have offset : (n * 5 + bit) % 8 = n * 5 % 8 + bit := by omega
    rw [index, offset]
    split
    · rw [Nat.zero_testBit, Bool.or_false]
    · rw [Nat.testBit_shiftLeft, decide_eq_false (by omega), Bool.false_and, Bool.or_false]
  · have index : (n * 5 + bit) / 8 = n * 5 / 8 + 1 := by omega
    have offset : (n * 5 + bit) % 8 = bit - (8 - n * 5 % 8) := by omega
    rw [index, offset, byte_high_bit _ (Nat.le_of_not_lt inside), Bool.false_or]
    split
    next last =>
      rw [getD_eq_default _ _ (by omega)]
      rw [Nat.zero_testBit]
      exact (Nat.zero_testBit _).symm
    · rw [Nat.testBit_shiftLeft, decide_eq_true (by omega), Bool.true_and]

theorem digit_small (hash : Bytes) (n : Nat) : base32Digit hash n < 32 := Nat.mod_lt _ (by decide)

theorem digit_character_injective : ∀ left < 32, ∀ right < 32,
    bsd32Chars.getD left 0 = bsd32Chars.getD right 0 → left = right := by
  decide

theorem digit_of_character : ∀ digit < 32,
    bsd32Chars.idxOf? (bsd32Chars.getD digit 0) = some digit := by
  decide

variable {digit : Nat} {character : Byte}

theorem character_of_digit (found : bsd32Chars.idxOf? character = some digit) :
    digit < 32 ∧ bsd32Chars.getD digit 0 = character := by
  obtain ⟨bound, same, _⟩ := idxOf?_eq_some_iff.mp found
  exact ⟨bound, (getD_eq_getElem _ _ bound).trans same⟩

variable {hash : Bytes}

theorem bits_of_digits {position : Nat} :
    bitAt hash position = (base32Digit hash (position / 5)).testBit (position % 5) := by
  rw [digit_bit hash _ (Nat.mod_lt _ (by decide)), Nat.div_add_mod']

theorem print_hash32_reverse (hash : Bytes) :
    (printHash32 hash).reverse = (List.range (base32Len hash.length)).map fun n =>
      bsd32Chars.getD (base32Digit hash n) 0 := by
  rw [printHash32, ← map_reverse, reverse_reverse]

theorem print_hash32_injective (size : left.length = right.length)
    (same : printHash32 left = printHash32 right) : left = right := by
  have reversed := congrArg reverse same
  rw [print_hash32_reverse, print_hash32_reverse, size] at reversed
  apply bits_ext size
  intro position
  by_cases inside : position < right.length * 8
  · have digits := map_inj_left.mp reversed (position / 5)
      (mem_range.mpr (by rw [base32Len]; omega))
    rw [bits_of_digits, bits_of_digits,
      digit_character_injective _ (digit_small _ _) _ (digit_small _ _) digits]
  · rw [bit_past_end (Nat.le_of_not_lt inside), bit_past_end (size ▸ Nat.le_of_not_lt inside)]

theorem or_into_length (hash : Bytes) (i value : Nat) :
    (orInto hash i value).length = hash.length := by
  rw [orInto, length_modify]

theorem or_into_bit {i : Nat} (inside : i < hash.length) (value position : Nat) :
    bitAt (orInto hash i value) position =
      (bitAt hash position || decide (position / 8 = i) && value.testBit (position % 8)) := by
  have low : position % 8 < 8 := Nat.mod_lt _ (by decide)
  by_cases bound : position / 8 < hash.length
  · have newBound : position / 8 < (orInto hash i value).length := by rwa [or_into_length]
    rw [bitAt, bitAt, getD_eq_getElem _ _ newBound, getD_eq_getElem _ _ bound]
    simp only [orInto, getElem_modify]
    by_cases here : i = position / 8
    · rw [if_pos here, decide_eq_true here.symm, Bool.true_and]
      change ((_ ||| value) % 2 ^ 8).testBit _ = _
      rw [Nat.testBit_mod_two_pow, decide_eq_true low, Bool.true_and, Nat.testBit_or]
    · rw [if_neg here, decide_eq_false fun same => here same.symm, Bool.false_and, Bool.or_false]
  · have away : position / 8 ≠ i := by omega
    rw [decide_eq_false away, Bool.false_and, Bool.or_false,
      bit_past_end (by rw [or_into_length]; omega), bit_past_end (by omega)]

structure ParsedDigits (size : Nat) (digits : Nat → Nat) (parsed : Bytes) (count : Nat) : Prop where
  size : parsed.length = size
  bits : ∀ position, bitAt parsed position =
    (decide (position < count * 5) && (digits (position / 5)).testBit (position % 5))

theorem parsed_nothing (size : Nat) (digits : Nat → Nat) :
    ParsedDigits size digits (List.replicate size 0) 0 := by
  refine ⟨length_replicate, ?_⟩
  intro position
  rw [bitAt]
  have zero : (replicate size (0 : Byte)).getD (position / 8) 0 = 0 := by
    by_cases inside : position / 8 < (replicate size (0 : Byte)).length
    · rw [getD_eq_getElem _ _ inside, getElem_replicate]
    · exact getD_eq_default _ _ (Nat.le_of_not_lt inside)
  rw [zero]
  exact Nat.zero_testBit _

theorem high_bit (small : digit < 32) (large : 5 ≤ bit) : digit.testBit bit = false :=
  Nat.testBit_lt_two_pow (lt_of_lt_of_le small
    (Nat.pow_le_pow_right (by decide) large : 2 ^ 5 ≤ 2 ^ bit))

theorem digit_spans (small : digit < 32) (n position : Nat) :
    (decide (position / 8 = n * 5 / 8) && (digit <<< (n * 5 % 8)).testBit (position % 8) ||
        decide (position / 8 = n * 5 / 8 + 1) &&
          (digit >>> (8 - n * 5 % 8)).testBit (position % 8)) =
      (decide (position / 5 = n) && digit.testBit (position % 5)) := by
  rw [Nat.testBit_shiftLeft, Nat.testBit_shiftRight]
  by_cases covered : position / 5 = n
  · rw [decide_eq_true covered]
    by_cases first : position / 8 = n * 5 / 8
    · have offset : position % 8 - n * 5 % 8 = position % 5 := by omega
      rw [decide_eq_true first, decide_eq_true (by omega), decide_eq_false (by omega), offset]
      simp
    have second : position / 8 = n * 5 / 8 + 1 := by omega
    have offset : 8 - n * 5 % 8 + position % 8 = position % 5 := by omega
    rw [decide_eq_false first, decide_eq_true second, offset]
    simp
  · rw [decide_eq_false covered]
    by_cases first : position / 8 = n * 5 / 8
    · by_cases before : position % 8 < n * 5 % 8
      · rw [decide_eq_false (by omega : ¬position / 8 = n * 5 / 8 + 1),
          decide_eq_false (by omega : ¬position % 8 ≥ n * 5 % 8)]
        simp
      · rw [high_bit small (by omega : 5 ≤ position % 8 - n * 5 % 8),
          decide_eq_false (by omega : ¬position / 8 = n * 5 / 8 + 1)]
        simp
    · by_cases second : position / 8 = n * 5 / 8 + 1
      · rw [decide_eq_false first, high_bit small (by omega : 5 ≤ 8 - n * 5 % 8 + position % 8)]
        simp
      · rw [decide_eq_false first, decide_eq_false second]
        simp

section Digits

variable {size : Nat} {digits : Nat → Nat} {parsed : Bytes}

theorem parsed_digit (nonempty : 0 < size) {n : Nat} (done : ParsedDigits size digits parsed n)
    (inside : n < base32Len size) (isDigit : bsd32Chars.idxOf? character = some (digits n))
    (small : digits n < 32) {next : Bytes}
    (stepped : parseBase32Step size (some parsed) (character, n) = some next) :
    ParsedDigits size digits next (n + 1) := by
  have first : n * 5 / 8 < parsed.length := by
    rw [done.size]
    rw [base32Len] at inside
    omega
  have grown (position : Nat) :
      (decide (position < n * 5) && (digits (position / 5)).testBit (position % 5) ||
          decide (position / 5 = n) && (digits n).testBit (position % 5)) =
        (decide (position < (n + 1) * 5) && (digits (position / 5)).testBit (position % 5)) := by
    by_cases covered : position / 5 = n
    · rw [covered, ← Bool.and_or_distrib_right, ← Bool.decide_or]
      congr 2
      apply propext
      omega
    · rw [decide_eq_false covered, Bool.false_and, Bool.or_false]
      congr 2
      apply propext
      omega
  simp only [parseBase32Step, Option.bind_eq_bind, Option.bind_some, isDigit] at stepped
  by_cases middle : n * 5 / 8 < size - 1
  · rw [if_pos middle] at stepped
    cases stepped
    refine ⟨?_, ?_⟩
    · rw [or_into_length, or_into_length, done.size]
    intro position
    have second : n * 5 / 8 + 1 < (orInto parsed (n * 5 / 8)
        (digits n <<< (n * 5 % 8))).length := by
      rw [or_into_length, done.size]
      omega
    rw [or_into_bit second, or_into_bit first, Bool.or_assoc, digit_spans small, done.bits, grown]
  · rw [if_neg middle] at stepped
    by_cases rest : digits n >>> (8 - n * 5 % 8) = 0
    · rw [if_neg (not_not.mpr rest)] at stepped
      cases stepped
      refine ⟨?_, ?_⟩
      · rw [or_into_length, done.size]
      intro position
      have spans := digit_spans small n position
      rw [rest, Nat.zero_testBit, Bool.and_false, Bool.or_false] at spans
      rw [or_into_bit first, spans, done.bits, grown]
    · rw [if_pos rest] at stepped
      cases stepped

/-- The state of the parser after the first characters, counted from the end. -/
def parseDigits (size : Nat) (characters : Nat → Byte) (count : Nat) : Option Bytes :=
  ((List.range count).map fun n => (characters n, n)).foldl (parseBase32Step size)
    (some (List.replicate size 0))

theorem parse_digits_succ (size : Nat) (characters : Nat → Byte) (count : Nat) :
    parseDigits size characters (count + 1) =
      parseBase32Step size (parseDigits size characters count) (characters count, count) := by
  simp [parseDigits, range_succ]

theorem parsed_digits (nonempty : 0 < size) {characters : Nat → Byte} {count : Nat}
    (inside : count ≤ base32Len size) (accepted : parseDigits size characters count = some parsed) :
    (∀ n < count, ∃ digit, bsd32Chars.idxOf? (characters n) = some digit) ∧
      ParsedDigits size (fun n => (bsd32Chars.idxOf? (characters n)).getD 0) parsed count := by
  induction count generalizing parsed with
  | zero =>
    cases accepted
    exact ⟨nofun, parsed_nothing size _⟩
  | succ count ih =>
    rw [parse_digits_succ] at accepted
    cases before : parseDigits size characters count with
    | none =>
      rw [before] at accepted
      cases accepted
    | some previous =>
      rw [before] at accepted
      obtain ⟨known, done⟩ := ih (Nat.le_of_succ_le inside) before
      cases found : bsd32Chars.idxOf? (characters count) with
      | none => simp [parseBase32Step, found] at accepted
      | some digit =>
        refine ⟨?_, parsed_digit nonempty done inside ?_ ?_ accepted⟩
        · intro n bound
          rcases Nat.lt_succ_iff_lt_or_eq.mp bound with earlier | rfl
          · exact known n earlier
          · exact ⟨digit, found⟩
        · simp [found]
        · rw [found]
          exact (character_of_digit found).1

end Digits

theorem parse_base32_eq {size : Nat} (text : Bytes) : parseBase32 size text =
      parseDigits size (fun n => text.reverse.getD n 0) text.length := by
  rw [parseBase32, parseDigits]
  congr 1
  apply ext_getElem
  · simp
  · intro i inside _
    rw [length_zipIdx] at inside
    rw [getElem_zipIdx, getElem_map, getElem_range, getD_eq_getElem _ _ inside, Nat.zero_add]

/-- A text of the right length that is accepted is the one that is printed. -/
theorem parse_base32_canonical {size : Nat} (nonempty : 0 < size) {text hash : Bytes}
    (length : text.length = base32Len size) (accepted : parseBase32 size text = some hash) :
    hash.length = size ∧ printHash32 hash = text := by
  rw [parse_base32_eq, length] at accepted
  obtain ⟨known, done⟩ := parsed_digits nonempty le_rfl accepted
  refine ⟨done.size, ?_⟩
  rw [← reverse_inj, print_hash32_reverse, done.size]
  apply ext_getElem
  · simp [length]
  intro n bound inside
  rw [length_map, length_range] at bound
  obtain ⟨digit, found⟩ := known n bound
  have same : base32Digit hash n = digit := by
    apply Nat.eq_of_testBit_eq
    intro bit
    by_cases low : bit < 5
    · have quotient : (n * 5 + bit) / 5 = n := by omega
      have remainder : (n * 5 + bit) % 5 = bit := by omega
      rw [digit_bit hash n low, done.bits, quotient, remainder, found, decide_eq_true (by omega)]
      rfl
    · rw [high_bit (digit_small hash n) (Nat.le_of_not_lt low),
        high_bit (character_of_digit found).1 (Nat.le_of_not_lt low)]
  rw [getElem_map, getElem_range, same, (character_of_digit found).2, getD_eq_getElem _ _ inside]

theorem printed_digits_accepted (nonempty : 0 < hash.length) {count : Nat}
    (inside : count ≤ base32Len hash.length) :
    ∃ parsed, parseDigits hash.length (fun n => bsd32Chars.getD (base32Digit hash n) 0) count =
      some parsed := by
  induction count with
  | zero => exact ⟨_, rfl⟩
  | succ n ih =>
    obtain ⟨parsed, before⟩ := ih (Nat.le_of_succ_le inside)
    rw [parse_digits_succ, before]
    simp only [parseBase32Step, Option.bind_eq_bind, Option.bind_some,
      digit_of_character _ (digit_small hash n)]
    by_cases middle : n * 5 / 8 < hash.length - 1
    · exact ⟨_, if_pos middle⟩
    -- The digit ends with the hash: its bits past the end are zero.
    have rest : base32Digit hash n >>> (8 - n * 5 % 8) = 0 := by
      apply Nat.eq_of_testBit_eq
      intro bit
      rw [Nat.zero_testBit, Nat.testBit_shiftRight]
      by_cases small : 8 - n * 5 % 8 + bit < 5
      · rw [digit_bit hash n small]
        exact bit_past_end (by omega)
      · exact high_bit (digit_small hash n) (Nat.le_of_not_lt small)
    rw [if_neg middle, if_neg (not_not.mpr rest)]
    exact ⟨_, rfl⟩

theorem parse_print_base32 (nonempty : 0 < hash.length) :
    parseBase32 hash.length (printHash32 hash) = some hash := by
  have length := print_hash32_length hash
  obtain ⟨parsed, accepted⟩ := printed_digits_accepted nonempty le_rfl
  have same : parseBase32 hash.length (printHash32 hash) = some parsed := by
    rw [parse_base32_eq, length, ← accepted, parseDigits]
    congr 1
    apply map_congr_left
    intro n member
    rw [print_hash32_reverse, getD_eq_getElem _ _ (by simpa using member), getElem_map,
      getElem_range]
  obtain ⟨size, printed⟩ := parse_base32_canonical nonempty length same
  rw [same, print_hash32_injective size printed]

theorem hash_nonempty (hash : Hash) : 0 < hash.hash.length := by
  rw [hash.hashSize]
  cases hash.algo <;> decide

theorem parse_print_hash32 (hash : Hash) :
    parseHash (printHash32 hash.hash) hash.algo = .ok hash := by
  have notBase16 : (printHash32 hash.hash).length ≠ regularHashSize hash.algo * 2 := by
    rw [print_hash32_length, hash.hashSize]
    cases hash.algo <;> decide
  have bytes : parseHashBytes (regularHashSize hash.algo) (printHash32 hash.hash) =
      some hash.hash := by
    rw [parseHashBytes, if_neg notBase16, if_pos (by rw [print_hash32_length, hash.hashSize]),
      ← hash.hashSize, parse_print_base32 (hash_nonempty hash)]
  rw [parseHash, bytes]
  simp [dif_pos hash.hashSize]

end Bsd.Util.Base32
