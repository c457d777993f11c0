import Bsd.Lib.LittleEndian
import Bsd.Lib.Readers

/-!
# Length-prefixed strings

Integers are eight little-endian bytes, strings are their length, their bytes
and zero bytes up to a multiple of eight. A `Source` delivers its bytes in
fragments of any size.
-/

namespace Bsd.Util.Serialise

open List Lib.Occurrences Lib.LittleEndian Lib.Readers

/-- `outOfDepth` is the bound on the recursion of the model of a recursive
reader; such a reader comes with a proof that it does not run into it. -/
inductive ReadError where
  | endOfFile
  | serialisation (message : Bytes)
  | outOfDepth
  deriving DecidableEq

abbrev Source := List Bytes

abbrev Read (Value : Type) := Reader Source ReadError Value

/-- One more than the largest value of `size_t` and of `uint64_t`. -/
def sizeLimit : Nat := 2 ^ 64

/-- `Source::operator ()`, which calls `read` until it has `len` bytes. -/
def readBytes (len : Nat) : Read Bytes := fill ReadError.endOfFile len

def writeNum (number : Nat) : Bytes := encodeLE 8 number

/-- The types `readNum` is used at. -/
inductive IntType where
  | unsignedInt
  | unsignedLong

def IntType.limit : IntType → Nat
  | .unsignedInt => 2 ^ 32
  | .unsignedLong => sizeLimit

def IntType.name : IntType → Bytes
  | .unsignedInt => ascii "j"
  | .unsignedLong => ascii "m"

def readNum (type : IntType) : Read Nat := do
  let buffer ← readBytes 8
  let number := decodeLE buffer
  if type.limit ≤ number then
    throw (.serialisation (ascii "serialised integer " ++ ascii (toString number) ++
      ascii " is too large for type '" ++ type.name ++ ascii "'"))
  else pure number

def readLongLong : Read Nat := readNum .unsignedLong

def paddingSize (len : Nat) : Nat := if len % 8 = 0 then 0 else 8 - len % 8

def writePadding (len : Nat) : Bytes := List.replicate (paddingSize len) 0

def readPadding (len : Nat) : Read Unit := do
  let zero ← readBytes (paddingSize len)
  if zero.all (fun byte => byte = 0) then pure ()
  else throw (.serialisation (ascii "non-zero padding"))

def writeString (data : Bytes) : Bytes :=
  writeNum data.length ++ data ++ writePadding data.length

def readString (max : Nat) : Read Bytes := do
  let len ← readNum .unsignedLong
  if max < len then throw (.serialisation (ascii "string is too long"))
  else do
    let res ← readBytes len
    readPadding len
    pure res

def writeStrings (strings : List Bytes) : Bytes := strings.flatMap writeString

theorem write_num_length (number : Nat) : (writeNum number).length = 8 :=
  encode_le_length 8 number

theorem write_string_size (data : Bytes) : 8 ≤ (writeString data).length := by
  rw [writeString, length_append, length_append, write_num_length]
  omega

theorem write_strings_cons (head : Bytes) (tail : List Bytes) :
    writeStrings (head :: tail) = writeString head ++ writeStrings tail := by
  rw [writeStrings, flatMap_cons, ← writeStrings]

theorem write_strings_append (left right : List Bytes) :
    writeStrings (left ++ right) = writeStrings left ++ writeStrings right := by
  rw [writeStrings, flatMap_append, ← writeStrings, ← writeStrings]

theorem write_strings_nil : writeStrings [] = [] := rfl

theorem read_bytes_reads (bytes : Bytes) :
    Reads List.flatten (readBytes bytes.length) bytes bytes :=
  fill_reads ReadError.endOfFile bytes

theorem reads_num (type : IntType) (number : Nat) (bounded : number < type.limit) :
    Reads List.flatten (readNum type) (writeNum number) number := by
  have buffer := read_bytes_reads (writeNum number)
  apply reads_map buffer
  have fits : number < sizeLimit := by
    cases type with
    | unsignedInt => exact bounded.trans (by decide)
    | unsignedLong => exact bounded
  have decoded : decodeLE (writeNum number) = number := decode_encode_le 8 number fits
  rw [decoded, if_neg (Nat.not_le.mpr bounded)]
  exact reads_pure number

theorem read_padding_reads (len : Nat) :
    Reads List.flatten (readPadding len) (writePadding len) () := by
  have buffer := read_bytes_reads (writePadding len)
  rw [writePadding, length_replicate] at buffer
  apply reads_map buffer
  simp only [all_replicate, decide_true, ite_self]
  exact reads_pure ()

theorem read_string_reads (data : Bytes) (max : Nat) (fits : data.length ≤ max)
    (bounded : data.length < sizeLimit) :
    Reads List.flatten (readString max) (writeString data) data := by
  apply reads_bind (reads_num .unsignedLong data.length bounded)
  rw [if_neg (by omega)]
  apply reads_bind (read_bytes_reads data)
  exact reads_map (read_padding_reads data.length) (reads_pure data)

variable {source final : Source}

theorem read_num_ok {type : IntType} {number : Nat}
    (ran : readNum type source = .ok (number, final)) :
    number < type.limit ∧ source.flatten = writeNum number ++ final.flatten := by
  obtain ⟨buffer, middle, filled, checked⟩ := bind_ok ran
  obtain ⟨size, split⟩ := fill_ok filled
  obtain ⟨small, done⟩ := throw_ite_ok checked
  obtain ⟨rfl, rfl⟩ := pure_ok done
  have encoded := encode_decode_le buffer
  rw [size] at encoded
  exact ⟨by omega, by rw [writeNum, encoded, split]⟩

theorem read_padding_ok {len : Nat} (ran : readPadding len source = .ok ((), final)) :
    source.flatten = writePadding len ++ final.flatten := by
  obtain ⟨zero, middle, filled, checked⟩ := bind_ok ran
  obtain ⟨size, split⟩ := fill_ok filled
  obtain ⟨clean, done⟩ := ite_throw_ok checked
  obtain ⟨_, rfl⟩ := pure_ok done
  have zeros : zero = writePadding len := by
    apply eq_replicate_iff.mpr
    exact ⟨size, by simpa using clean⟩
  rw [split, zeros]

theorem read_string_ok {max : Nat} {data : Bytes} (ran : readString max source = .ok (data, final)) :
    data.length < sizeLimit ∧ source.flatten = writeString data ++ final.flatten := by
  obtain ⟨len, afterLen, lenRead, rest⟩ := bind_ok ran
  obtain ⟨lenBound, lenSplit⟩ := read_num_ok lenRead
  obtain ⟨_, rest⟩ := throw_ite_ok rest
  obtain ⟨res, afterRes, filled, padded⟩ := bind_ok rest
  obtain ⟨size, resSplit⟩ := fill_ok filled
  obtain ⟨_, afterPadding, padRead, done⟩ := bind_ok padded
  obtain ⟨rfl, rfl⟩ := pure_ok done
  have padSplit := read_padding_ok padRead
  constructor
  · rw [size]
    exact lenBound
  · rw [lenSplit, resSplit, padSplit, writeString, size]
    simp

theorem write_string_append_inj {left right leftRest rightRest : Bytes}
    (leftBound : left.length < sizeLimit) (rightBound : right.length < sizeLimit)
    (same : writeString left ++ leftRest = writeString right ++ rightRest) :
    left = right ∧ leftRest = rightRest := by
  have leftReads := read_string_reads left left.length (le_refl _) leftBound
    [writeString left ++ leftRest] leftRest (flatten_singleton)
  have limits : left.length = right.length := by
    have numbers := congrArg (take 8) same
    simp only [writeString, append_assoc] at numbers
    rw [take_append_of_le_length (write_num_length _).ge,
      take_append_of_le_length (write_num_length _).ge,
      take_of_length_le (write_num_length _).le,
      take_of_length_le (write_num_length _).le] at numbers
    have decoded := congrArg decodeLE numbers
    rwa [writeNum, writeNum, decode_encode_le 8 _ leftBound,
      decode_encode_le 8 _ rightBound] at decoded
  have rightReads := read_string_reads right left.length limits.ge rightBound
    [writeString left ++ leftRest] rightRest (by rw [flatten_singleton, same])
  obtain ⟨leftFinal, leftRan, leftRemains⟩ := leftReads
  obtain ⟨rightFinal, rightRan, rightRemains⟩ := rightReads
  rw [leftRan] at rightRan
  obtain ⟨rfl, rfl⟩ := Prod.mk.inj (Except.ok.inj rightRan)
  exact ⟨rfl, leftRemains.symm.trans rightRemains⟩

theorem write_strings_inj {left right : List Bytes}
    (leftBound : ∀ data ∈ left, data.length < sizeLimit)
    (rightBound : ∀ data ∈ right, data.length < sizeLimit)
    (same : writeStrings left = writeStrings right) : left = right := by
  induction left generalizing right with
  | nil =>
    cases right with
    | nil => rfl
    | cons head tail =>
      rw [write_strings_cons, write_strings_nil] at same
      have sizes := congrArg length same
      have positive := write_string_size head
      rw [length_append, length_nil] at sizes
      omega
  | cons first rest ih =>
    cases right with
    | nil =>
      rw [write_strings_cons, write_strings_nil] at same
      have sizes := congrArg length same
      have positive := write_string_size first
      rw [length_append, length_nil] at sizes
      omega
    | cons head tail =>
      obtain ⟨heads, tails⟩ := write_string_append_inj (leftBound first (by simp))
        (rightBound head (by simp)) same
      rw [heads, ih (fun data member => leftBound data (by simp [member]))
        (fun data member => rightBound data (by simp [member])) tails]

end Bsd.Util.Serialise
