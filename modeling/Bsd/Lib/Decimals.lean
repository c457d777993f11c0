import Bsd.Lib.Occurrences

/-!
# Numbers as texts of digits

The decimal text of a number holds nothing but digits, and its value is the number.
-/

namespace Bsd.Lib.Decimals

open List Lib.Occurrences

def isDigit (byte : Byte) : Bool := 48 ≤ byte.val && byte.val ≤ 57

def digitsValue (base : Nat) (text : Bytes) : Nat :=
  text.foldl (fun value digit => base * value + (digit.val - 48)) 0

def decimal (number : Nat) : Bytes := ascii (toString number)

theorem decimal_eq (number : Nat) : decimal number =
    (Nat.toDigits 10 number).map fun digit => Fin.ofNat 256 digit.toNat := by
  rw [decimal, ascii, Nat.toString_eq_repr, Nat.toList_repr]

theorem digit_character {digit : Char} {number : Nat} (member : digit ∈ Nat.toDigits 10 number) :
    48 ≤ digit.toNat ∧ digit.toNat ≤ 57 := by
  have isDigit := Nat.isDigit_of_mem_toDigits (by decide) (by decide) member
  simpa [Char.isDigit, UInt32.le_iff_toNat_le] using isDigit

theorem decimal_digit {number : Nat} {byte : Byte} (member : byte ∈ decimal number) :
    isDigit byte = true := by
  rw [decimal_eq] at member
  obtain ⟨digit, inside, rfl⟩ := mem_map.mp member
  have bounds := digit_character inside
  simp [isDigit]
  omega

theorem decimal_plain (number : Nat) {byte : Byte} (other : isDigit byte = false) :
    byte ∉ decimal number := by
  intro member
  rw [decimal_digit member] at other
  cases other

theorem decimal_value (number : Nat) : digitsValue 10 (decimal number) = number := by
  rw [digitsValue, decimal_eq, foldl_map]
  refine Eq.trans ?_ (Nat.ofDigitChars_toDigits (by decide) (by decide : 10 ≤ 10))
  apply foldl_ext
  intro value digit member
  have bounds := digit_character member
  have small : digit.toNat % 256 = digit.toNat := Nat.mod_eq_of_lt (by omega)
  simp [small]

end Bsd.Lib.Decimals
