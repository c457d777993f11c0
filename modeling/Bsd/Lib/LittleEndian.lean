import Bsd.Lib.Occurrences
import Mathlib.Tactic.Ring

/-!
# Little-endian integers
-/

namespace Bsd.Lib.LittleEndian

open Lib.Occurrences

def encodeLE : Nat → Nat → Bytes
  | 0, _ => []
  | width + 1, number => Fin.ofNat 256 number :: encodeLE width (number / 256)

def decodeLE : Bytes → Nat
  | [] => 0
  | byte :: rest => byte.val + 256 * decodeLE rest

theorem encode_le_length (width number : Nat) : (encodeLE width number).length = width := by
  induction width generalizing number with
  | zero => rfl
  | succ width ih => rw [encodeLE, List.length_cons, ih]

theorem decode_encode_le (width number : Nat) (bounded : number < 256 ^ width) :
    decodeLE (encodeLE width number) = number := by
  induction width generalizing number with
  | zero =>
    simp only [encodeLE, decodeLE]
    omega
  | succ width ih =>
    rw [encodeLE, decodeLE, ih (number / 256) (by omega)]
    simp only [Fin.val_ofNat]
    omega

theorem encode_decode_le (bytes : Bytes) : encodeLE bytes.length (decodeLE bytes) = bytes := by
  induction bytes with
  | nil => rfl
  | cons byte rest ih =>
    have quotient : (byte.val + 256 * decodeLE rest) / 256 = decodeLE rest := by omega
    have head : Fin.ofNat 256 (byte.val + 256 * decodeLE rest) = byte := by
      apply Fin.ext
      simp only [Fin.val_ofNat]
      omega
    rw [List.length_cons, decodeLE, encodeLE, quotient, ih, head]

end Bsd.Lib.LittleEndian
