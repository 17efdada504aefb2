import Jdbx.Library.JsonGrammar

/-!
# Bytes in hexadecimal

Each byte is written as two digits in lower case, and read back from any two digits.
-/

namespace Jdbx.Library

/-- `sprintf("%02x", byte)` for each of the bytes. -/
def toHex (bytes : Bytes) : Bytes :=
  bytes.flatMap fun byte => [hexDigitByte (byte.toNat / 16), hexDigitByte (byte.toNat % 16)]

def ofHex : Bytes → Option Bytes
  | [] => some []
  | [_] => none
  | high :: low :: digits =>
      if isxdigit high && isxdigit low then
        (ofHex digits).map ((hexValue high * 16 + hexValue low).toUInt8 :: ·)
      else none

theorem hexDigitByte_spec :
    ∀ digit < 16, isxdigit (hexDigitByte digit) = true ∧ hexValue (hexDigitByte digit) = digit := by
  decide

theorem toHex_cons (byte : UInt8) (bytes : Bytes) :
    toHex (byte :: bytes) =
      hexDigitByte (byte.toNat / 16) :: hexDigitByte (byte.toNat % 16) :: toHex bytes :=
  rfl

theorem length_toHex (bytes : Bytes) : (toHex bytes).length = bytes.length * 2 := by
  induction bytes with
  | nil => rfl
  | cons byte bytes ih =>
      rw [toHex_cons, List.length_cons, List.length_cons, ih, List.length_cons]
      omega

theorem toHex_isxdigit (bytes : Bytes) : ∀ digit ∈ toHex bytes, isxdigit digit = true := by
  intro digit member
  obtain ⟨byte, _, written⟩ := List.mem_flatMap.mp member
  have small := byte.toNat_lt
  rcases List.mem_cons.mp written with rfl | second
  · exact (hexDigitByte_spec _ (by omega)).1
  · rw [List.mem_singleton.mp second]
    exact (hexDigitByte_spec _ (by omega)).1

theorem ofHex_toHex (bytes : Bytes) : ofHex (toHex bytes) = some bytes := by
  induction bytes with
  | nil => rfl
  | cons byte bytes ih =>
      have small := byte.toNat_lt
      obtain ⟨highDigit, highValue⟩ := hexDigitByte_spec (byte.toNat / 16) (by omega)
      obtain ⟨lowDigit, lowValue⟩ := hexDigitByte_spec (byte.toNat % 16) (by omega)
      have read : (byte.toNat / 16 * 16 + byte.toNat % 16).toUInt8 = byte := by
        rw [Nat.div_add_mod']
        exact UInt8.ofNat_toNat
      rw [toHex_cons, ofHex, highDigit, lowDigit, highValue, lowValue, read, ih]
      rfl

theorem toHex_injective {first second : Bytes} (same : toHex first = toHex second) :
    first = second := by
  have read := congrArg ofHex same
  rw [ofHex_toHex, ofHex_toHex] at read
  exact Option.some.inj read

end Jdbx.Library
