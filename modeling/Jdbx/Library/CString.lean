import Mathlib.Data.Nat.Digits.Defs
import Mathlib.Data.List.TakeWhile

/-!
# C strings and decimal numerals

A C string is the list of the bytes before its terminating `NUL`, so the end of
the list is the terminator.  This module holds the character classes of
`ctype.h`, string literals, and the decimal numerals that `printf` writes with
`%lld`, together with the law that reading a numeral back in `int64_t`
arithmetic gives the number it was written from.
-/

namespace Jdbx.Library

abbrev Bytes := List UInt8

instance : LawfulBEq Bytes :=
  inferInstance

def ascii (text : String) : Bytes :=
  text.toList.map fun letter => letter.toNat.toUInt8

/-- The C string found at the start of a memory block: everything before the
first `NUL`. -/
def cString (memory : Bytes) : Bytes :=
  memory.takeWhile (· ≠ 0)

/-- A C string holds no `NUL` before its terminator. -/
def NulFree (text : Bytes) : Prop :=
  (0 : UInt8) ∉ text

instance (text : Bytes) : Decidable (NulFree text) :=
  inferInstanceAs (Decidable ((0 : UInt8) ∉ text))

theorem cString_eq_self {text : Bytes} (nulFree : NulFree text) :
    cString text = text := by
  rw [cString, List.takeWhile_eq_self_iff]
  intro byte member
  have different : byte ≠ 0 := by
    rintro rfl
    exact nulFree member
  simpa using different

theorem nulFree_cString (text : Bytes) : NulFree (cString text) := by
  intro member
  have different := List.mem_takeWhile_imp member
  simp at different

/-- `isspace` of the C locale. -/
def isspace (byte : UInt8) : Bool :=
  byte = 32 || (9 ≤ byte && byte ≤ 13)

/-- `isdigit` of the C locale. -/
def isdigit (byte : UInt8) : Bool :=
  48 ≤ byte && byte ≤ 57

/-- `isxdigit` of the C locale. -/
def isxdigit (byte : UInt8) : Bool :=
  isdigit byte || (65 ≤ byte && byte ≤ 70) || (97 ≤ byte && byte ≤ 102)

/-- `tolower` of the C locale. -/
def tolower (byte : UInt8) : UInt8 :=
  if 65 ≤ byte && byte ≤ 90 then byte + 32 else byte

/-- `strncasecmp(text, word, strlen(word)) == 0`. -/
def startsWithIgnoringCase (word text : Bytes) : Bool :=
  (word.map tolower).isPrefixOf (text.map tolower)

/-! ## Decimal numerals -/

def digitByte (digit : Nat) : UInt8 :=
  (48 + digit).toUInt8

def hexDigitByte (digit : Nat) : UInt8 :=
  UInt8.ofNat (if digit < 10 then 48 + digit else 87 + digit)

def decimal (n : Nat) : Bytes :=
  if n = 0 then [48] else (Nat.digits 10 n).reverse.map digitByte

/-- `printf("%lld", i)`. -/
def formatInt64 (i : Int64) : Bytes :=
  if i.toInt < 0 then 45 :: decimal i.toInt.natAbs
  else decimal i.toInt.natAbs

/-- One more digit of a numeral, accumulated in `int64_t`, which wraps. -/
def pushDigit (value : Int64) (byte : UInt8) : Int64 :=
  value * 10 + Int64.ofNat (byte.toNat - 48)

/-- `atoi`: white space, a sign and digits, clamped to `long` as `strtol` does
and then truncated to `int`. -/
def atoi (text : Bytes) : Int32 :=
  let trimmed := text.dropWhile isspace
  let (negative, digits) : Bool × Bytes :=
    match trimmed with
    | 45 :: rest => (true, rest)
    | 43 :: rest => (false, rest)
    | rest => (false, rest)
  let magnitude : Int :=
    (digits.takeWhile isdigit).foldl (fun value byte => value * 10 + (byte.toNat - 48)) 0
  let clamped := if negative then max (-magnitude) (-2 ^ 63) else min magnitude (2 ^ 63 - 1)
  Int32.ofInt clamped

def atol (text : Bytes) : Int64 :=
  let trimmed := text.dropWhile isspace
  let (negative, digits) : Bool × Bytes :=
    match trimmed with
    | 45 :: rest => (true, rest)
    | 43 :: rest => (false, rest)
    | rest => (false, rest)
  let magnitude : Int :=
    (digits.takeWhile isdigit).foldl (fun value byte => value * 10 + (byte.toNat - 48)) 0
  Int64.ofInt (if negative then max (-magnitude) (-2 ^ 63) else min magnitude (2 ^ 63 - 1))

theorem digitByte_toNat {digit : Nat} (small : digit < 10) :
    (digitByte digit).toNat = 48 + digit := by
  simp only [digitByte, Nat.toUInt8, UInt8.toNat_ofNat']
  omega

theorem isdigit_digitByte {digit : Nat} (small : digit < 10) :
    isdigit (digitByte digit) = true := by
  have value := digitByte_toNat small
  simp only [isdigit, Bool.and_eq_true, decide_eq_true_eq, UInt8.le_iff_toNat_le, value]
  constructor
  · exact Nat.le_add_right 48 digit
  · change 48 + digit ≤ 57
    omega

theorem pushDigit_digitByte (n : Nat) {digit : Nat} (small : digit < 10) :
    pushDigit (Int64.ofNat n) (digitByte digit) = Int64.ofNat (digit + 10 * n) := by
  rw [pushDigit, digitByte_toNat small, Nat.add_sub_cancel_left, Nat.add_comm digit,
    Nat.mul_comm 10 n, Int64.ofNat_add, Int64.ofNat_mul]
  rfl

private theorem foldl_pushDigit :
    ∀ digits : List Nat,
      (∀ digit ∈ digits, digit < 10) →
        (digits.reverse.map digitByte).foldl pushDigit 0 =
          Int64.ofNat (Nat.ofDigits 10 digits)
  | [], _ => by
      simp
  | digit :: digits, small => by
      have tailValue :=
        foldl_pushDigit digits fun other member =>
          small other (List.mem_cons_of_mem digit member)
      rw [List.reverse_cons, List.map_append, List.foldl_append, tailValue,
        Nat.ofDigits_cons]
      exact
        pushDigit_digitByte (Nat.ofDigits 10 digits)
          (small digit List.mem_cons_self)

theorem decimal_isdigit (n : Nat) :
    ∀ byte ∈ decimal n, isdigit byte = true := by
  intro byte member
  by_cases zero : n = 0
  · simp only [decimal, zero, ↓reduceIte, List.mem_singleton] at member
    subst byte
    decide
  · simp only [decimal, zero, ↓reduceIte, List.mem_map, List.mem_reverse] at member
    obtain ⟨digit, digitMember, rfl⟩ := member
    exact isdigit_digitByte (Nat.digits_lt_base (by decide) digitMember)

theorem decimal_ne_nil (n : Nat) : decimal n ≠ [] := by
  by_cases zero : n = 0
  · simp [decimal, zero]
  · simp [decimal, zero, Nat.digits_ne_nil_iff_ne_zero.mpr zero]

theorem mem_formatInt64 {i : Int64} {byte : UInt8} (member : byte ∈ formatInt64 i) :
    byte = 45 ∨ isdigit byte = true := by
  rw [formatInt64] at member
  split_ifs at member
  · rcases List.mem_cons.mp member with minus | digit
    · exact Or.inl minus
    · exact Or.inr (decimal_isdigit _ byte digit)
  · exact Or.inr (decimal_isdigit _ byte member)

theorem not_mem_formatInt64 {byte : UInt8} (different : byte ≠ 45)
    (noDigit : isdigit byte = false) (i : Int64) : byte ∉ formatInt64 i := by
  intro member
  rcases mem_formatInt64 member with minus | digit
  · exact different minus
  · rw [noDigit] at digit
    cases digit

theorem formatInt64_ne_nil (i : Int64) : formatInt64 i ≠ [] := by
  rw [formatInt64]
  split_ifs
  · exact List.cons_ne_nil _ _
  · exact decimal_ne_nil _

theorem foldl_pushDigit_decimal (n : Nat) :
    (decimal n).foldl pushDigit 0 = Int64.ofNat n := by
  by_cases zero : n = 0
  · subst n
    rfl
  · rw [decimal, if_neg zero,
      foldl_pushDigit _ fun digit member => Nat.digits_lt_base (by decide) member,
      Nat.ofDigits_digits]

theorem ofNat_natAbs_of_nonneg (i : Int64) (nonneg : ¬ i.toInt < 0) :
    Int64.ofNat i.toInt.natAbs = i := by
  have value : ((i.toInt.natAbs : Nat) : Int) = i.toInt := by
    omega
  rw [← Int64.ofInt_eq_ofNat, value, Int64.ofInt_toInt]

theorem neg_ofNat_natAbs_of_neg (i : Int64) (negative : i.toInt < 0) :
    -Int64.ofNat i.toInt.natAbs = i := by
  have value : -((i.toInt.natAbs : Nat) : Int) = i.toInt := by
    omega
  rw [← Int64.ofInt_eq_ofNat, ← Int64.ofInt_neg, value, Int64.ofInt_toInt]

end Jdbx.Library
