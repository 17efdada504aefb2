import Jdbx.Library.CString
import Mathlib.Algebra.Field.Rat
import Mathlib.Data.Bool.AllAny

/-!
# The texts of JSON

The grammar of RFC 8259 with the meaning of each text.  A text is a list of bytes in UTF-8.
The meaning of a string is the list of its characters, with its escapes decoded, that of a
number is a rational, and an object is the list of its members in their order.
-/

namespace Jdbx.Library

def utf8 (text : List Char) : Bytes :=
  text.flatMap String.utf8EncodeChar

/-- What a JSON text says. -/
inductive JsonData where
  | null
  | boolean (boolean : Bool)
  | number (number : ℚ)
  | string (string : List Char)
  | array (items : List JsonData)
  | object (members : List (List Char × JsonData))

def digitsValue (digits : Bytes) : Nat :=
  digits.foldl (fun value byte => value * 10 + (byte.toNat - 48)) 0

/-- The parts of a number: the sign, the digits before and behind the point, and the exponent
with its letter, its sign and its digits. -/
structure JsonNumeral where
  negative : Bool
  int : Bytes
  frac : Option Bytes
  exp : Option (UInt8 × Bytes × Bytes)

namespace JsonNumeral

def text (numeral : JsonNumeral) : Bytes :=
  (if numeral.negative then [45] else []) ++ (numeral.int ++
    (numeral.frac.elim [] (fun digits => 46 :: digits) ++
      numeral.exp.elim [] (fun parts => parts.1 :: (parts.2.1 ++ parts.2.2))))

/-- No digit stands in front of the others as a zero, and the point and the letter have
digits behind them. -/
structure WellFormed (numeral : JsonNumeral) : Prop where
  int : numeral.int = [48] ∨
    (numeral.int ≠ [] ∧ numeral.int.head? ≠ some 48 ∧ numeral.int.all isdigit = true)
  frac : ∀ digits ∈ numeral.frac, digits ≠ [] ∧ digits.all isdigit = true
  exp : ∀ parts ∈ numeral.exp, parts.1 ∈ ([101, 69] : Bytes) ∧
    parts.2.1 ∈ ([[], [43], [45]] : List Bytes) ∧ parts.2.2 ≠ [] ∧ parts.2.2.all isdigit = true

def exponent (numeral : JsonNumeral) : ℤ :=
  numeral.exp.elim 0 fun parts =>
    if parts.2.1 = [45] then -(digitsValue parts.2.2 : ℤ) else digitsValue parts.2.2

def value (numeral : JsonNumeral) : ℚ :=
  let frac := numeral.frac.getD []
  let magnitude : ℚ :=
    digitsValue (numeral.int ++ frac) * 10 ^ (numeral.exponent - (frac.length : ℤ))
  if numeral.negative then -magnitude else magnitude

end JsonNumeral

/-- The escapes of two bytes: the byte behind the backslash, and the character that they stand
for. -/
def shortEscapes : List (UInt8 × Nat) :=
  [(34, 34), (92, 92), (47, 47), (98, 8), (102, 12), (110, 10), (114, 13), (116, 9)]

def hexValue (byte : UInt8) : Nat :=
  if isdigit byte then byte.toNat - 48 else (tolower byte).toNat - 87

def FourDigits (digits : Bytes) (value : Nat) : Prop :=
  digits.length = 4 ∧ digits.all isxdigit = true ∧
    value = digits.foldl (fun value byte => value * 16 + hexValue byte) 0

/-- What stands between the quotes of a string, and its characters. -/
inductive StringBody : Bytes → List Char → Prop where
  | nil : StringBody [] []
  | unescaped {letter : Char} {text : Bytes} {letters : List Char} (visible : 32 ≤ letter.toNat)
      (noQuote : letter.toNat ≠ 34) (noBackslash : letter.toNat ≠ 92)
      (rest : StringBody text letters) :
      StringBody (String.utf8EncodeChar letter ++ text) (letter :: letters)
  | short {byte : UInt8} {letter : Char} {text : Bytes} {letters : List Char}
      (listed : (byte, letter.toNat) ∈ shortEscapes) (rest : StringBody text letters) :
      StringBody (92 :: byte :: text) (letter :: letters)
  | unicode {digits text : Bytes} {letter : Char} {letters : List Char}
      (read : FourDigits digits letter.toNat) (rest : StringBody text letters) :
      StringBody (92 :: 117 :: (digits ++ text)) (letter :: letters)
  | surrogates {high low text : Bytes} {highValue lowValue : Nat} {letter : Char}
      {letters : List Char} (readHigh : FourDigits high highValue)
      (readLow : FourDigits low lowValue) (isHigh : 0xD800 ≤ highValue ∧ highValue < 0xDC00)
      (isLow : 0xDC00 ≤ lowValue ∧ lowValue < 0xE000)
      (pair : letter.toNat = 0x10000 + (highValue - 0xD800) * 0x400 + (lowValue - 0xDC00))
      (rest : StringBody text letters) :
      StringBody (92 :: 117 :: (high ++ 92 :: 117 :: (low ++ text))) (letter :: letters)

def IsSpace (text : Bytes) : Prop :=
  ∀ byte ∈ text, byte ∈ ([32, 9, 10, 13] : Bytes)

/-- A value, what stands between the brackets of an array, or between the braces of an
object. -/
inductive JsonNode where
  | value (data : JsonData)
  | elements (items : List JsonData)
  | members (members : List (List Char × JsonData))

/-- The rules of the grammar. -/
inductive JsonDerives : Bytes → JsonNode → Prop where
  | null : JsonDerives (ascii "null") (.value .null)
  | boolean (boolean : Bool) :
      JsonDerives (ascii (if boolean then "true" else "false")) (.value (.boolean boolean))
  | number {numeral : JsonNumeral} (wellFormed : numeral.WellFormed) :
      JsonDerives numeral.text (.value (.number numeral.value))
  | string {body : Bytes} {letters : List Char} (inside : StringBody body letters) :
      JsonDerives (34 :: (body ++ [34])) (.value (.string letters))
  | emptyArray {space : Bytes} (isSpace : IsSpace space) :
      JsonDerives (91 :: (space ++ [93])) (.value (.array []))
  | array {text : Bytes} {items : List JsonData} (inside : JsonDerives text (.elements items)) :
      JsonDerives (91 :: (text ++ [93])) (.value (.array items))
  | emptyObject {space : Bytes} (isSpace : IsSpace space) :
      JsonDerives (123 :: (space ++ [125])) (.value (.object []))
  | object {text : Bytes} {members : List (List Char × JsonData)}
      (inside : JsonDerives text (.members members)) :
      JsonDerives (123 :: (text ++ [125])) (.value (.object members))
  | element {before text after : Bytes} {item : JsonData} (spaceBefore : IsSpace before)
      (spaceAfter : IsSpace after) (value : JsonDerives text (.value item)) :
      JsonDerives (before ++ (text ++ after)) (.elements [item])
  | elements {before text after others : Bytes} {item : JsonData} {items : List JsonData}
      (spaceBefore : IsSpace before) (spaceAfter : IsSpace after)
      (value : JsonDerives text (.value item)) (rest : JsonDerives others (.elements items)) :
      JsonDerives (before ++ (text ++ (after ++ 44 :: others))) (.elements (item :: items))
  | member {before name between space text after : Bytes} {letters : List Char} {item : JsonData}
      (spaceBefore : IsSpace before) (inside : StringBody name letters)
      (spaceBetween : IsSpace between) (spaceBehind : IsSpace space) (spaceAfter : IsSpace after)
      (value : JsonDerives text (.value item)) :
      JsonDerives (before ++ (34 :: (name ++ 34 :: (between ++ 58 :: (space ++ (text ++ after))))))
        (.members [(letters, item)])
  | members {before name between space text after others : Bytes} {letters : List Char}
      {item : JsonData} {members : List (List Char × JsonData)} (spaceBefore : IsSpace before)
      (inside : StringBody name letters) (spaceBetween : IsSpace between)
      (spaceBehind : IsSpace space) (spaceAfter : IsSpace after)
      (value : JsonDerives text (.value item)) (rest : JsonDerives others (.members members)) :
      JsonDerives (before ++ (34 :: (name ++ 34 :: (between ++ 58 ::
          (space ++ (text ++ (after ++ 44 :: others)))))))
        (.members ((letters, item) :: members))

def JsonText (text : Bytes) (data : JsonData) : Prop :=
  ∃ before inner after, IsSpace before ∧ IsSpace after ∧ text = before ++ (inner ++ after) ∧
    JsonDerives inner (.value data)

/-! ## The bytes of a text -/

def IsTextByte (byte : UInt8) : Prop :=
  32 ≤ byte ∨ byte ∈ ([9, 10, 13] : Bytes)

instance : DecidablePred IsTextByte :=
  fun _ => inferInstanceAs (Decidable (_ ∨ _))

variable {text : Bytes}

theorem isTextByte_of_space (space : IsSpace text) :
    ∀ byte ∈ text, IsTextByte byte := by
  intro byte member
  rcases List.mem_cons.mp (space byte member) with same | other
  · rw [same]
    exact Or.inl (by decide)
  · exact Or.inr other

theorem isTextByte_of_digits {digits : Bytes} (all : digits.all isdigit = true) :
    ∀ byte ∈ digits, IsTextByte byte := by
  intro byte member
  have digit := List.all_eq_true.mp all byte member
  simp only [isdigit, Bool.and_eq_true, decide_eq_true_eq] at digit
  exact Or.inl (UInt8.le_trans (by decide) digit.1)

theorem isTextByte_of_xdigits {digits : Bytes} (all : digits.all isxdigit = true) :
    ∀ byte ∈ digits, IsTextByte byte := by
  intro byte member
  have digit := List.all_eq_true.mp all byte member
  simp only [isxdigit, isdigit, Bool.or_eq_true, Bool.and_eq_true, decide_eq_true_eq] at digit
  rcases digit with (digit | upper) | lower
  · exact Or.inl (UInt8.le_trans (by decide) digit.1)
  · exact Or.inl (UInt8.le_trans (by decide) upper.1)
  · exact Or.inl (UInt8.le_trans (by decide) lower.1)

theorem utf8EncodeChar_cases (letter : Char) :
    (letter.toNat < 128 ∧ String.utf8EncodeChar letter = [UInt8.ofNat letter.toNat]) ∨
      (128 ≤ letter.toNat ∧ ∀ byte ∈ String.utf8EncodeChar letter, 128 ≤ byte) := by
  have high : ∀ {number : Nat}, 128 ≤ number → number < 256 → 128 ≤ UInt8.ofNat number := by
    intro number atLeast below
    rw [UInt8.le_iff_toNat_le, UInt8.toNat_ofNat', Nat.mod_eq_of_lt below]
    exact atLeast
  unfold String.utf8EncodeChar
  change _ ∨ 128 ≤ letter.val.toNat ∧ _
  dsimp only
  split_ifs with one two three
  · exact Or.inl ⟨Nat.lt_succ_of_le one, rfl⟩
  · refine Or.inr ⟨by omega, ?_⟩
    intro byte member
    simp only [List.mem_cons, List.not_mem_nil, or_false] at member
    rcases member with same | same <;> rw [same] <;> exact high (by omega) (by omega)
  · refine Or.inr ⟨by omega, ?_⟩
    intro byte member
    simp only [List.mem_cons, List.not_mem_nil, or_false] at member
    rcases member with same | same | same <;> rw [same] <;> exact high (by omega) (by omega)
  · refine Or.inr ⟨by omega, ?_⟩
    intro byte member
    simp only [List.mem_cons, List.not_mem_nil, or_false] at member
    rcases member with same | same | same | same <;> rw [same] <;>
      exact high (by omega) (by omega)

theorem isTextByte_of_visible {letter : Char} (visible : 32 ≤ letter.toNat) :
    ∀ byte ∈ String.utf8EncodeChar letter, IsTextByte byte := by
  intro byte member
  rcases utf8EncodeChar_cases letter with ⟨below, one⟩ | ⟨-, more⟩
  · rw [one, List.mem_singleton] at member
    rw [member]
    left
    rw [UInt8.le_iff_toNat_le, UInt8.toNat_ofNat', Nat.mod_eq_of_lt (by omega)]
    exact visible
  · exact Or.inl (UInt8.le_trans (by decide) (more byte member))

theorem isTextByte_append {first second : Bytes} (firstPlain : ∀ byte ∈ first, IsTextByte byte)
    (secondPlain : ∀ byte ∈ second, IsTextByte byte) :
    ∀ byte ∈ first ++ second, IsTextByte byte := by
  intro byte member
  exact (List.mem_append.mp member).elim (firstPlain byte) (secondPlain byte)

theorem isTextByte_cons {first : UInt8} (firstPlain : 32 ≤ first)
    (plain : ∀ byte ∈ text, IsTextByte byte) : ∀ byte ∈ first :: text, IsTextByte byte := by
  intro byte member
  rcases List.mem_cons.mp member with same | member
  · rw [same]
    exact Or.inl firstPlain
  · exact plain byte member

theorem isTextByte_of_stringBody {body : Bytes} {letters : List Char}
    (inside : StringBody body letters) : ∀ byte ∈ body, IsTextByte byte := by
  induction inside with
  | nil => exact fun _ => nofun
  | unescaped visible _ _ _ plain => exact isTextByte_append (isTextByte_of_visible visible) plain
  | short listed _ plain =>
      have letter : ∀ escape ∈ shortEscapes, 32 ≤ escape.1 :=
        List.all_iff_forall_prop.mp (by decide)
      exact isTextByte_cons (by decide) (isTextByte_cons (letter _ listed) plain)
  | unicode read _ plain =>
      exact isTextByte_cons (by decide) (isTextByte_cons (by decide)
        (isTextByte_append (isTextByte_of_xdigits read.2.1) plain))
  | surrogates readHigh readLow _ _ _ _ plain =>
      exact isTextByte_cons (by decide) (isTextByte_cons (by decide)
        (isTextByte_append (isTextByte_of_xdigits readHigh.2.1)
          (isTextByte_cons (by decide) (isTextByte_cons (by decide)
            (isTextByte_append (isTextByte_of_xdigits readLow.2.1) plain)))))

theorem isTextByte_of_numeral {numeral : JsonNumeral} (wellFormed : numeral.WellFormed) :
    ∀ byte ∈ numeral.text, IsTextByte byte := by
  rw [JsonNumeral.text]
  refine isTextByte_append ?_ (isTextByte_append ?_ (isTextByte_append ?_ ?_))
  · split_ifs
    · exact isTextByte_cons (by decide) nofun
    · exact nofun
  · rcases wellFormed.int with zero | ⟨-, -, digits⟩
    · rw [zero]
      exact isTextByte_cons (by decide) nofun
    · exact isTextByte_of_digits digits
  · cases found : numeral.frac with
    | none => exact nofun
    | some digits =>
        exact isTextByte_cons (by decide) (isTextByte_of_digits (wellFormed.frac digits found).2)
  · cases found : numeral.exp with
    | none => exact nofun
    | some parts =>
        obtain ⟨marker, sign, -, digits⟩ := wellFormed.exp parts found
        have markers : ∀ byte ∈ ([101, 69] : Bytes), 32 ≤ byte :=
          List.all_iff_forall_prop.mp (by decide)
        have signs : ∀ sign ∈ ([[], [43], [45]] : List Bytes),
            (sign.all fun byte => 32 ≤ byte) = true :=
          List.all_iff_forall_prop.mp (by decide)
        refine isTextByte_cons (markers _ marker)
          (isTextByte_append ?_ (isTextByte_of_digits digits))
        exact fun byte member => Or.inl (List.all_iff_forall_prop.mp (signs _ sign) byte member)

theorem isTextByte_of_derives {node : JsonNode} (derives : JsonDerives text node) :
    ∀ byte ∈ text, IsTextByte byte := by
  induction derives with
  | null =>
      have word : ∀ byte ∈ ascii "null", 32 ≤ byte := List.all_iff_forall_prop.mp (by decide)
      exact fun byte member => Or.inl (word byte member)
  | boolean boolean =>
      have words : ∀ boolean : Bool,
          ((ascii (if boolean then "true" else "false")).all fun byte => 32 ≤ byte) = true := by
        decide
      exact fun byte member => Or.inl (List.all_iff_forall_prop.mp (words boolean) byte member)
  | number wellFormed => exact isTextByte_of_numeral wellFormed
  | string inside =>
      exact isTextByte_cons (by decide) (isTextByte_append (isTextByte_of_stringBody inside)
        (isTextByte_cons (by decide) nofun))
  | emptyArray space | emptyObject space =>
      exact isTextByte_cons (by decide) (isTextByte_append (isTextByte_of_space space)
        (isTextByte_cons (by decide) nofun))
  | array _ plain | object _ plain =>
      exact isTextByte_cons (by decide) (isTextByte_append plain
        (isTextByte_cons (by decide) nofun))
  | element before after _ plain =>
      exact isTextByte_append (isTextByte_of_space before)
        (isTextByte_append plain (isTextByte_of_space after))
  | elements before after _ _ plain rest =>
      exact isTextByte_append (isTextByte_of_space before) (isTextByte_append plain
        (isTextByte_append (isTextByte_of_space after) (isTextByte_cons (by decide) rest)))
  | member before inside between behind after _ plain =>
      exact isTextByte_append (isTextByte_of_space before) (isTextByte_cons (by decide)
        (isTextByte_append (isTextByte_of_stringBody inside) (isTextByte_cons (by decide)
          (isTextByte_append (isTextByte_of_space between) (isTextByte_cons (by decide)
            (isTextByte_append (isTextByte_of_space behind)
              (isTextByte_append plain (isTextByte_of_space after))))))))
  | members before inside between behind after _ _ plain rest =>
      exact isTextByte_append (isTextByte_of_space before) (isTextByte_cons (by decide)
        (isTextByte_append (isTextByte_of_stringBody inside) (isTextByte_cons (by decide)
          (isTextByte_append (isTextByte_of_space between) (isTextByte_cons (by decide)
            (isTextByte_append (isTextByte_of_space behind) (isTextByte_append plain
              (isTextByte_append (isTextByte_of_space after)
                (isTextByte_cons (by decide) rest)))))))))

theorem JsonText.isTextByte {data : JsonData} (isText : JsonText text data) :
    ∀ byte ∈ text, IsTextByte byte := by
  obtain ⟨before, inner, after, spaceBefore, spaceAfter, whole, derives⟩ := isText
  rw [whole]
  exact isTextByte_append (isTextByte_of_space spaceBefore)
    (isTextByte_append (isTextByte_of_derives derives) (isTextByte_of_space spaceAfter))

end Jdbx.Library
