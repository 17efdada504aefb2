import Jdbx.Utils.Json
import Mathlib.Data.Nat.Digits.Lemmas

/-!
# Writing JSON values

`json_stringify`.  Strings are written between quotes with two-byte escapes for
the quote, the backslash and five control characters; every other byte, other
control characters included, is written as it stands.
-/

namespace Jdbx

open Library

/-- What `escape_string` writes for one byte. -/
def escapeByte (byte : UInt8) : Bytes :=
  if byte = 34 then [92, 34]
  else if byte = 92 then [92, 92]
  else if byte = 8 then [92, 98]
  else if byte = 12 then [92, 102]
  else if byte = 10 then [92, 110]
  else if byte = 13 then [92, 114]
  else if byte = 9 then [92, 116]
  else [byte]

/-- The text between the quotes that `escape_string` writes. -/
def escapeText (text : Bytes) : Bytes :=
  text.flatMap escapeByte

def escapeString (text : Bytes) : Bytes :=
  34 :: (escapeText text ++ [34])

section Stringify

variable {δ : Type} [CDouble δ]

mutual

def stringifyValue : JsonValue δ → Bytes
  | .null => ascii "null"
  | .boolean boolean => if boolean then ascii "true" else ascii "false"
  | .number number => CDouble.formatG number
  | .integer integer => formatInt64 integer
  | .string string => escapeString string
  | .array items => 91 :: ([44].intercalate (stringifyItems items) ++ [93])
  | .object entries => 123 :: ([44].intercalate (stringifyEntries entries) ++ [125])
termination_by structural value => value

/-- The texts of the items of an array, between which `stringify_array` puts
commas. -/
def stringifyItems : List (JsonValue δ) → List Bytes
  | [] => []
  | item :: items => stringifyValue item :: stringifyItems items
termination_by structural items => items

/-- The texts of the entries of an object, between which `stringify_object`
puts commas. -/
def stringifyEntries : List (Bytes × JsonValue δ) → List Bytes
  | [] => []
  | (key, value) :: entries =>
      (escapeString key ++ 58 :: stringifyValue value) :: stringifyEntries entries
termination_by structural entries => entries

end

def jsonStringify (value : JsonValue δ) : Bytes :=
  stringifyValue value

def stringifyEntry (entry : Bytes × JsonValue δ) : Bytes :=
  escapeString entry.1 ++ 58 :: stringifyValue entry.2

theorem stringifyItems_eq_map (items : List (JsonValue δ)) :
    stringifyItems items = items.map stringifyValue := by
  induction items with
  | nil => rfl
  | cons item items ih => rw [stringifyItems, ih, List.map_cons]

theorem stringifyEntries_eq_map (entries : List (Bytes × JsonValue δ)) :
    stringifyEntries entries = entries.map stringifyEntry := by
  induction entries with
  | nil => rfl
  | cons entry entries ih =>
      obtain ⟨key, value⟩ := entry
      rw [stringifyEntries, ih, List.map_cons, stringifyEntry]

end Stringify

theorem length_formatInt64_le (i : Int64) : (formatInt64 i).length ≤ 20 := by
  have small : i.toInt.natAbs < 10 ^ 19 := by
    have lower := i.le_toInt
    have upper := i.toInt_lt
    omega
  have digits : (decimal i.toInt.natAbs).length ≤ 19 := by
    rw [decimal]
    split_ifs
    · simp
    · rw [List.length_map, List.length_reverse]
      exact (Nat.digits_length_le_iff (by decide) _).mpr small
  rw [formatInt64]
  split_ifs
  · rw [List.length_cons]
    omega
  · omega

/-! ## Escapes -/

/-- The bytes that `escape_string` writes as two. -/
def isEscaped (byte : UInt8) : Bool :=
  byte = 34 || byte = 92 || byte = 8 || byte = 12 || byte = 10 || byte = 13 || byte = 9

def Plain (text : Bytes) : Prop :=
  ∀ byte ∈ text, isEscaped byte = false

instance : DecidablePred Plain :=
  fun text => List.decidableBAll (fun byte => isEscaped byte = false) text

theorem escapeByte_cases (byte : UInt8) :
    (isEscaped byte = false ∧ escapeByte byte = [byte]) ∨
      (isEscaped byte = true ∧ ∃ letter, letter ≠ 0 ∧ escapeByte byte = [92, letter]) := by
  unfold escapeByte isEscaped
  by_cases quote : byte = 34
  · exact Or.inr ⟨by simp [quote], 34, by decide, by simp [quote]⟩
  by_cases backslash : byte = 92
  · exact Or.inr ⟨by simp [backslash], 92, by decide, by simp [backslash]⟩
  by_cases backspace : byte = 8
  · exact Or.inr ⟨by simp [backspace], 98, by decide, by simp [backspace]⟩
  by_cases formFeed : byte = 12
  · exact Or.inr ⟨by simp [formFeed], 102, by decide, by simp [formFeed]⟩
  by_cases newline : byte = 10
  · exact Or.inr ⟨by simp [newline], 110, by decide, by simp [newline]⟩
  by_cases carriage : byte = 13
  · exact Or.inr ⟨by simp [carriage], 114, by decide, by simp [carriage]⟩
  by_cases tab : byte = 9
  · exact Or.inr ⟨by simp [tab], 116, by decide, by simp [tab]⟩
  exact Or.inl (by simp [quote, backslash, backspace, formFeed, newline, carriage, tab])

theorem escapeText_cons (byte : UInt8) (text : Bytes) :
    escapeText (byte :: text) = escapeByte byte ++ escapeText text :=
  List.flatMap_cons

theorem escapeText_length (text : Bytes) :
    text.length ≤ (escapeText text).length := by
  induction text with
  | nil => simp [escapeText]
  | cons byte text ih =>
      rw [escapeText_cons, List.length_append, List.length_cons]
      rcases escapeByte_cases byte with ⟨_, written⟩ | ⟨_, letter, _, written⟩
      · rw [written, List.length_singleton]
        omega
      · rw [written, List.length_cons, List.length_singleton]
        omega

theorem escapeText_eq_self_iff (text : Bytes) : escapeText text = text ↔ Plain text := by
  induction text with
  | nil => simp [escapeText, Plain]
  | cons byte text ih =>
      have longer := escapeText_length text
      rw [escapeText_cons]
      rcases escapeByte_cases byte with ⟨plain, written⟩ | ⟨escaped, letter, _, written⟩
      · rw [written, List.singleton_append, List.cons.injEq, ih]
        simp [Plain, plain]
      · have notPlain : ¬ Plain (byte :: text) := by
          intro plain
          rw [plain byte List.mem_cons_self] at escaped
          exact Bool.noConfusion escaped
        have notSame : escapeByte byte ++ escapeText text ≠ byte :: text := by
          intro same
          have lengths := congrArg List.length same
          simp only [written, List.length_append, List.length_cons, List.length_nil] at lengths
          omega
        exact ⟨fun same => absurd same notSame, fun plain => absurd plain notPlain⟩

theorem not_mem_escapeString {byte : UInt8} {text : Bytes}
    (noEscape : byte ∉ [34, 92, 98, 102, 110, 114, 116])
    (absent : isEscaped byte = true ∨ byte ∉ text) : byte ∉ escapeString text := by
  have inside : byte ∉ escapeText text := by
    intro member
    obtain ⟨source, sourceMember, member⟩ := List.mem_flatMap.mp member
    rcases escapeByte_cases source with ⟨plain, same⟩ | ⟨escaped, -⟩
    · rw [same, List.mem_singleton] at member
      rcases absent with escaped | absent
      · rw [member, plain] at escaped
        cases escaped
      · exact absent (member ▸ sourceMember)
    · rw [escapeByte] at member
      simp only [isEscaped, Bool.or_eq_true, decide_eq_true_eq] at escaped
      simp only [List.mem_cons, List.not_mem_nil, or_false, not_or] at noEscape
      split_ifs at member <;> simp_all
  simp only [List.mem_cons, List.not_mem_nil, or_false, not_or] at noEscape
  simp [escapeString, inside, noEscape.1]

theorem not_mem_intercalate {byte : UInt8} (notComma : byte ≠ 44) {texts : List Bytes}
    (absent : ∀ text ∈ texts, byte ∉ text) : byte ∉ [44].intercalate texts := by
  induction texts with
  | nil => exact List.not_mem_nil
  | cons text texts ih =>
      have headAbsent := absent text List.mem_cons_self
      have tailAbsent :=
        ih fun other member => absent other (List.mem_cons_of_mem text member)
      cases texts with
      | nil => rwa [List.intercalate_singleton]
      | cons next texts =>
          rw [List.intercalate_cons_cons]
          simp [headAbsent, tailAbsent, notComma]

private def unescapeLetter (letter : UInt8) : UInt8 :=
  if letter = 98 then 8
  else if letter = 102 then 12
  else if letter = 110 then 10
  else if letter = 114 then 13
  else if letter = 116 then 9
  else letter

private def unescapeText : Bytes → Bytes
  | [] => []
  | [byte] => [byte]
  | byte :: letter :: rest =>
      if byte = 92 then unescapeLetter letter :: unescapeText rest
      else byte :: unescapeText (letter :: rest)

private theorem unescapeText_cons {byte : UInt8} (notBackslash : byte ≠ 92) (text : Bytes) :
    unescapeText (byte :: text) = byte :: unescapeText text := by
  cases text with
  | nil => rfl
  | cons letter rest => simp [unescapeText, notBackslash]

private theorem unescapeText_escapeByte (byte : UInt8) (text : Bytes) :
    unescapeText (escapeByte byte ++ text) = byte :: unescapeText text := by
  unfold escapeByte
  split_ifs with quote backslash backspace formFeed newline carriage tab
  iterate 7
    subst byte
    rfl
  exact unescapeText_cons backslash text

theorem escapeText_injective : Function.Injective escapeText := by
  have decodes : ∀ text, unescapeText (escapeText text) = text := by
    intro text
    induction text with
    | nil => rfl
    | cons byte text ih => rw [escapeText_cons, unescapeText_escapeByte, ih]
  exact Function.LeftInverse.injective decodes

end Jdbx
