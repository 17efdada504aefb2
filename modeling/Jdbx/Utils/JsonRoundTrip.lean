import Mathlib.Data.Bool.AllAny
import Mathlib.Data.List.DropRight
import Jdbx.Utils.JsonParse
import Jdbx.Utils.JsonStringify

/-!
# Reading back what was written

`json_parse` inverts the layout that `json_stringify` writes, but
`parse_string` copies the text between the quotes without decoding the escapes
that `escape_string` put there.  What comes back is therefore the value with
every string and key escaped once, and it is the value itself exactly when no
string and no key holds a byte that is escaped.
-/

namespace Jdbx

open Library

/-! ## Measures of a value -/

section Measures

variable {δ : Type} {entries : List (Bytes × JsonValue δ)}

mutual

def nesting : JsonValue δ → Nat
  | .array items => nestingItems items + 1
  | .object entries => nestingEntries entries + 1
  | _ => 0
termination_by structural value => value

def nestingItems : List (JsonValue δ) → Nat
  | [] => 0
  | item :: items => max (nesting item) (nestingItems items)
termination_by structural items => items

def nestingEntries : List (Bytes × JsonValue δ) → Nat
  | [] => 0
  | (_, value) :: entries => max (nesting value) (nestingEntries entries)
termination_by structural entries => entries

end

mutual

def EveryString (property : Bytes → Prop) : JsonValue δ → Prop
  | .string string => property string
  | .array items => EveryStringItems property items
  | .object entries => EveryStringEntries property entries
  | _ => True
termination_by structural value => value

def EveryStringItems (property : Bytes → Prop) : List (JsonValue δ) → Prop
  | [] => True
  | item :: items => EveryString property item ∧ EveryStringItems property items
termination_by structural items => items

def EveryStringEntries (property : Bytes → Prop) : List (Bytes × JsonValue δ) → Prop
  | [] => True
  | (key, value) :: entries =>
    property key ∧ EveryString property value ∧ EveryStringEntries property entries
termination_by structural entries => entries

end

mutual

def decidableEveryString (property : Bytes → Prop) [DecidablePred property] :
    (value : JsonValue δ) → Decidable (EveryString property value)
  | .null | .boolean _ | .number _ | .integer _ => isTrue trivial
  | .string string => inferInstanceAs (Decidable (property string))
  | .array items => decidableEveryStringItems property items
  | .object entries => decidableEveryStringEntries property entries
termination_by structural value => value

def decidableEveryStringItems (property : Bytes → Prop) [DecidablePred property] :
    (items : List (JsonValue δ)) → Decidable (EveryStringItems property items)
  | [] => isTrue trivial
  | item :: items =>
    letI := decidableEveryString property item
    letI := decidableEveryStringItems property items
    inferInstanceAs (Decidable (EveryString property item ∧ EveryStringItems property items))
termination_by structural items => items

def decidableEveryStringEntries (property : Bytes → Prop) [DecidablePred property] :
    (entries : List (Bytes × JsonValue δ)) → Decidable (EveryStringEntries property entries)
  | [] => isTrue trivial
  | (key, value) :: entries =>
    letI := decidableEveryString property value
    letI := decidableEveryStringEntries property entries
    inferInstanceAs
      (Decidable
        (property key ∧ EveryString property value ∧ EveryStringEntries property entries))
termination_by structural entries => entries

end

instance (property : Bytes → Prop) [DecidablePred property] (value : JsonValue δ) :
    Decidable (EveryString property value) :=
  decidableEveryString property value

mutual

def escapeValue : JsonValue δ → JsonValue δ
  | .string string => .string (escapeText string)
  | .array items => .array (escapeItems items)
  | .object entries => .object (escapeEntries entries)
  | other => other
termination_by structural value => value

def escapeItems : List (JsonValue δ) → List (JsonValue δ)
  | [] => []
  | item :: items => escapeValue item :: escapeItems items
termination_by structural items => items

def escapeEntries : List (Bytes × JsonValue δ) → List (Bytes × JsonValue δ)
  | [] => []
  | (key, value) :: entries => (escapeText key, escapeValue value) :: escapeEntries entries
termination_by structural entries => entries

end

theorem escapeItems_eq_map (items : List (JsonValue δ)) :
    escapeItems items = items.map escapeValue := by
  induction items with
  | nil => rfl
  | cons item items ih => rw [escapeItems, ih, List.map_cons]

theorem escapeEntries_eq_map (entries : List (Bytes × JsonValue δ)) :
    escapeEntries entries =
      entries.map fun entry => (escapeText entry.1, escapeValue entry.2) := by
  induction entries with
  | nil => rfl
  | cons entry entries ih =>
    obtain ⟨key, value⟩ := entry
    rw [escapeEntries, ih, List.map_cons]

mutual

theorem escapeValue_eq_self_iff :
    ∀ value : JsonValue δ, escapeValue value = value ↔ EveryString Plain value
  | .null | .boolean _ | .number _ | .integer _ => by
    simp [escapeValue, EveryString]
  | .string string => by
    rw [escapeValue, JsonValue.string.injEq, escapeText_eq_self_iff]
    rfl
  | .array items => by
    rw [escapeValue, JsonValue.array.injEq, escapeItems_eq_self_iff]
    rfl
  | .object entries => by
    rw [escapeValue, JsonValue.object.injEq, escapeEntries_eq_self_iff]
    rfl

theorem escapeItems_eq_self_iff :
    ∀ items : List (JsonValue δ), escapeItems items = items ↔ EveryStringItems Plain items
  | [] => by
    simp [escapeItems, EveryStringItems]
  | item :: items => by
    rw [escapeItems, List.cons.injEq, escapeValue_eq_self_iff, escapeItems_eq_self_iff]
    rfl

theorem escapeEntries_eq_self_iff :
    ∀ entries : List (Bytes × JsonValue δ),
      escapeEntries entries = entries ↔ EveryStringEntries Plain entries
  | [] => by
    simp [escapeEntries, EveryStringEntries]
  | (key, value) :: entries => by
    rw [escapeEntries, List.cons.injEq, Prod.mk.injEq, escapeText_eq_self_iff,
      escapeValue_eq_self_iff, escapeEntries_eq_self_iff, and_assoc]
    rfl

end

mutual

theorem escapeValue_inj : ∀ value other : JsonValue δ,
    escapeValue value = escapeValue other → value = other
  | .null, other | .boolean _, other | .number _, other | .integer _, other
  | .string _, other => by
    cases other <;> simp [escapeValue, escapeText_injective.eq_iff]
  | .array items, other => by
    cases other with
    | array others => simpa [escapeValue] using escapeItems_inj items others
    | _ => simp [escapeValue]
  | .object entries, other => by
    cases other with
    | object others => simpa [escapeValue] using escapeEntries_inj entries others
    | _ => simp [escapeValue]

theorem escapeItems_inj : ∀ items others : List (JsonValue δ),
    escapeItems items = escapeItems others → items = others
  | [], others => by
    cases others <;> simp [escapeItems]
  | item :: items, others => by
    cases others with
    | nil => simp [escapeItems]
    | cons other others =>
      intro same
      obtain ⟨first, rest⟩ := List.cons.inj same
      rw [escapeValue_inj item other first, escapeItems_inj items others rest]

theorem escapeEntries_inj : ∀ entries others : List (Bytes × JsonValue δ),
    escapeEntries entries = escapeEntries others → entries = others
  | [], others => by
    cases others <;> simp [escapeEntries]
  | (key, value) :: entries, others => by
    cases others with
    | nil => simp [escapeEntries]
    | cons other others =>
      intro same
      obtain ⟨first, rest⟩ := List.cons.inj same
      obtain ⟨sameKey, sameValue⟩ := Prod.mk.inj first
      rw [escapeText_injective sameKey, escapeValue_inj value other.2 sameValue,
        escapeEntries_inj entries others rest]

end

theorem nesting_le_nestingEntries {entry : Bytes × JsonValue δ} (member : entry ∈ entries) :
    nesting entry.2 ≤ nestingEntries entries := by
  induction entries with
  | nil => exact absurd member List.not_mem_nil
  | cons head entries ih =>
    obtain ⟨key, value⟩ := head
    rcases List.mem_cons.mp member with rfl | tailMember
    · exact Nat.le_max_left _ _
    · exact Nat.le_trans (ih tailMember) (Nat.le_max_right _ _)

theorem everyStringEntries_iff {property : Bytes → Prop} :
    EveryStringEntries property entries ↔
      ∀ entry ∈ entries, property entry.1 ∧ EveryString property entry.2 := by
  induction entries with
  | nil => simp [EveryStringEntries]
  | cons entry entries ih =>
    obtain ⟨key, value⟩ := entry
    simp [EveryStringEntries, ih, and_assoc]

theorem numberFreeItems_iff {items : List (JsonValue δ)} :
    NumberFreeItems items ↔ ∀ item ∈ items, NumberFree item := by
  induction items with
  | nil => simp [NumberFreeItems]
  | cons item items ih => simp [NumberFreeItems, ih]

theorem numberFreeEntries_iff :
    NumberFreeEntries entries ↔ ∀ entry ∈ entries, NumberFree entry.2 := by
  induction entries with
  | nil => simp [NumberFreeEntries]
  | cons entry entries ih =>
    obtain ⟨key, value⟩ := entry
    simp [NumberFreeEntries, ih]

end Measures

/-! ## Strings and numbers -/

/-- The escaped text of a string is within the limit of `parse_string`. -/
def ShortText (text : Bytes) : Prop :=
  (escapeText text).length ≤ maxJsonStringLength

instance : DecidablePred ShortText :=
  fun text => inferInstanceAs (Decidable ((escapeText text).length ≤ maxJsonStringLength))

theorem scanString_quote (charCount : Nat) (rest : Bytes) :
    scanString charCount (34 :: rest) = some ([], rest) := by
  cases rest <;> simp [scanString]

theorem scanString_pair {charCount : Nat} (below : charCount < maxJsonStringLength)
    (next : UInt8) (rest : Bytes) :
    scanString charCount (92 :: next :: rest) =
      (scanString (charCount + 2) rest).map fun scanned =>
        (92 :: next :: scanned.1, scanned.2) := by
  rw [scanString, if_neg (by decide), if_neg (Nat.not_le.mpr below), if_pos rfl]

theorem scanString_plain {charCount : Nat} (below : charCount < maxJsonStringLength)
    {byte : UInt8} (plain : isEscaped byte = false) (rest : Bytes) :
    scanString charCount (byte :: rest) =
      (scanString (charCount + 1) rest).map fun scanned =>
        (byte :: scanned.1, scanned.2) := by
  have notQuote : byte ≠ 34 := by
    rintro rfl
    exact absurd plain (by decide)
  have notBackslash : byte ≠ 92 := by
    rintro rfl
    exact absurd plain (by decide)
  cases rest <;> simp [scanString, notQuote, notBackslash, Nat.not_le.mpr below]

theorem scanString_escapeText (text rest : Bytes) :
    ∀ charCount, charCount + (escapeText text).length ≤ maxJsonStringLength →
      scanString charCount (escapeText text ++ 34 :: rest) = some (escapeText text, rest) := by
  induction text with
  | nil =>
    intro charCount _
    exact scanString_quote charCount rest
  | cons byte text ih =>
    intro charCount short
    rw [escapeText_cons] at short ⊢
    rcases escapeByte_cases byte with ⟨plain, written⟩ | ⟨_, letter, _, written⟩
    · rw [written, List.length_append, List.length_singleton] at short
      have tailScan := ih (charCount + 1) (by omega)
      rw [written, List.singleton_append, List.cons_append,
        scanString_plain (by omega) plain, tailScan]
      rfl
    · rw [written, List.length_append, List.length_cons, List.length_singleton] at short
      have tailScan := ih (charCount + 2) (by omega)
      have layout :
          [92, letter] ++ escapeText text ++ 34 :: rest =
            92 :: letter :: (escapeText text ++ 34 :: rest) := rfl
      rw [written, layout, scanString_pair (by omega), tailScan]
      rfl

theorem parseString_escapeString {text : Bytes} (short : ShortText text) (rest : Bytes) :
    parseString (escapeString text ++ rest) = some (escapeText text, rest) := by
  have layout : escapeString text ++ rest = 34 :: (escapeText text ++ 34 :: rest) := by
    simp [escapeString]
  have scanned :=
    scanString_escapeText text rest 0 (by rw [Nat.zero_add]; exact short)
  rw [layout, parseString, scanned]
  simp only
  rw [if_neg (Nat.not_lt.mpr short)]

def EndsNumber (rest : Bytes) : Prop :=
  ∀ byte ∈ rest.head?, isdigit byte = false ∧ byte ≠ 46 ∧ byte ≠ 101 ∧ byte ≠ 69

variable {rest : Bytes} {δ : Type}

theorem takeWhile_decimal (ends : EndsNumber rest) (n : Nat) :
    (decimal n ++ rest).takeWhile isdigit = decimal n := by
  have restEmpty : rest.takeWhile isdigit = [] := by
    cases rest with
    | nil => rfl
    | cons byte after => exact List.takeWhile_cons_of_neg (by simp [(ends byte (by simp)).1])
  rw [List.takeWhile_append_of_pos (decimal_isdigit n), restEmpty, List.append_nil]

theorem dropWhile_decimal (ends : EndsNumber rest) (n : Nat) :
    (decimal n ++ rest).dropWhile isdigit = rest := by
  have split := List.takeWhile_append_dropWhile (p := isdigit) (l := decimal n ++ rest)
  rw [takeWhile_decimal ends] at split
  exact List.append_cancel_left split

theorem parseExponent_of_endsNumber [CDouble δ] (floatValue : δ) (isFloat : Bool)
    (ends : EndsNumber rest) :
    parseExponent floatValue isFloat rest = (floatValue, isFloat, rest) := by
  cases rest with
  | nil => rfl
  | cons byte after =>
    obtain ⟨_, _, notLower, notUpper⟩ := ends byte (by simp)
    simp [parseExponent, notLower, notUpper]

theorem parseFraction_of_endsNumber [CDouble δ] (floatValue : δ) (ends : EndsNumber rest) :
    parseFraction floatValue rest = (floatValue, false, rest) := by
  unfold parseFraction
  split
  · exact absurd rfl (ends 46 (by simp)).2.1
  · rfl

theorem parseSign_decimal (n : Nat) (rest : Bytes) :
    parseSign (decimal n ++ rest) = (false, decimal n ++ rest) := by
  unfold parseSign
  split
  · rename_i tail equal
    cases digits : decimal n with
    | nil => exact absurd digits (decimal_ne_nil n)
    | cons digit others =>
      rw [digits, List.cons_append, List.cons.injEq] at equal
      have isDigit := decimal_isdigit n digit (by rw [digits]; exact List.mem_cons_self)
      rw [equal.1] at isDigit
      exact absurd isDigit (by decide)
  · rfl

private theorem parseNumber_decimal [CDouble δ] (n : Nat) {rest text : Bytes} {negative : Bool}
    (ends : EndsNumber rest) (sign : parseSign text = (negative, decimal n ++ rest)) :
    (parseNumber text : JsonValue δ × Bytes) =
      (.integer (if negative then -Int64.ofNat n else Int64.ofNat n), rest) := by
  simp only [parseNumber, sign, takeWhile_decimal ends, dropWhile_decimal ends,
    parseFraction_of_endsNumber _ ends, parseExponent_of_endsNumber _ _ ends,
    foldl_pushDigit_decimal]
  rfl

theorem parseNumber_formatInt64 [CDouble δ] (i : Int64) (ends : EndsNumber rest) :
    (parseNumber (formatInt64 i ++ rest) : JsonValue δ × Bytes) = (.integer i, rest) := by
  by_cases sign : i.toInt < 0
  · have minus : parseSign (formatInt64 i ++ rest) = (true, decimal i.toInt.natAbs ++ rest) := by
      rw [formatInt64, if_pos sign]
      rfl
    rw [parseNumber_decimal i.toInt.natAbs ends minus, if_pos rfl,
      neg_ofNat_natAbs_of_neg i sign]
  · have noMinus :
        parseSign (formatInt64 i ++ rest) = (false, decimal i.toInt.natAbs ++ rest) := by
      rw [formatInt64, if_neg sign]
      exact parseSign_decimal i.toInt.natAbs rest
    rw [parseNumber_decimal i.toInt.natAbs ends noMinus, if_neg Bool.false_ne_true,
      ofNat_natAbs_of_nonneg i sign]

/-! ## Values -/

theorem objectOfMembers_eq_self {members : List (Bytes × JsonValue δ)}
    (distinct : (entryKeys members).Nodup) : objectOfMembers members = members :=
  foldl_setEntry_of_nodup members [] distinct

theorem entryKeys_escapeEntries (entries : List (Bytes × JsonValue δ)) :
    entryKeys (escapeEntries entries) = (entryKeys entries).map escapeText := by
  rw [escapeEntries_eq_map]
  simp [entryKeys]

section RoundTrip

variable {δ : Type} [CDouble δ] {byte : UInt8} {text : Bytes} {value : JsonValue δ}
  {texts : List Bytes} {entries : List (Bytes × JsonValue δ)}

theorem skipWhitespace_cons (visible : isspace byte = false) (text : Bytes) :
    skipWhitespace (byte :: text) = byte :: text :=
  List.dropWhile_cons_of_neg (by simp [visible])

theorem parseValueWithDepth_skipWhitespace (levels : Nat) (text : Bytes) :
    (parseValueWithDepth levels (skipWhitespace text) : Option (JsonValue δ × Bytes)) =
      parseValueWithDepth levels text := by
  have idempotent : skipWhitespace (skipWhitespace text) = skipWhitespace text :=
    List.dropWhile_idempotent isspace text
  cases levels with
  | zero => rfl
  | succ levels => rw [parseValueWithDepth, parseValueWithDepth, idempotent]

theorem parseValueWithDepth_scalar (visible : isspace byte = false) (notBrace : byte ≠ 123)
    (notBracket : byte ≠ 91) (levels : Nat) (text : Bytes) :
    (parseValueWithDepth (levels + 1) (byte :: text) : Option (JsonValue δ × Bytes)) =
      parseScalar (byte :: text) := by
  rw [parseValueWithDepth, skipWhitespace_cons visible]
  split
  · rename_i tail equal
    exact absurd (List.cons.inj equal).1 notBrace
  · rename_i tail equal
    exact absurd (List.cons.inj equal).1 notBracket
  · rfl

private theorem formatInt64_head (i : Int64) :
    ∃ byte text, formatInt64 i = byte :: text ∧ (isdigit byte = true ∨ byte = 45) := by
  by_cases sign : i.toInt < 0
  · exact ⟨45, decimal i.toInt.natAbs, by rw [formatInt64, if_pos sign], Or.inr rfl⟩
  · cases digits : decimal i.toInt.natAbs with
    | nil => exact absurd digits (decimal_ne_nil _)
    | cons digit others =>
      have isDigit : isdigit digit = true :=
        decimal_isdigit _ digit (by rw [digits]; exact List.mem_cons_self)
      exact ⟨digit, others, by rw [formatInt64, if_neg sign, digits], Or.inl isDigit⟩

theorem numeral_head (numeral : isdigit byte = true ∨ byte = 45) :
    isspace byte = false ∧ 45 ≤ byte ∧ byte ≤ 57 := by
  rcases numeral with digit | rfl
  · simp only [isdigit, Bool.and_eq_true, decide_eq_true_eq] at digit
    refine ⟨?_, UInt8.le_trans (by decide) digit.1, digit.2⟩
    simp only [isspace]
    grind
  · decide

theorem parseValueWithDepth_numeral (numeral : isdigit byte = true ∨ byte = 45) (levels : Nat)
    (text : Bytes) :
    (parseValueWithDepth (levels + 1) (byte :: text) : Option (JsonValue δ × Bytes)) =
      some (parseNumber (byte :: text)) := by
  obtain ⟨visible, lower, upper⟩ := numeral_head numeral
  have accepted : (isdigit byte || decide (byte = 45)) = true := by
    rcases numeral with digit | rfl
    · rw [digit, Bool.true_or]
    · rfl
  have notQuote : byte ≠ 34 := by
    grind
  have notTrue : (ascii "true").isPrefixOf (byte :: text) = false := by
    simp [ascii, List.isPrefixOf]
    grind
  have notFalse : (ascii "false").isPrefixOf (byte :: text) = false := by
    simp [ascii, List.isPrefixOf]
    grind
  have notNull : (ascii "null").isPrefixOf (byte :: text) = false := by
    simp [ascii, List.isPrefixOf]
    grind
  rw [parseValueWithDepth_scalar visible (by grind) (by grind)]
  simp only [parseScalar, notQuote, notTrue, notFalse, notNull, accepted, ↓reduceIte,
    Bool.false_eq_true]

theorem parseValueWithDepth_integer (levels : Nat) (i : Int64) {rest : Bytes}
    (ends : EndsNumber rest) :
    (parseValueWithDepth (levels + 1) (formatInt64 i ++ rest) : Option (JsonValue δ × Bytes)) =
      some (.integer i, rest) := by
  have read := parseNumber_formatInt64 (δ := δ) i ends
  obtain ⟨byte, text, layout, digit⟩ := formatInt64_head i
  rw [layout, List.cons_append] at read ⊢
  rw [parseValueWithDepth_numeral digit, read]

private theorem parseValueWithDepth_string (levels : Nat) (short : ShortText text) (rest : Bytes) :
    (parseValueWithDepth (levels + 1) (escapeString text ++ rest) :
        Option (JsonValue δ × Bytes)) =
      some (.string (escapeText text), rest) := by
  have read := parseString_escapeString short rest
  have layout : escapeString text ++ rest = 34 :: (escapeText text ++ 34 :: rest) := by
    simp [escapeString]
  rw [layout] at read ⊢
  rw [parseValueWithDepth_scalar (by decide) (by decide) (by decide), parseScalar, if_pos rfl,
    read]
  rfl

theorem endsNumber_delimiter (delimiter : byte ∈ [44, 93, 125]) (rest : Bytes) :
    EndsNumber (byte :: rest) := by
  intro other member
  obtain rfl : byte = other := by
    simpa using member
  simp only [List.mem_cons, List.not_mem_nil, or_false] at delimiter
  rcases delimiter with rfl | rfl | rfl <;> decide

theorem stringifyValue_head (numberFree : NumberFree value) :
    ∃ byte text, stringifyValue value = byte :: text ∧ isspace byte = false ∧ byte ≠ 93 := by
  cases value with
  | null => exact ⟨110, _, rfl, by decide, by decide⟩
  | boolean boolean =>
    cases boolean
    · exact ⟨102, _, rfl, by decide, by decide⟩
    · exact ⟨116, _, rfl, by decide, by decide⟩
  | number number => exact numberFree.elim
  | integer integer =>
    obtain ⟨byte, text, layout, digit⟩ := formatInt64_head integer
    obtain ⟨visible, lower, upper⟩ := numeral_head digit
    exact ⟨byte, text, layout, visible, by grind⟩
  | string string => exact ⟨34, _, rfl, by decide, by decide⟩
  | array items => exact ⟨91, _, rfl, by decide, by decide⟩
  | object entries => exact ⟨123, _, rfl, by decide, by decide⟩

theorem intercalate_head (rest : Bytes) :
    ∃ after, [44].intercalate ((byte :: text) :: texts) ++ rest = byte :: after := by
  rw [List.intercalate_cons_cons_left]
  exact ⟨_, rfl⟩

theorem parseArrayWithDepth_cons (visible : isspace byte = false) (notClose : byte ≠ 93)
    (levels : Nat) (text : Bytes) :
    (parseArrayWithDepth (levels + 1) (byte :: text) : Option (JsonValue δ × Bytes)) =
      (parseDelimited (parseValueWithDepth levels) skipWhitespace 44 93
        ((byte :: text).length + 1) (byte :: text)).map fun parsed =>
          (.array parsed.1, parsed.2) := by
  rw [parseArrayWithDepth, skipWhitespace_cons visible]
  split
  · rename_i tail equal
    exact absurd (List.cons.inj equal).1 notClose
  · rfl

theorem parseObjectWithDepth_cons (visible : isspace byte = false) (notClose : byte ≠ 125)
    (levels : Nat) (text : Bytes) :
    (parseObjectWithDepth (levels + 1) (byte :: text) : Option (JsonValue δ × Bytes)) =
      (parseDelimited (parseMember (parseValueWithDepth levels)) skipWhitespace 44 125
        ((byte :: text).length + 1) (byte :: text)).map fun parsed =>
          (.object (objectOfMembers parsed.1), parsed.2) := by
  rw [parseObjectWithDepth, skipWhitespace_cons visible]
  split
  · rename_i tail equal
    exact absurd (List.cons.inj equal).1 notClose
  · rfl

theorem length_le_text {β : Type} (print : β → Bytes) (values : List β) (rest : Bytes) :
    values.length ≤ ([44].intercalate (values.map print) ++ rest).length + 1 := by
  have counted := length_le_intercalate (44 : UInt8) (values.map print)
  rw [List.length_map] at counted
  rw [List.length_append]
  omega

private theorem parseArrayWithDepth_items {levels : Nat} {items : List (JsonValue δ)}
    (numberFree : NumberFreeItems items)
    (inverse : ∀ item ∈ items, ∀ after, EndsNumber after →
      parseValueWithDepth levels (stringifyValue item ++ after) =
        some (escapeValue item, after))
    (rest : Bytes) :
    parseArrayWithDepth (levels + 1)
        ([44].intercalate (stringifyItems items) ++ 93 :: rest) =
      some (.array (escapeItems items), rest) := by
  cases items with
  | nil => rfl
  | cons item items =>
    obtain ⟨byte, text, layout, visible, notClose⟩ := stringifyValue_head numberFree.1
    obtain ⟨after, first⟩ :
        ∃ after, [44].intercalate ((item :: items).map stringifyValue) ++ 93 :: rest =
          byte :: after := by
      rw [List.map_cons, layout]
      exact intercalate_head _
    have loop :
        parseDelimited (parseValueWithDepth levels) skipWhitespace 44 93
            ((byte :: after).length + 1) (byte :: after) =
          some ((item :: items).map escapeValue, rest) := by
      rw [← first]
      refine parseDelimited_intercalate _ _ _ _ stringifyValue escapeValue EndsNumber
        (by decide) (endsNumber_delimiter (by decide)) (endsNumber_delimiter (by decide))
        (skipWhitespace_cons (by decide)) (skipWhitespace_cons (by decide)) rest
        (item :: items) _ (List.cons_ne_nil item items) (length_le_text _ _ _) ?_
      intro other member after ends
      rw [parseValueWithDepth_skipWhitespace]
      exact inverse other member after ends
    rw [stringifyItems_eq_map, first, parseArrayWithDepth_cons visible notClose, loop,
      escapeItems_eq_map]
    rfl

private theorem parseMember_stringifyEntry {levels : Nat} {entry : Bytes × JsonValue δ}
    (short : ShortText entry.1) {after : Bytes}
    (inverse : parseValueWithDepth levels (stringifyValue entry.2 ++ after) =
      some (escapeValue entry.2, after)) :
    parseMember (parseValueWithDepth levels) (skipWhitespace (stringifyEntry entry ++ after)) =
      some ((escapeText entry.1, escapeValue entry.2), after) := by
  have visible :
      skipWhitespace (stringifyEntry entry ++ after) =
        escapeString entry.1 ++ 58 :: (stringifyValue entry.2 ++ after) := by
    rw [stringifyEntry, List.append_assoc, List.cons_append]
    exact skipWhitespace_cons (by decide) _
  rw [visible, parseMember, parseString_escapeString short]
  simp only [skipWhitespace_cons (show isspace 58 = false by decide),
    parseValueWithDepth_skipWhitespace, inverse]
  rfl

private theorem parseObjectWithDepth_entries {levels : Nat} (distinct : (entryKeys entries).Nodup)
    (inverse : ∀ entry ∈ entries, ShortText entry.1 ∧ ∀ after, EndsNumber after →
      parseValueWithDepth levels (stringifyValue entry.2 ++ after) =
        some (escapeValue entry.2, after)) (rest : Bytes) :
    parseObjectWithDepth (levels + 1)
        ([44].intercalate (stringifyEntries entries) ++ 125 :: rest) =
      some (.object (escapeEntries entries), rest) := by
  cases entries with
  | nil => rfl
  | cons entry entries =>
    obtain ⟨after, first⟩ :
        ∃ after, [44].intercalate ((entry :: entries).map stringifyEntry) ++ 125 :: rest =
          34 :: after :=
      intercalate_head _
    have loop :
        parseDelimited (parseMember (parseValueWithDepth levels)) skipWhitespace 44 125
            (((34 : UInt8) :: after).length + 1) (34 :: after) =
          some (escapeEntries (entry :: entries), rest) := by
      rw [← first, escapeEntries_eq_map]
      refine parseDelimited_intercalate _ _ _ _ stringifyEntry _ EndsNumber
        (by decide) (endsNumber_delimiter (by decide)) (endsNumber_delimiter (by decide))
        (skipWhitespace_cons (by decide)) (skipWhitespace_cons (by decide)) rest
        (entry :: entries) _ (List.cons_ne_nil entry entries) (length_le_text _ _ _) ?_
      intro other member after ends
      obtain ⟨short, readBack⟩ := inverse other member
      exact parseMember_stringifyEntry short (readBack after ends)
    have keys : (entryKeys (escapeEntries (entry :: entries))).Nodup := by
      rw [entryKeys_escapeEntries]
      exact distinct.map escapeText_injective
    rw [stringifyEntries_eq_map, first,
      parseObjectWithDepth_cons (by decide) (by decide), loop]
    simp only [Option.map_some, objectOfMembers_eq_self keys]

mutual

theorem parseValueWithDepth_stringifyValue :
    ∀ value : JsonValue δ, WellFormed value → NumberFree value →
      EveryString ShortText value → ∀ (levels : Nat) (rest : Bytes),
        2 * nesting value + 1 ≤ levels → EndsNumber rest →
          parseValueWithDepth levels (stringifyValue value ++ rest) =
            some (escapeValue value, rest)
  | .null, _, _, _, levels + 1, _, _, _ => rfl
  | .boolean boolean, _, _, _, levels + 1, _, _, _ => by
    cases boolean <;> rfl
  | .integer integer, _, _, _, levels + 1, _, _, ends =>
    parseValueWithDepth_integer levels integer ends
  | .string _, _, _, short, levels + 1, rest, _, _ => parseValueWithDepth_string levels short rest
  | .array items, wellFormed, numberFree, short, levels, rest, deep, _ => by
    obtain ⟨levels, rfl⟩ : ∃ fewer, levels = fewer + 2 := by
      rw [nesting] at deep
      exact ⟨levels - 2, by omega⟩
    have inner : 2 * nestingItems items + 1 ≤ levels := by
      rw [nesting] at deep
      omega
    have inverse :=
      parseItems_stringifyItems items wellFormed numberFree short levels inner
    have layout :
        stringifyValue (.array items) ++ rest =
          91 :: ([44].intercalate (stringifyItems items) ++ 93 :: rest) := by
      simp [stringifyValue]
    rw [layout, parseValueWithDepth, skipWhitespace_cons (by decide)]
    exact parseArrayWithDepth_items numberFree inverse rest
  | .object entries, wellFormed, numberFree, short, levels, rest, deep, _ => by
    obtain ⟨levels, rfl⟩ : ∃ fewer, levels = fewer + 2 := by
      rw [nesting] at deep
      exact ⟨levels - 2, by omega⟩
    have inner : 2 * nestingEntries entries + 1 ≤ levels := by
      rw [nesting] at deep
      omega
    have inverse :=
      parseEntries_stringifyEntries entries wellFormed.2 numberFree short levels inner
    have layout :
        stringifyValue (.object entries) ++ rest =
          123 :: ([44].intercalate (stringifyEntries entries) ++ 125 :: rest) := by
      simp [stringifyValue]
    rw [layout, parseValueWithDepth, skipWhitespace_cons (by decide)]
    exact parseObjectWithDepth_entries wellFormed.1 inverse rest

theorem parseItems_stringifyItems :
    ∀ items : List (JsonValue δ), WellFormedItems items → NumberFreeItems items →
      EveryStringItems ShortText items → ∀ levels, 2 * nestingItems items + 1 ≤ levels →
        ∀ item ∈ items, ∀ after, EndsNumber after →
          parseValueWithDepth levels (stringifyValue item ++ after) =
            some (escapeValue item, after)
  | [], _, _, _, _, _ => by
    intro item member
    exact absurd member List.not_mem_nil
  | head :: items, wellFormed, numberFree, short, levels, deep => by
    rw [nestingItems] at deep
    intro item member after ends
    rcases List.mem_cons.mp member with same | tailMember
    · rw [same]
      exact parseValueWithDepth_stringifyValue head wellFormed.1 numberFree.1 short.1
        levels after (by omega) ends
    · exact parseItems_stringifyItems items wellFormed.2 numberFree.2 short.2 levels
        (by omega) item tailMember after ends

theorem parseEntries_stringifyEntries :
    ∀ entries : List (Bytes × JsonValue δ), WellFormedEntries entries →
      NumberFreeEntries entries → EveryStringEntries ShortText entries →
      ∀ levels, 2 * nestingEntries entries + 1 ≤ levels →
        ∀ entry ∈ entries, ShortText entry.1 ∧ ∀ after, EndsNumber after →
          parseValueWithDepth levels (stringifyValue entry.2 ++ after) =
            some (escapeValue entry.2, after)
  | [], _, _, _, _, _ => by
    intro entry member
    exact absurd member List.not_mem_nil
  | (key, value) :: entries, wellFormed, numberFree, short, levels, deep => by
    rw [nestingEntries] at deep
    intro entry member
    rcases List.mem_cons.mp member with same | tailMember
    · rw [same]
      exact ⟨short.1, fun after ends =>
        parseValueWithDepth_stringifyValue value wellFormed.2.1 numberFree.1 short.2.1
          levels after (by omega) ends⟩
    · exact parseEntries_stringifyEntries entries wellFormed.2.2 numberFree.2 short.2.2
        levels (by omega) entry tailMember

end

/-! ## The brace scan accepts what was written -/

/-- Scanned from outside a string, the text closes every brace and bracket it
opens and ends outside a string. -/
def Balanced (text : Bytes) : Prop :=
  ∀ scan : BraceScan, scan.inString = false → scan.escaped = false →
    ∃ braces brackets,
      text.foldl BraceScan.step scan =
        { scan with
          openBraces := scan.openBraces + braces
          closeBraces := scan.closeBraces + braces
          openBrackets := scan.openBrackets + brackets
          closeBrackets := scan.closeBrackets + brackets }

omit [CDouble δ] in
theorem balanced_nil : Balanced [] :=
  fun _ _ _ => ⟨0, 0, rfl⟩

theorem balanced_append {first second : Bytes} (balanced : Balanced first)
    (balancedRest : Balanced second) : Balanced (first ++ second) := by
  intro scan outside unescaped
  obtain ⟨braces, brackets, firstScan⟩ := balanced scan outside unescaped
  obtain ⟨moreBraces, moreBrackets, secondScan⟩ :=
    balancedRest (first.foldl BraceScan.step scan) (by rw [firstScan, outside])
      (by rw [firstScan, unescaped])
  refine ⟨braces + moreBraces, brackets + moreBrackets, ?_⟩
  rw [List.foldl_append, secondScan, firstScan]
  simp only [Nat.add_assoc]

theorem balanced_singleton (neutral : byte ≠ 123 ∧ byte ≠ 125 ∧ byte ≠ 91 ∧ byte ≠ 93 ∧ byte ≠ 34) :
    Balanced [byte] := by
  intro scan outside _
  obtain ⟨notOpen, notClose, notOpenBracket, notCloseBracket, notQuote⟩ := neutral
  have sameScan : BraceScan.step scan byte = scan := by
    simp [BraceScan.step, outside, notOpen, notClose, notOpenBracket, notCloseBracket, notQuote]
  exact ⟨0, 0, sameScan⟩

theorem balanced_of_neutral
    (neutral : ∀ byte ∈ text,
      byte ≠ 123 ∧ byte ≠ 125 ∧ byte ≠ 91 ∧ byte ≠ 93 ∧ byte ≠ 34) :
    Balanced text := by
  induction text with
  | nil => exact balanced_nil
  | cons byte text ih =>
    have tailBalanced : Balanced text :=
      ih fun other member =>
        neutral other (List.mem_cons_of_mem byte member)
    exact balanced_append (balanced_singleton (neutral byte List.mem_cons_self)) tailBalanced

theorem balanced_braces (balanced : Balanced text) :
    Balanced (123 :: (text ++ [125])) := by
  intro scan outside unescaped
  obtain ⟨braces, brackets, inner⟩ :=
    balanced { scan with openBraces := scan.openBraces + 1 } outside unescaped
  refine ⟨braces + 1, brackets, ?_⟩
  have opened :
      BraceScan.step scan 123 = { scan with openBraces := scan.openBraces + 1 } := by
    simp [BraceScan.step, outside]
  rw [List.foldl_cons, opened, List.foldl_append, inner]
  simp [BraceScan.step, outside, Nat.add_assoc, Nat.add_comm, Nat.add_left_comm]

theorem balanced_brackets (balanced : Balanced text) :
    Balanced (91 :: (text ++ [93])) := by
  intro scan outside unescaped
  obtain ⟨braces, brackets, inner⟩ :=
    balanced { scan with openBrackets := scan.openBrackets + 1 } outside unescaped
  refine ⟨braces, brackets + 1, ?_⟩
  have opened :
      BraceScan.step scan 91 = { scan with openBrackets := scan.openBrackets + 1 } := by
    simp [BraceScan.step, outside]
  rw [List.foldl_cons, opened, List.foldl_append, inner]
  simp [BraceScan.step, outside, Nat.add_assoc, Nat.add_comm, Nat.add_left_comm]

private theorem scan_escapeText (text : Bytes) {scan : BraceScan}
    (inside : scan.inString = true) (unescaped : scan.escaped = false) :
    (escapeText text).foldl BraceScan.step scan = scan := by
  induction text with
  | nil => rfl
  | cons byte text ih =>
    have sameScan : (escapeByte byte).foldl BraceScan.step scan = scan := by
      rcases escapeByte_cases byte with ⟨plain, written⟩ | ⟨_, letter, _, written⟩
      · have notBackslash : byte ≠ 92 := by
          rintro rfl
          exact absurd plain (by decide)
        have notQuote : byte ≠ 34 := by
          rintro rfl
          exact absurd plain (by decide)
        rw [written]
        simp [BraceScan.step, inside, unescaped, notBackslash, notQuote]
      · rw [written]
        cases scan
        simp only at inside unescaped
        subst inside unescaped
        rfl
    rw [escapeText_cons, List.foldl_append, sameScan, ih]

theorem balanced_escapeString (text : Bytes) : Balanced (escapeString text) := by
  intro scan outside unescaped
  have opened : BraceScan.step scan 34 = { scan with inString := true } := by
    simp [BraceScan.step, outside]
  have inner :
      (escapeText text).foldl BraceScan.step { scan with inString := true } =
        { scan with inString := true } :=
    scan_escapeText text rfl unescaped
  refine ⟨0, 0, ?_⟩
  rw [escapeString, List.foldl_cons, opened, List.foldl_append, inner]
  simp [BraceScan.step, outside, unescaped]

theorem balanced_intercalate (balanced : ∀ text ∈ texts, Balanced text) :
    Balanced ([44].intercalate texts) := by
  induction texts with
  | nil => exact balanced_nil
  | cons text texts ih =>
    have headBalanced := balanced text List.mem_cons_self
    have tailBalanced :=
      ih fun other member => balanced other (List.mem_cons_of_mem text member)
    cases texts with
    | nil => rwa [List.intercalate_singleton]
    | cons next texts =>
      rw [List.intercalate_cons_cons]
      exact balanced_append (balanced_append headBalanced (balanced_singleton (by decide)))
        tailBalanced

private theorem balanced_formatInt64 (i : Int64) : Balanced (formatInt64 i) := by
  have numeral : ∀ byte ∈ formatInt64 i, isdigit byte = true ∨ byte = 45 := by
    intro byte member
    unfold formatInt64 at member
    split at member
    · rcases List.mem_cons.mp member with minus | digit
      · exact Or.inr minus
      · exact Or.inl (decimal_isdigit _ byte digit)
    · exact Or.inl (decimal_isdigit _ byte member)
  refine balanced_of_neutral fun byte member => ?_
  obtain ⟨_, lower, upper⟩ := numeral_head (numeral byte member)
  grind

mutual

theorem balanced_stringifyValue :
    ∀ value : JsonValue δ, NumberFree value → Balanced (stringifyValue value)
  | .null, _ => show Balanced (ascii "null") from
      balanced_of_neutral (List.all_iff_forall_prop.mp (by decide))
  | .boolean true, _ => show Balanced (ascii "true") from
      balanced_of_neutral (List.all_iff_forall_prop.mp (by decide))
  | .boolean false, _ => show Balanced (ascii "false") from
      balanced_of_neutral (List.all_iff_forall_prop.mp (by decide))
  | .integer integer, _ => balanced_formatInt64 integer
  | .string string, _ => balanced_escapeString string
  | .array items, numberFree =>
    balanced_brackets (balanced_intercalate (balanced_stringifyItems items numberFree))
  | .object entries, numberFree =>
    balanced_braces (balanced_intercalate (balanced_stringifyEntries entries numberFree))

theorem balanced_stringifyItems :
    ∀ items : List (JsonValue δ), NumberFreeItems items →
      ∀ text ∈ stringifyItems items, Balanced text
  | [], _ => by
    simp [stringifyItems]
  | item :: items, numberFree => by
    intro text member
    rcases List.mem_cons.mp member with same | tailMember
    · rw [same]
      exact balanced_stringifyValue item numberFree.1
    · exact balanced_stringifyItems items numberFree.2 text tailMember

theorem balanced_stringifyEntries :
    ∀ entries : List (Bytes × JsonValue δ), NumberFreeEntries entries →
      ∀ text ∈ stringifyEntries entries, Balanced text
  | [], _ => by
    simp [stringifyEntries]
  | (key, value) :: entries, numberFree => by
    intro text member
    rcases List.mem_cons.mp member with same | tailMember
    · have colon : Balanced (58 :: stringifyValue value) :=
        balanced_append (balanced_singleton (by decide))
          (balanced_stringifyValue value numberFree.1)
      rw [same]
      exact balanced_append (balanced_escapeString key) colon
    · exact balanced_stringifyEntries entries numberFree.2 text tailMember

end

theorem not_malformed_of_balanced (balanced : Balanced text) :
    (text.foldl BraceScan.step BraceScan.start).malformed = false := by
  obtain ⟨braces, brackets, scanned⟩ := balanced BraceScan.start rfl rfl
  rw [scanned]
  simp [BraceScan.malformed, BraceScan.start]

theorem nulFree_append {first second : Bytes} (nulFree : NulFree first)
    (nulFreeRest : NulFree second) : NulFree (first ++ second) := by
  intro member
  rcases List.mem_append.mp member with inFirst | inSecond
  · exact nulFree inFirst
  · exact nulFreeRest inSecond

theorem nulFree_intercalate (nulFree : ∀ text ∈ texts, NulFree text) :
    NulFree ([44].intercalate texts) :=
  not_mem_intercalate (by decide) nulFree

theorem nulFree_escapeString (nulFree : NulFree text) :
    NulFree (escapeString text) :=
  not_mem_escapeString (by decide) (Or.inr nulFree)

private theorem nulFree_formatInt64 (i : Int64) : NulFree (formatInt64 i) :=
  not_mem_formatInt64 (by decide) (by decide) i

mutual

theorem nulFree_stringifyValue :
    ∀ value : JsonValue δ, WellFormed value → NumberFree value → NulFree (stringifyValue value)
  | .null, _, _ => show NulFree (ascii "null") by decide
  | .boolean true, _, _ => show NulFree (ascii "true") by decide
  | .boolean false, _, _ => show NulFree (ascii "false") by decide
  | .integer integer, _, _ => nulFree_formatInt64 integer
  | .string _, wellFormed, _ => nulFree_escapeString wellFormed
  | .array items, wellFormed, numberFree =>
    nulFree_append (show NulFree [91] by decide)
      (nulFree_append
        (nulFree_intercalate (nulFree_stringifyItems items wellFormed numberFree)) (by decide))
  | .object entries, wellFormed, numberFree =>
    nulFree_append (show NulFree [123] by decide)
      (nulFree_append
        (nulFree_intercalate (nulFree_stringifyEntries entries wellFormed.2 numberFree))
        (by decide))

theorem nulFree_stringifyItems :
    ∀ items : List (JsonValue δ), WellFormedItems items → NumberFreeItems items →
      ∀ text ∈ stringifyItems items, NulFree text
  | [], _, _ => by
    simp [stringifyItems]
  | item :: items, wellFormed, numberFree => by
    intro text member
    rcases List.mem_cons.mp member with same | tailMember
    · rw [same]
      exact nulFree_stringifyValue item wellFormed.1 numberFree.1
    · exact nulFree_stringifyItems items wellFormed.2 numberFree.2 text tailMember

theorem nulFree_stringifyEntries :
    ∀ entries : List (Bytes × JsonValue δ), WellFormedEntries entries →
      NumberFreeEntries entries → ∀ text ∈ stringifyEntries entries, NulFree text
  | [], _, _ => by
    simp [stringifyEntries]
  | (key, value) :: entries, wellFormed, numberFree => by
    intro text member
    rcases List.mem_cons.mp member with same | tailMember
    · rw [same]
      exact nulFree_append (nulFree_escapeString wellFormed.1)
        (nulFree_append (show NulFree [58] by decide)
          (nulFree_stringifyValue value wellFormed.2.1 numberFree.1))
    · exact nulFree_stringifyEntries entries wellFormed.2.2 numberFree.2 text tailMember

end

/-- The values that `json_parse` can be expected to read back: distinct keys
and C strings, no doubles, and within every limit of the parser. -/
structure Readable (value : JsonValue δ) : Prop where
  wellFormed : WellFormed value
  numberFree : NumberFree value
  shallow : 2 * nesting value ≤ maxJsonRecursionDepth
  shortStrings : EveryString ShortText value
  shortText : (jsonStringify value).length ≤ maxJsonInputSize

theorem readable_iff (value : JsonValue δ) :
    Readable value ↔
      WellFormed value ∧ NumberFree value ∧ 2 * nesting value ≤ maxJsonRecursionDepth ∧
        EveryString ShortText value ∧ (jsonStringify value).length ≤ maxJsonInputSize :=
  ⟨fun ⟨wellFormed, numberFree, shallow, shortStrings, shortText⟩ =>
      ⟨wellFormed, numberFree, shallow, shortStrings, shortText⟩,
    fun ⟨wellFormed, numberFree, shallow, shortStrings, shortText⟩ =>
      ⟨wellFormed, numberFree, shallow, shortStrings, shortText⟩⟩

instance (value : JsonValue δ) : Decidable (Readable value) :=
  decidable_of_iff _ (readable_iff value).symm

theorem Readable.entry (readable : Readable (.object entries)) {entry : Bytes × JsonValue δ}
    (member : entry ∈ entries) : Readable entry.2 where
  wellFormed := (wellFormedEntries_iff.mp readable.wellFormed.2 entry member).2
  numberFree := numberFreeEntries_iff.mp readable.numberFree entry member
  shallow := by
    have inner := nesting_le_nestingEntries member
    have outer := readable.shallow
    rw [nesting] at outer
    omega
  shortStrings := (everyStringEntries_iff.mp readable.shortStrings entry member).2
  shortText := by
    have whole := readable.shortText
    have inside :
        (stringifyEntry entry).length ≤ ([44].intercalate (stringifyEntries entries)).length := by
      rw [stringifyEntries_eq_map]
      exact length_le_intercalate_of_mem 44 (List.mem_map_of_mem member)
    simp only [jsonStringify, stringifyValue, stringifyEntry, List.length_cons,
      List.length_append] at whole inside ⊢
    omega

def RoundTrips (value : JsonValue δ) : Prop :=
  ∃ parsed, jsonParse (jsonStringify value) = some parsed ∧
    jsonEquals parsed value = true ∧ parsed = value

theorem jsonParse_jsonStringify (readable : Readable value) :
    jsonParse (jsonStringify value) = some (escapeValue value) := by
  have read :=
    parseValueWithDepth_stringifyValue value readable.wellFormed readable.numberFree
      readable.shortStrings (maxJsonRecursionDepth + 1) []
      (Nat.succ_le_succ readable.shallow) (by simp [EndsNumber])
  have accepted :=
    not_malformed_of_balanced (balanced_stringifyValue value readable.numberFree)
  rw [List.append_nil] at read
  rw [jsonParse, if_neg (Nat.not_lt.mpr readable.shortText), jsonStringify, accepted, parseValue,
    read]
  rfl

theorem jsonParse_jsonStringify_of_plain (readable : Readable value)
    (plain : EveryString Plain value) : jsonParse (jsonStringify value) = some value := by
  rw [jsonParse_jsonStringify readable, (escapeValue_eq_self_iff value).mpr plain]

/-- A value comes back unchanged exactly when none of its strings and keys
holds a quote, a backslash or one of the five escaped control characters. -/
theorem roundTrips_iff_everyString_plain (value : JsonValue δ) (readable : Readable value) :
    RoundTrips value ↔ EveryString Plain value := by
  rw [← escapeValue_eq_self_iff]
  constructor
  · rintro ⟨parsed, result, _, rfl⟩
    rw [jsonParse_jsonStringify readable] at result
    exact Option.some.inj result
  · intro unchanged
    refine ⟨value, ?_, jsonEquals_self readable.wellFormed readable.numberFree, rfl⟩
    rw [jsonParse_jsonStringify readable, unchanged]

/-- Different values have different texts, at any depth and size. -/
theorem jsonStringify_injOn :
    Set.InjOn (jsonStringify : JsonValue δ → Bytes)
      {value | WellFormed value ∧ NumberFree value ∧ EveryString ShortText value} := by
  intro value within other otherWithin same
  have read := fun (value : JsonValue δ) wellFormed numberFree short levels enough =>
    parseValueWithDepth_stringifyValue value wellFormed numberFree short levels [] enough
      (by simp [EndsNumber])
  have first := read value within.1 within.2.1 within.2.2
    (2 * nesting value + 2 * nesting other + 1) (by omega)
  rw [show stringifyValue value = stringifyValue other from same,
    read other otherWithin.1 otherWithin.2.1 otherWithin.2.2 _ (by omega)] at first
  exact (escapeValue_inj other value (Prod.mk.inj (Option.some.inj first)).1).symm

end RoundTrip

theorem roundTrips_iff_everyString_plain_document :
    Readable (.object [(ascii "id", .integer (-7)), (ascii "tags", .array [.string (ascii "a")])] :
        JsonValue Rat) ∧
      (RoundTrips (.object [(ascii "id", .integer (-7)),
          (ascii "tags", .array [.string (ascii "a")])] : JsonValue Rat) ↔
        EveryString Plain (.object [(ascii "id", .integer (-7)),
          (ascii "tags", .array [.string (ascii "a")])] : JsonValue Rat)) := by
  have readable :
      Readable (.object [(ascii "id", .integer (-7)),
        (ascii "tags", .array [.string (ascii "a")])] : JsonValue Rat) := by
    decide +kernel
  exact ⟨readable, roundTrips_iff_everyString_plain _ readable⟩

/-- A line feed comes back as the two bytes that `escape_string` wrote. -/
theorem not_roundTrips_lineFeed :
    Readable (.string (ascii "\n") : JsonValue Rat) ∧
      ¬ RoundTrips (.string (ascii "\n") : JsonValue Rat) := by
  have readable : Readable (.string (ascii "\n") : JsonValue Rat) := by
    decide +kernel
  refine ⟨readable, ?_⟩
  rintro ⟨parsed, result, _, same⟩
  rw [jsonParse_jsonStringify readable, same, Option.some.injEq, escapeValue,
    JsonValue.string.injEq] at result
  exact absurd result (by decide)

end Jdbx
