import Jdbx.Utils.JsonDeepCopy
import Jdbx.Utils.JsonNumbers

/-!
# Reading back within the limits or not at all

A stored document may have grown beyond a limit of `json_parse`.  Then it is not
read at all; otherwise it is read with every string and key escaped once, and every
number as the parser reads its text.
-/

namespace Jdbx

open Library

theorem scanString_escapeText_or_none (text rest : Bytes) :
    ∀ charCount, scanString charCount (escapeText text ++ 34 :: rest) =
        some (escapeText text, rest) ∨
      scanString charCount (escapeText text ++ 34 :: rest) = none := by
  induction text with
  | nil =>
    intro charCount
    exact Or.inl (scanString_quote charCount rest)
  | cons byte text ih =>
    intro charCount
    rw [escapeText_cons]
    rcases escapeByte_cases byte with ⟨plain, written⟩ | ⟨_, letter, _, written⟩
    · rw [written, List.singleton_append, List.cons_append]
      by_cases below : charCount < maxJsonStringLength
      · rw [scanString_plain below plain]
        rcases ih (charCount + 1) with scanned | failed
        · left
          rw [scanned, Option.map_some]
        · right
          rw [failed, Option.map_none]
      · right
        have notQuote : byte ≠ 34 := by
          rintro rfl
          exact absurd plain (by decide)
        rw [scanString.eq_def]
        simp [notQuote, Nat.le_of_not_lt below]
    · have layout : [92, letter] ++ escapeText text ++ 34 :: rest =
          92 :: letter :: (escapeText text ++ 34 :: rest) := rfl
      rw [written, layout]
      by_cases below : charCount < maxJsonStringLength
      · rw [scanString_pair below]
        rcases ih (charCount + 2) with scanned | failed
        · left
          rw [scanned]
          rfl
        · right
          rw [failed, Option.map_none]
      · right
        rw [scanString, if_neg (by decide), if_pos (Nat.le_of_not_lt below)]

theorem parseString_escapeString_or_none (text rest : Bytes) :
    parseString (escapeString text ++ rest) = some (escapeText text, rest) ∨
      parseString (escapeString text ++ rest) = none := by
  have layout : escapeString text ++ rest = 34 :: (escapeText text ++ 34 :: rest) := by
    simp [escapeString]
  rw [layout, parseString]
  rcases scanString_escapeText_or_none text rest 0 with scanned | failed
  · rw [scanned]
    dsimp only
    split_ifs
    · exact Or.inr rfl
    · exact Or.inl rfl
  · right
    rw [failed]

section Values

variable {δ : Type} [CDouble δ] {entries : List (Bytes × JsonValue δ)} {levels : Nat}
  {value : JsonValue δ}

/-! ## The value that comes back -/

mutual

/-- Every string and every key escaped once, and every number read from its text. -/
def rereadValue : JsonValue δ → JsonValue δ
  | .number number => rereadNumber number
  | .string string => .string (escapeText string)
  | .array items => .array (rereadItems items)
  | .object entries => .object (rereadEntries entries)
  | other => other
termination_by structural value => value

def rereadItems : List (JsonValue δ) → List (JsonValue δ)
  | [] => []
  | item :: items => rereadValue item :: rereadItems items
termination_by structural items => items

def rereadEntries : List (Bytes × JsonValue δ) → List (Bytes × JsonValue δ)
  | [] => []
  | (key, value) :: entries => (escapeText key, rereadValue value) :: rereadEntries entries
termination_by structural entries => entries

end

theorem rereadItems_eq_map (items : List (JsonValue δ)) :
    rereadItems items = items.map rereadValue := by
  induction items with
  | nil => rfl
  | cons item items ih => rw [rereadItems, ih, List.map_cons]

theorem rereadEntries_eq_map (entries : List (Bytes × JsonValue δ)) :
    rereadEntries entries =
      entries.map fun entry => (escapeText entry.1, rereadValue entry.2) := by
  induction entries with
  | nil => rfl
  | cons entry entries ih =>
    obtain ⟨key, value⟩ := entry
    rw [rereadEntries, ih, List.map_cons]

theorem entryKeys_rereadEntries (entries : List (Bytes × JsonValue δ)) :
    entryKeys (rereadEntries entries) = (entryKeys entries).map escapeText := by
  rw [rereadEntries_eq_map]
  simp [entryKeys]

mutual

theorem rereadValue_of_numberFree :
    ∀ value : JsonValue δ, NumberFree value → rereadValue value = escapeValue value
  | .null, _ | .boolean _, _ | .integer _, _ | .string _, _ => rfl
  | .number _, numberFree => numberFree.elim
  | .array items, numberFree => by
    rw [rereadValue, escapeValue, rereadItems_of_numberFree items numberFree]
  | .object entries, numberFree => by
    rw [rereadValue, escapeValue, rereadEntries_of_numberFree entries numberFree]

theorem rereadItems_of_numberFree :
    ∀ items : List (JsonValue δ), NumberFreeItems items → rereadItems items = escapeItems items
  | [], _ => rfl
  | item :: items, ⟨headFree, tailFree⟩ => by
    rw [rereadItems, escapeItems, rereadValue_of_numberFree item headFree,
      rereadItems_of_numberFree items tailFree]

theorem rereadEntries_of_numberFree :
    ∀ entries : List (Bytes × JsonValue δ), NumberFreeEntries entries →
      rereadEntries entries = escapeEntries entries
  | [], _ => rfl
  | (key, value) :: entries, ⟨headFree, tailFree⟩ => by
    rw [rereadEntries, escapeEntries, rereadValue_of_numberFree value headFree,
      rereadEntries_of_numberFree entries tailFree]

end

/-- The value holds no number, or numbers are printed as `%g` prints them. -/
def Printable (value : JsonValue δ) : Prop :=
  NumberFree value ∨ ∀ number : δ, PrintsNumber number

theorem Printable.item {items : List (JsonValue δ)} (printable : Printable (.array items))
    {item : JsonValue δ} (member : item ∈ items) : Printable item :=
  printable.imp_left fun numberFree => numberFreeItems_iff.mp numberFree item member

theorem Printable.entry (printable : Printable (.object entries)) {entry : Bytes × JsonValue δ}
    (member : entry ∈ entries) : Printable entry.2 :=
  printable.imp_left fun numberFree => numberFreeEntries_iff.mp numberFree entry member

/-! ## Reading it -/

/-- The value at the front of a text is read as expected, or nothing is, or it is a
number after which nothing more is. -/
def Rereads (levels : Nat) (value : JsonValue δ) : Prop :=
  ∀ rest, EndsNumber rest →
    (parseValueWithDepth levels (stringifyValue value ++ rest) : Option (JsonValue δ × Bytes)) =
        some (rereadValue value, rest) ∨
      (parseValueWithDepth levels (stringifyValue value ++ rest) : Option (JsonValue δ × Bytes)) =
        none ∨
      (∃ number, value = .number number) ∧ ∃ read after,
        (parseValueWithDepth levels (stringifyValue value ++ rest) :
          Option (JsonValue δ × Bytes)) = some (read, after) ∧ Stuck after

theorem Rereads.item (rereads : Rereads levels value) {rest : Bytes} (ends : EndsNumber rest) :
    (parseValueWithDepth levels (stringifyValue value ++ rest) : Option (JsonValue δ × Bytes)) =
        some (rereadValue value, rest) ∨
      ∀ read after, (parseValueWithDepth levels (stringifyValue value ++ rest) :
        Option (JsonValue δ × Bytes)) = some (read, after) → Stuck after := by
  rcases rereads rest ends with read | failed | ⟨_, other, left, parsed, stuck⟩
  · exact Or.inl read
  · right
    intro read after parsed
    rw [failed] at parsed
    cases parsed
  · right
    intro read after again
    obtain ⟨_, rfl⟩ := Prod.mk.inj (Option.some.inj (parsed.symm.trans again))
    exact stuck

omit [CDouble δ] in
theorem Stuck.notTokens {after : Bytes} (stuck : Stuck after) {close : UInt8}
    (isClose : close ∈ ([93, 125] : Bytes)) :
    ∀ token ∈ (skipWhitespace after).head?, token ≠ 44 ∧ token ≠ close := by
  intro token member
  have notToken := stuck token member
  simp only [List.mem_cons, List.not_mem_nil, or_false, not_or] at notToken isClose
  rcases isClose with rfl | rfl
  · exact ⟨notToken.1, notToken.2.1⟩
  · exact ⟨notToken.1, notToken.2.2⟩

theorem parseValueWithDepth_bracket (levels : Nat) (text : Bytes) :
    (parseValueWithDepth (levels + 1) (91 :: text) : Option (JsonValue δ × Bytes)) =
      parseArrayWithDepth levels text := by
  rw [parseValueWithDepth, skipWhitespace_cons (by decide)]
  rfl

theorem parseValueWithDepth_brace (levels : Nat) (text : Bytes) :
    (parseValueWithDepth (levels + 1) (123 :: text) : Option (JsonValue δ × Bytes)) =
      parseObjectWithDepth levels text := by
  rw [parseValueWithDepth, skipWhitespace_cons (by decide)]
  rfl

theorem rereads_string (levels : Nat) (text : Bytes) :
    Rereads (levels + 1) (.string text : JsonValue δ) := by
  intro rest _
  have layout : escapeString text ++ rest = 34 :: (escapeText text ++ 34 :: rest) := by
    simp [escapeString]
  have reads := parseString_escapeString_or_none text rest
  rw [stringifyValue, layout, parseValueWithDepth_scalar (by decide) (by decide) (by decide),
    parseScalar, if_pos rfl, ← layout]
  rcases reads with read | failed
  · left
    rw [read]
    rfl
  · right
    left
    rw [failed, Option.map_none]

theorem printable_head (printable : Printable value) :
    ∃ byte text, stringifyValue value = byte :: text ∧ isspace byte = false ∧ byte ≠ 93 := by
  by_cases numberFree : NumberFree value
  · exact stringifyValue_head numberFree
  · have prints := printable.resolve_left numberFree
    cases value with
    | number number =>
      obtain ⟨byte, text, layout, visible, notClose, -⟩ := (prints number).head
      exact ⟨byte, text, layout, visible, notClose⟩
    | array items => exact ⟨91, _, rfl, by decide, by decide⟩
    | object entries => exact ⟨123, _, rfl, by decide, by decide⟩
    | null | boolean _ | integer _ | string _ => exact absurd trivial numberFree

theorem rereads_array {items : List (JsonValue δ)} (printable : Printable (.array items))
    (rereads : ∀ item ∈ items, Rereads levels item) :
    Rereads (levels + 2) (.array items) := by
  intro rest _
  have layout : stringifyValue (.array items) ++ rest =
      91 :: ([44].intercalate (stringifyItems items) ++ 93 :: rest) := by
    simp [stringifyValue]
  rw [layout, parseValueWithDepth_bracket]
  cases items with
  | nil => exact Or.inl rfl
  | cons item items =>
    obtain ⟨byte, text, head, visible, notClose⟩ :=
      printable_head (printable.item List.mem_cons_self)
    obtain ⟨after, first⟩ :
        ∃ after, [44].intercalate ((item :: items).map stringifyValue) ++ 93 :: rest =
          byte :: after := by
      rw [List.map_cons, head]
      exact intercalate_head _
    have loop := parseDelimited_intercalate_or_none (parseValueWithDepth levels)
      skipWhitespace 44 93 stringifyValue rereadValue EndsNumber
      (by decide) (endsNumber_delimiter (by decide)) (endsNumber_delimiter (by decide))
      (skipWhitespace_cons (by decide)) (skipWhitespace_cons (by decide)) rest
      (item :: items) ((byte :: after).length + 1) (List.cons_ne_nil item items)
      (by rw [← first]; exact length_le_text _ _ _) fun other member after ends => by
        rw [parseValueWithDepth_skipWhitespace]
        exact ((rereads other member).item ends).imp_right fun stuck read left parsed =>
          (stuck read left parsed).notTokens (by decide)
    rw [first] at loop
    rw [stringifyItems_eq_map, first, parseArrayWithDepth_cons visible notClose, rereadValue,
      rereadItems_eq_map]
    rcases loop with read | failed
    · left
      rw [read]
      rfl
    · right
      left
      rw [failed, Option.map_none]

theorem parseMember_stringifyEntry_or_stuck {entry : Bytes × JsonValue δ}
    (rereads : Rereads levels entry.2) {after : Bytes} (ends : EndsNumber after) :
    parseMember (parseValueWithDepth (δ := δ) levels)
        (skipWhitespace (stringifyEntry entry ++ after)) =
          some ((escapeText entry.1, rereadValue entry.2), after) ∨
      ∀ read left, parseMember (parseValueWithDepth (δ := δ) levels)
        (skipWhitespace (stringifyEntry entry ++ after)) = some (read, left) → Stuck left := by
  have visible :
      skipWhitespace (stringifyEntry entry ++ after) =
        escapeString entry.1 ++ 58 :: (stringifyValue entry.2 ++ after) := by
    rw [stringifyEntry, List.append_assoc, List.cons_append]
    exact skipWhitespace_cons (by decide) _
  rw [visible, parseMember]
  rcases parseString_escapeString_or_none entry.1 (58 :: (stringifyValue entry.2 ++ after)) with
    key | failed
  · simp only [key, skipWhitespace_cons (show isspace 58 = false by decide),
      parseValueWithDepth_skipWhitespace]
    rcases rereads.item ends with read | stuck
    · left
      rw [read]
      rfl
    · right
      intro read left parsed
      obtain ⟨result, valueParsed, equal⟩ := Option.map_eq_some_iff.mp parsed
      cases equal
      exact stuck result.1 result.2 valueParsed
  · right
    rw [failed]
    intro read left parsed
    cases parsed

theorem parseValueWithDepth_object (distinct : (entryKeys entries).Nodup)
    (rereads : ∀ entry ∈ entries, Rereads levels entry.2) (rest : Bytes) :
    (parseValueWithDepth (levels + 2) (stringifyValue (.object entries) ++ rest) :
        Option (JsonValue δ × Bytes)) = some (rereadValue (.object entries), rest) ∨
      (parseValueWithDepth (levels + 2) (stringifyValue (.object entries) ++ rest) :
        Option (JsonValue δ × Bytes)) = none := by
  have layout : stringifyValue (.object entries) ++ rest =
      123 :: ([44].intercalate (stringifyEntries entries) ++ 125 :: rest) := by
    simp [stringifyValue]
  rw [layout, parseValueWithDepth_brace]
  cases entries with
  | nil => exact Or.inl rfl
  | cons entry entries =>
    obtain ⟨after, first⟩ :
        ∃ after, [44].intercalate ((entry :: entries).map stringifyEntry) ++ 125 :: rest =
          34 :: after :=
      intercalate_head _
    have loop := parseDelimited_intercalate_or_none (parseMember (parseValueWithDepth levels))
      skipWhitespace 44 125 stringifyEntry
      (fun entry => (escapeText entry.1, rereadValue entry.2)) EndsNumber
      (by decide) (endsNumber_delimiter (by decide)) (endsNumber_delimiter (by decide))
      (skipWhitespace_cons (by decide)) (skipWhitespace_cons (by decide)) rest
      (entry :: entries) (((34 : UInt8) :: after).length + 1) (List.cons_ne_nil entry entries)
      (by rw [← first]; exact length_le_text _ _ _) fun other member after ends =>
        (parseMember_stringifyEntry_or_stuck (rereads other member) ends).imp_right
          fun stuck read left parsed => (stuck read left parsed).notTokens (by decide)
    rw [first, ← rereadEntries_eq_map] at loop
    have keys : (entryKeys (rereadEntries (entry :: entries))).Nodup := by
      rw [entryKeys_rereadEntries]
      exact distinct.map escapeText_injective
    rw [stringifyEntries_eq_map, first, parseObjectWithDepth_cons (by decide) (by decide),
      rereadValue]
    rcases loop with read | failed
    · left
      simp only [read, Option.map_some, objectOfMembers_eq_self keys]
    · right
      rw [failed, Option.map_none]

theorem rereads : ∀ {depth : Nat} {value : JsonValue δ}, Copyable depth value →
    Printable value → ∀ levels, Rereads levels value := by
  intro depth
  induction depth with
  | zero =>
    intro value copyable
    exact copyable.elim
  | succ depth ih =>
    intro value copyable printable levels
    cases levels with
    | zero => exact fun _ _ => Or.inr (Or.inl rfl)
    | succ levels =>
      cases value with
      | null => exact fun _ _ => Or.inl rfl
      | boolean boolean =>
        intro rest _
        cases boolean <;> exact Or.inl rfl
      | number number =>
        have prints := printable.resolve_left id number
        exact fun rest ends => (parseValueWithDepth_number prints levels ends).imp_right
          (Or.imp_right fun stuck => ⟨⟨number, rfl⟩, stuck⟩)
      | integer integer =>
        exact fun _ ends => Or.inl (parseValueWithDepth_integer levels integer ends)
      | string text => exact rereads_string levels text
      | array items =>
        cases levels with
        | zero =>
          intro rest _
          right
          left
          simp [stringifyValue, parseValueWithDepth, parseArrayWithDepth,
            skipWhitespace_cons (show isspace 91 = false by decide)]
        | succ levels =>
          exact rereads_array printable fun item member =>
            ih (copyable item member) (printable.item member) levels
      | object entries =>
        cases levels with
        | zero =>
          intro rest _
          right
          left
          simp [stringifyValue, parseValueWithDepth, parseObjectWithDepth,
            skipWhitespace_cons (show isspace 123 = false by decide)]
        | succ levels =>
          intro rest _
          exact (parseValueWithDepth_object copyable.1 (fun entry member =>
            ih (copyable.2 entry member) (printable.entry member) levels)
              rest).imp_right Or.inl

theorem jsonParse_jsonStringify_object {depth : Nat} {parsed : JsonValue δ}
    (copyable : Copyable (depth + 1) (.object entries)) (printable : Printable (.object entries))
    (read : jsonParse (jsonStringify (.object entries)) = some parsed) :
    parsed = rereadValue (.object entries) := by
  rw [jsonParse] at read
  split_ifs at read
  obtain ⟨result, valueParsed, rfl⟩ := Option.map_eq_some_iff.mp read
  have reads := parseValueWithDepth_object copyable.1 (fun entry member =>
    rereads (copyable.2 entry member) (printable.entry member) (maxJsonRecursionDepth - 1)) []
  rw [List.append_nil] at reads
  change parseValueWithDepth (maxJsonRecursionDepth + 1) (stringifyValue (.object entries)) =
    some result at valueParsed
  rcases reads with same | failed
  · rw [Option.some.inj (valueParsed.symm.trans same)]
  · cases valueParsed.symm.trans failed

def ReadsOrFails (levels : Nat) (value : JsonValue δ) : Prop :=
  ∀ rest, EndsNumber rest →
    (parseValueWithDepth levels (stringifyValue value ++ rest) : Option (JsonValue δ × Bytes)) =
        some (escapeValue value, rest) ∨
      (parseValueWithDepth levels (stringifyValue value ++ rest) : Option (JsonValue δ × Bytes)) =
        none

theorem readsOrFails {depth : Nat} (copyable : Copyable depth value)
    (numberFree : NumberFree value) (levels : Nat) : ReadsOrFails levels value := by
  intro rest ends
  rcases rereads copyable (Or.inl numberFree) levels rest ends with
    read | failed | ⟨⟨number, rfl⟩, _⟩
  · rw [rereadValue_of_numberFree value numberFree] at read
    exact Or.inl read
  · exact Or.inr failed
  · exact numberFree.elim

theorem jsonParse_jsonStringify_escaped {depth : Nat} {value parsed : JsonValue δ}
    (copyable : Copyable depth value) (numberFree : NumberFree value)
    (read : jsonParse (jsonStringify value) = some parsed) : parsed = escapeValue value := by
  rw [jsonParse] at read
  split_ifs at read
  obtain ⟨result, valueParsed, rfl⟩ := Option.map_eq_some_iff.mp read
  have reads := readsOrFails copyable numberFree (maxJsonRecursionDepth + 1) []
    (by simp [EndsNumber])
  rw [List.append_nil] at reads
  change parseValueWithDepth (maxJsonRecursionDepth + 1) (stringifyValue value) = some result
    at valueParsed
  rw [valueParsed] at reads
  rcases reads with same | failed
  · rw [Option.some.inj same]
  · cases failed

end Values

end Jdbx
