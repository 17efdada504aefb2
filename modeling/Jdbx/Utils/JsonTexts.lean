import Jdbx.Library.JsonGrammar
import Jdbx.Utils.JsonRoundTrip
import Mathlib.Data.Nat.Digits.Lemmas

/-!
# What is written is JSON

`escape_string` copies every control character that it has no letter for, although it counts
two bytes for it.  A text of JSON has none of these, and without them what `json_stringify`
writes is a text of JSON that says the value.
-/

namespace Jdbx

open Library

section Meaning

variable {δ : Type}

mutual

/-- The value as JSON data: strings and keys in UTF-8, and integers for numbers. -/
def Represents : JsonValue δ → JsonData → Prop
  | .null, .null => True
  | .boolean boolean, .boolean said => boolean = said
  | .integer integer, .number number => number = integer.toInt
  | .string string, .string letters => string = utf8 letters
  | .array items, .array data => RepresentsItems items data
  | .object entries, .object members => RepresentsEntries entries members
  | _, _ => False
termination_by structural value => value

def RepresentsItems : List (JsonValue δ) → List JsonData → Prop
  | [], [] => True
  | item :: items, data :: others => Represents item data ∧ RepresentsItems items others
  | _, _ => False
termination_by structural items => items

def RepresentsEntries : List (Bytes × JsonValue δ) → List (List Char × JsonData) → Prop
  | [], [] => True
  | (key, value) :: entries, (letters, data) :: members =>
    key = utf8 letters ∧ Represents value data ∧ RepresentsEntries entries members
  | _, _ => False
termination_by structural entries => entries

end

def IsUtf8 (text : Bytes) : Prop :=
  NulFree text ∧ ∃ letters, text = utf8 letters

/-- The control characters of the text are among those that `escape_string` has a letter
for. -/
def ControlsEscaped (text : Bytes) : Prop :=
  ∀ byte ∈ text, byte < 32 → isEscaped byte = true

instance : DecidablePred ControlsEscaped :=
  fun text => List.decidableBAll (fun byte => byte < 32 → isEscaped byte = true) text

mutual

theorem exists_represents : ∀ value : JsonValue δ, NumberFree value → EveryString IsUtf8 value →
    ∃ data, Represents value data
  | .null, _, _ => ⟨.null, trivial⟩
  | .boolean boolean, _, _ => ⟨.boolean boolean, rfl⟩
  | .number _, numberFree, _ => numberFree.elim
  | .integer integer, _, _ => ⟨.number integer.toInt, rfl⟩
  | .string _, _, isUtf8 => by
    obtain ⟨letters, same⟩ := isUtf8.2
    exact ⟨.string letters, same⟩
  | .array items, numberFree, isUtf8 => by
    obtain ⟨data, represents⟩ := exists_representsItems items numberFree isUtf8
    exact ⟨.array data, represents⟩
  | .object entries, numberFree, isUtf8 => by
    obtain ⟨members, represents⟩ := exists_representsEntries entries numberFree isUtf8
    exact ⟨.object members, represents⟩

theorem exists_representsItems : ∀ items : List (JsonValue δ), NumberFreeItems items →
    EveryStringItems IsUtf8 items → ∃ data, RepresentsItems items data
  | [], _, _ => ⟨[], trivial⟩
  | item :: items, numberFree, isUtf8 => by
    obtain ⟨data, represents⟩ := exists_represents item numberFree.1 isUtf8.1
    obtain ⟨others, later⟩ := exists_representsItems items numberFree.2 isUtf8.2
    exact ⟨data :: others, represents, later⟩

theorem exists_representsEntries : ∀ entries : List (Bytes × JsonValue δ),
    NumberFreeEntries entries → EveryStringEntries IsUtf8 entries →
      ∃ members, RepresentsEntries entries members
  | [], _, _ => ⟨[], trivial⟩
  | (key, value) :: entries, numberFree, isUtf8 => by
    obtain ⟨letters, same⟩ := isUtf8.1.2
    obtain ⟨data, represents⟩ := exists_represents value numberFree.1 isUtf8.2.1
    obtain ⟨members, later⟩ := exists_representsEntries entries numberFree.2 isUtf8.2.2
    exact ⟨(letters, data) :: members, same, represents, later⟩

end

end Meaning

theorem escapeText_append (first second : Bytes) :
    escapeText (first ++ second) = escapeText first ++ escapeText second :=
  List.flatMap_append

theorem escapeByte_short {byte : UInt8} (escaped : isEscaped byte = true) :
    ∃ letter, escapeByte byte = [92, letter] ∧ (letter, byte.toNat) ∈ shortEscapes := by
  simp only [isEscaped, Bool.or_eq_true, decide_eq_true_eq] at escaped
  rcases escaped with (((((same | same) | same) | same) | same) | same) | same
  · exact ⟨34, by rw [same]; decide, by rw [same]; decide⟩
  · exact ⟨92, by rw [same]; decide, by rw [same]; decide⟩
  · exact ⟨98, by rw [same]; decide, by rw [same]; decide⟩
  · exact ⟨102, by rw [same]; decide, by rw [same]; decide⟩
  · exact ⟨110, by rw [same]; decide, by rw [same]; decide⟩
  · exact ⟨114, by rw [same]; decide, by rw [same]; decide⟩
  · exact ⟨116, by rw [same]; decide, by rw [same]; decide⟩

theorem stringBody_escapeByte {letter : Char} {text : Bytes} {letters : List Char}
    (controls : ControlsEscaped (String.utf8EncodeChar letter)) (rest : StringBody text letters) :
    StringBody (escapeText (String.utf8EncodeChar letter) ++ text) (letter :: letters) := by
  rcases utf8EncodeChar_cases letter with ⟨below, one⟩ | ⟨above, more⟩
  · have number : (UInt8.ofNat letter.toNat).toNat = letter.toNat := by
      rw [UInt8.toNat_ofNat', Nat.mod_eq_of_lt (by omega)]
    have single : escapeText [UInt8.ofNat letter.toNat] =
        escapeByte (UInt8.ofNat letter.toNat) := by
      rw [escapeText_cons]
      exact List.append_nil _
    rw [one] at controls
    cases escaped : isEscaped (UInt8.ofNat letter.toNat) with
    | true =>
      obtain ⟨short, written, listed⟩ := escapeByte_short escaped
      rw [number] at listed
      rw [one, single, written]
      exact .short listed rest
    | false =>
      have plain : escapeText [UInt8.ofNat letter.toNat] = [UInt8.ofNat letter.toNat] := by
        apply (escapeText_eq_self_iff _).mpr
        intro byte member
        rw [List.mem_singleton.mp member, escaped]
      have visible : 32 ≤ letter.toNat := by
        by_contra low
        have control : UInt8.ofNat letter.toNat < 32 := by
          rw [UInt8.lt_iff_toNat_lt, number]
          exact Nat.lt_of_not_le low
        rw [controls _ (List.mem_singleton_self _) control] at escaped
        cases escaped
      rw [one, plain, ← one]
      refine .unescaped visible ?_ ?_ rest
      · intro quote
        rw [quote] at escaped
        cases escaped
      · intro backslash
        rw [backslash] at escaped
        cases escaped
  · have plain : escapeText (String.utf8EncodeChar letter) = String.utf8EncodeChar letter := by
      apply (escapeText_eq_self_iff _).mpr
      intro byte member
      have seven := more byte member
      by_contra escaped
      have listed := Bool.eq_true_of_not_eq_false escaped
      simp only [isEscaped, Bool.or_eq_true, decide_eq_true_eq] at listed
      rcases listed with (((((same | same) | same) | same) | same) | same) | same <;>
        rw [same] at seven <;> exact absurd seven (by decide)
    rw [plain]
    exact .unescaped (by omega) (by omega) (by omega) rest

theorem stringBody_escapeText {letters : List Char} (controls : ControlsEscaped (utf8 letters)) :
    StringBody (escapeText (utf8 letters)) letters := by
  induction letters with
  | nil => exact .nil
  | cons letter letters ih =>
    have split : utf8 (letter :: letters) = String.utf8EncodeChar letter ++ utf8 letters :=
      List.flatMap_cons
    rw [split] at controls ⊢
    rw [escapeText_append]
    apply stringBody_escapeByte
    · exact fun byte member => controls byte (List.mem_append_left _ member)
    · exact ih fun byte member => controls byte (List.mem_append_right _ member)

theorem digitsValue_map : ∀ {digits : List Nat}, (∀ digit ∈ digits, digit < 10) →
    digitsValue (digits.reverse.map digitByte) = Nat.ofDigits 10 digits := by
  intro digits
  induction digits with
  | nil => exact fun _ => rfl
  | cons digit digits ih =>
    intro small
    have later := ih fun other member =>
      small other (List.mem_cons_of_mem digit member)
    rw [digitsValue] at later
    rw [digitsValue, List.reverse_cons, List.map_append, List.foldl_append, later,
      Nat.ofDigits_cons]
    change Nat.ofDigits 10 digits * 10 + ((digitByte digit).toNat - 48) = _
    rw [digitByte_toNat (small digit List.mem_cons_self)]
    omega

theorem digitsValue_decimal (n : Nat) : digitsValue (decimal n) = n := by
  by_cases zero : n = 0
  · rw [zero]
    rfl
  · rw [decimal, if_neg zero,
      digitsValue_map fun digit member => Nat.digits_lt_base (by decide) member,
      Nat.ofDigits_digits]

theorem decimal_head (n : Nat) : decimal n = [48] ∨
    (decimal n ≠ [] ∧ (decimal n).head? ≠ some 48 ∧ (decimal n).all isdigit = true) := by
  by_cases zero : n = 0
  · rw [zero]
    exact Or.inl rfl
  · refine Or.inr ⟨decimal_ne_nil n, ?_, List.all_eq_true.mpr (decimal_isdigit n)⟩
    have nonempty : Nat.digits 10 n ≠ [] := Nat.digits_ne_nil_iff_ne_zero.mpr zero
    rw [decimal, if_neg zero, List.head?_map, List.head?_reverse,
      List.getLast?_eq_some_getLast nonempty, Option.map_some]
    intro same
    have small : (Nat.digits 10 n).getLast nonempty < 10 :=
      Nat.digits_lt_base (by decide) (List.getLast_mem nonempty)
    have number := congrArg UInt8.toNat (Option.some.inj same)
    rw [digitByte_toNat small] at number
    have leading := Nat.getLast_digit_ne_zero 10 zero
    exact leading (by simpa using number)

theorem derives_formatInt64 (i : Int64) :
    JsonDerives (formatInt64 i) (.value (.number i.toInt)) := by
  let numeral : JsonNumeral := ⟨decide (i.toInt < 0), decimal i.toInt.natAbs, none, none⟩
  have wellFormed : numeral.WellFormed := ⟨decimal_head _, nofun, nofun⟩
  have text : numeral.text = formatInt64 i := by
    rw [formatInt64, JsonNumeral.text]
    by_cases negative : i.toInt < 0
    · simp [numeral, negative]
    · simp [numeral, negative]
  have value : numeral.value = i.toInt := by
    have magnitude : (digitsValue (decimal i.toInt.natAbs ++ []) : ℚ) * 10 ^ ((0 : ℤ) - (0 : ℕ)) =
        i.toInt.natAbs := by
      rw [List.append_nil, digitsValue_decimal, Nat.cast_zero, sub_zero, zpow_zero, mul_one]
    change (if decide (i.toInt < 0) = true then
      -((digitsValue (decimal i.toInt.natAbs ++ []) : ℚ) * 10 ^ ((0 : ℤ) - (0 : ℕ)))
      else (digitsValue (decimal i.toInt.natAbs ++ []) : ℚ) * 10 ^ ((0 : ℤ) - (0 : ℕ))) = _
    rw [magnitude, ← Int.cast_natCast, ← Int.cast_neg, ← apply_ite Int.cast]
    congr 1
    split_ifs with negative
    · have below := of_decide_eq_true negative
      omega
    · have above := of_decide_eq_false (Bool.eq_false_iff.mpr negative)
      omega
  rw [← text, ← value]
  exact .number wellFormed

section Values

variable {δ : Type} [CDouble δ] {text : Bytes}

theorem isSpace_nil : IsSpace [] :=
  fun _ => nofun

def DerivesList (texts : List Bytes) (empty : Prop) (node : JsonNode) : Prop :=
  (texts = [] ∧ empty) ∨ (texts ≠ [] ∧ JsonDerives ([44].intercalate texts) node)

theorem derives_cons {item : JsonData} {texts : List Bytes} {items : List JsonData}
    (value : JsonDerives text (.value item))
    (rest : DerivesList texts (items = []) (.elements items)) :
    DerivesList (text :: texts) (item :: items = []) (.elements (item :: items)) := by
  refine Or.inr ⟨List.cons_ne_nil _ _, ?_⟩
  rcases rest with ⟨none, last⟩ | ⟨more, derives⟩
  · rw [none, last, List.intercalate_singleton]
    have one := JsonDerives.element isSpace_nil isSpace_nil value
    rwa [List.nil_append, List.append_nil] at one
  · obtain ⟨next, texts, rfl⟩ := List.exists_cons_of_ne_nil more
    rw [List.intercalate_cons_cons, List.append_assoc, List.singleton_append]
    exact .elements isSpace_nil isSpace_nil value derives

theorem derives_member {key : List Char} {item : JsonData} {texts : List Bytes}
    {members : List (List Char × JsonData)} (controls : ControlsEscaped (utf8 key))
    (value : JsonDerives text (.value item))
    (rest : DerivesList texts (members = []) (.members members)) :
    DerivesList ((escapeString (utf8 key) ++ 58 :: text) :: texts) ((key, item) :: members = [])
      (.members ((key, item) :: members)) := by
  refine Or.inr ⟨List.cons_ne_nil _ _, ?_⟩
  have name := stringBody_escapeText controls
  have written : escapeString (utf8 key) ++ 58 :: text =
      34 :: (escapeText (utf8 key) ++ 34 :: 58 :: text) := by
    rw [escapeString, List.cons_append, List.append_assoc, List.singleton_append]
  rcases rest with ⟨none, last⟩ | ⟨more, derives⟩
  · rw [none, last, List.intercalate_singleton, written]
    have one := JsonDerives.member isSpace_nil name isSpace_nil isSpace_nil isSpace_nil value
    rwa [List.nil_append, List.nil_append, List.nil_append, List.append_nil] at one
  · obtain ⟨next, texts, rfl⟩ := List.exists_cons_of_ne_nil more
    rw [List.intercalate_cons_cons, List.append_assoc, List.singleton_append, written,
      List.cons_append, List.append_assoc]
    exact .members isSpace_nil name isSpace_nil isSpace_nil isSpace_nil value derives

mutual

theorem derives_stringifyValue : ∀ (value : JsonValue δ) (data : JsonData),
    Represents value data → EveryString ControlsEscaped value →
      JsonDerives (stringifyValue value) (.value data)
  | .null, data, represents, _ => by
    cases data with
    | null => exact .null
    | _ => exact False.elim represents
  | .boolean boolean, data, represents, _ => by
    cases data with
    | boolean said =>
      cases (represents : boolean = said)
      cases boolean
      · exact .boolean false
      · exact .boolean true
    | _ => exact False.elim represents
  | .number number, data, represents, _ => by
    cases data <;> exact False.elim represents
  | .integer integer, data, represents, _ => by
    cases data with
    | number number =>
      cases (represents : number = integer.toInt)
      exact derives_formatInt64 integer
    | _ => exact False.elim represents
  | .string string, data, represents, controls => by
    cases data with
    | string letters =>
      cases (represents : string = utf8 letters)
      exact .string (stringBody_escapeText controls)
    | _ => exact False.elim represents
  | .array items, data, represents, controls => by
    cases data with
    | array said =>
      have inside := derives_stringifyItems items said represents controls
      rw [stringifyValue]
      rcases inside with ⟨none, empty⟩ | ⟨-, derives⟩
      · rw [none, empty]
        exact .emptyArray isSpace_nil
      · exact .array derives
    | _ => exact False.elim represents
  | .object entries, data, represents, controls => by
    cases data with
    | object members =>
      have inside := derives_stringifyEntries entries members represents controls
      rw [stringifyValue]
      rcases inside with ⟨none, empty⟩ | ⟨-, derives⟩
      · rw [none, empty]
        exact .emptyObject isSpace_nil
      · exact .object derives
    | _ => exact False.elim represents

theorem derives_stringifyItems : ∀ (items : List (JsonValue δ)) (data : List JsonData),
    RepresentsItems items data → EveryStringItems ControlsEscaped items →
      DerivesList (stringifyItems items) (data = []) (.elements data)
  | [], data, represents, _ => by
    cases data with
    | nil => exact Or.inl ⟨rfl, rfl⟩
    | cons _ _ => exact False.elim represents
  | item :: items, data, represents, controls => by
    cases data with
    | nil => exact False.elim represents
    | cons said others =>
      exact derives_cons (derives_stringifyValue item said represents.1 controls.1)
        (derives_stringifyItems items others represents.2 controls.2)

theorem derives_stringifyEntries : ∀ (entries : List (Bytes × JsonValue δ))
    (members : List (List Char × JsonData)), RepresentsEntries entries members →
      EveryStringEntries ControlsEscaped entries →
        DerivesList (stringifyEntries entries) (members = []) (.members members)
  | [], members, represents, _ => by
    cases members with
    | nil => exact Or.inl ⟨rfl, rfl⟩
    | cons _ _ => exact False.elim represents
  | (key, value) :: entries, members, represents, controls => by
    cases members with
    | nil => exact False.elim represents
    | cons member members =>
      obtain ⟨same, said, others⟩ := represents
      rw [same] at controls
      rw [stringifyEntries, same]
      exact derives_member controls.1
        (derives_stringifyValue value member.2 said controls.2.1)
        (derives_stringifyEntries entries members others controls.2.2)

end

omit [CDouble δ] in
theorem controlsEscaped_of_escapeString (plain : ∀ byte ∈ escapeString text, IsTextByte byte) :
    ControlsEscaped text := by
  intro byte member control
  rcases escapeByte_cases byte with ⟨-, written⟩ | ⟨escaped, -⟩
  · have inside : byte ∈ escapeText text :=
      List.mem_flatMap.mpr ⟨byte, member, written ▸ List.mem_singleton_self byte⟩
    have isText := plain byte (List.mem_cons_of_mem _ (List.mem_append_left _ inside))
    rcases isText with visible | space
    · exact absurd control (UInt8.not_lt.mpr visible)
    · simp only [List.mem_cons, List.not_mem_nil, or_false] at space
      rcases space with same | same | same <;> rw [same] <;> decide
  · exact escaped

theorem mem_intercalate {byte : UInt8} (inside : byte ∈ text) :
    ∀ {texts : List Bytes}, text ∈ texts → byte ∈ [44].intercalate texts := by
  intro texts
  induction texts with
  | nil => exact nofun
  | cons first texts ih =>
    intro member
    cases texts with
    | nil =>
      rw [List.mem_singleton.mp member] at inside
      rwa [List.intercalate_singleton]
    | cons next texts =>
      rw [List.intercalate_cons_cons]
      rcases List.mem_cons.mp member with same | later
      · rw [same] at inside
        exact List.mem_append_left _ (List.mem_append_left _ inside)
      · exact List.mem_append_right _ (ih later)

mutual

theorem controls_of_stringifyValue : ∀ value : JsonValue δ,
    (∀ byte ∈ stringifyValue value, IsTextByte byte) → EveryString ControlsEscaped value
  | .null, _ | .boolean _, _ | .number _, _ | .integer _, _ => trivial
  | .string _, plain => controlsEscaped_of_escapeString plain
  | .array items, plain => by
    apply controls_of_stringifyItems items
    intro text member byte inside
    apply plain byte
    exact List.mem_cons_of_mem _ (List.mem_append_left _ (mem_intercalate inside member))
  | .object entries, plain => by
    apply controls_of_stringifyEntries entries
    intro text member byte inside
    apply plain byte
    exact List.mem_cons_of_mem _ (List.mem_append_left _ (mem_intercalate inside member))

theorem controls_of_stringifyItems : ∀ items : List (JsonValue δ),
    (∀ text ∈ stringifyItems items, ∀ byte ∈ text, IsTextByte byte) →
      EveryStringItems ControlsEscaped items
  | [], _ => trivial
  | item :: items, plain =>
    ⟨controls_of_stringifyValue item (plain _ List.mem_cons_self),
      controls_of_stringifyItems items fun text member =>
        plain text (List.mem_cons_of_mem _ member)⟩

theorem controls_of_stringifyEntries : ∀ entries : List (Bytes × JsonValue δ),
    (∀ text ∈ stringifyEntries entries, ∀ byte ∈ text, IsTextByte byte) →
      EveryStringEntries ControlsEscaped entries
  | [], _ => trivial
  | (key, value) :: entries, plain => by
    have first := plain _ List.mem_cons_self
    refine ⟨?_, ?_, ?_⟩
    · apply controlsEscaped_of_escapeString
      exact fun byte inside => first byte (List.mem_append_left _ inside)
    · apply controls_of_stringifyValue value
      exact fun byte inside =>
        first byte (List.mem_append_right _ (List.mem_cons_of_mem _ inside))
    · apply controls_of_stringifyEntries entries
      exact fun text member => plain text (List.mem_cons_of_mem _ member)

end

/-- What `json_stringify` writes is JSON for the value just where no string holds a control
character that is copied. -/
theorem jsonStringify_isText_iff {value : JsonValue δ} (numberFree : NumberFree value)
    (isUtf8 : EveryString IsUtf8 value) :
    (∃ data, Represents value data ∧ JsonText (jsonStringify value) data) ↔
      EveryString ControlsEscaped value := by
  constructor
  · intro said
    obtain ⟨data, -, isText⟩ := said
    exact controls_of_stringifyValue value isText.isTextByte
  · intro controls
    obtain ⟨data, represents⟩ := exists_represents value numberFree isUtf8
    refine ⟨data, represents, [], stringifyValue value, [], isSpace_nil, isSpace_nil, ?_, ?_⟩
    · exact (List.append_nil _).symm
    · exact derives_stringifyValue value data represents controls

end Values

def lineFeedObject : JsonValue Rat :=
  .object [(ascii "a", .string (ascii "b\n"))]

theorem jsonStringify_isText_lineFeedObject :
    ∃ data, Represents lineFeedObject data ∧ JsonText (jsonStringify lineFeedObject) data := by
  have key : IsUtf8 (ascii "a") := ⟨by decide, [Char.ofNat 97], by decide⟩
  have string : IsUtf8 (ascii "b\n") := ⟨by decide, [Char.ofNat 98, Char.ofNat 10], by decide⟩
  have isUtf8 : EveryString IsUtf8 lineFeedObject := And.intro key (And.intro string trivial)
  exact (jsonStringify_isText_iff (by decide) isUtf8).mpr (by decide)

/-- The byte 1 is copied, which no JSON text holds. -/
theorem not_isText_controlCharacter :
    ¬∀ value : JsonValue Rat, NumberFree value → EveryString IsUtf8 value →
      ∃ data, Represents value data ∧ JsonText (jsonStringify value) data := by
  intro isText
  have string : IsUtf8 [1] := ⟨by decide, [Char.ofNat 1], by decide⟩
  obtain ⟨data, -, isText⟩ := isText (.string [1]) trivial string
  have control := isText.isTextByte 1 (by decide)
  exact absurd control (by decide)

end Jdbx
