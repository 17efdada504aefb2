import Jdbx.Utils.JsonRoundTrip

/-!
# Reading back numbers

`json_stringify` writes a `JSON_NUMBER` with `%g`: a numeral, or the name of a value that
is not finite.  The number branch of the parser reads the whole of a numeral.
-/

namespace Jdbx

open Library

def AllDigits (digits : Bytes) : Prop :=
  ∀ byte ∈ digits, isdigit byte = true

def IsFraction (text : Bytes) : Prop :=
  text = [] ∨ ∃ digits, text = 46 :: digits ∧ AllDigits digits

/-- Nothing, or an `e`, a sign and digits. -/
def IsExponent (text : Bytes) : Prop :=
  text = [] ∨ ∃ sign digits, text = 101 :: sign :: digits ∧ sign ∈ ([43, 45] : Bytes) ∧
    AllDigits digits

def IsNumeral (text : Bytes) : Prop :=
  ∃ digits fraction exponent, text = digits ++ (fraction ++ exponent) ∧ digits ≠ [] ∧
    AllDigits digits ∧ IsFraction fraction ∧ IsExponent exponent

/-- `%g` writes the number as a numeral, or as `inf` or `nan`, after a minus sign or none. -/
def PrintsNumber {δ : Type} [CDouble δ] (number : δ) : Prop :=
  ∃ sign body, CDouble.formatG number = sign ++ body ∧ sign ∈ ([[], [45]] : List Bytes) ∧
    (IsNumeral body ∨ body ∈ [ascii "inf", ascii "nan"])

theorem takeWhile_digits {digits rest : Bytes} (allDigits : AllDigits digits)
    (ends : ∀ byte ∈ rest.head?, isdigit byte = false) :
    (digits ++ rest).takeWhile isdigit = digits ∧ (digits ++ rest).dropWhile isdigit = rest := by
  have stops : rest.takeWhile isdigit = [] ∧ rest.dropWhile isdigit = rest := by
    cases rest with
    | nil => exact ⟨rfl, rfl⟩
    | cons byte after =>
        have notDigit := ends byte rfl
        exact ⟨List.takeWhile_cons_of_neg (by simp [notDigit]),
          List.dropWhile_cons_of_neg (by simp [notDigit])⟩
  rw [List.takeWhile_append_of_pos allDigits, List.dropWhile_append_of_pos allDigits, stops.1,
    stops.2, List.append_nil]
  exact ⟨rfl, rfl⟩

section Numerals

variable {δ : Type} [CDouble δ]

theorem parseFraction_append {fraction : Bytes} (isFraction : IsFraction fraction)
    (floatValue : δ) :
    ∃ value isFloat, ∀ rest : Bytes,
      (∀ byte ∈ rest.head?, isdigit byte = false ∧ byte ≠ 46) →
        parseFraction floatValue (fraction ++ rest) = (value, isFloat, rest) := by
  rcases isFraction with rfl | ⟨digits, rfl, allDigits⟩
  · refine ⟨floatValue, false, fun rest ends => ?_⟩
    cases rest with
    | nil => rfl
    | cons byte after =>
        have notPoint := (ends byte rfl).2
        unfold parseFraction
        split
        · rename_i tail equal
          exact absurd (List.cons.inj equal).1 notPoint
        · rfl
  · refine ⟨addDecimals floatValue digits, true, fun rest ends => ?_⟩
    obtain ⟨taken, dropped⟩ := takeWhile_digits allDigits fun byte member => (ends byte member).1
    rw [List.cons_append, parseFraction, taken, dropped]

theorem parseExponent_append {exponent : Bytes} (isExponent : IsExponent exponent)
    (floatValue : δ) (isFloat : Bool) :
    ∃ value float, ∀ rest : Bytes, EndsNumber rest →
      parseExponent floatValue isFloat (exponent ++ rest) = (value, float, rest) := by
  rcases isExponent with rfl | ⟨sign, digits, rfl, isSign, allDigits⟩
  · exact ⟨floatValue, isFloat, fun rest ends => parseExponent_of_endsNumber _ _ ends⟩
  · refine ⟨scaleByExponent floatValue (sign == 45) digits, true, fun rest ends => ?_⟩
    obtain ⟨taken, dropped⟩ := takeWhile_digits allDigits fun byte member => (ends byte member).1
    simp only [List.mem_cons, List.not_mem_nil, or_false] at isSign
    rcases isSign with rfl | rfl
    · simp [parseExponent, taken, dropped]
    · simp [parseExponent, parseSign, taken, dropped]

omit [CDouble δ] in
theorem exponent_append_head {exponent rest : Bytes} (isExponent : IsExponent exponent)
    (ends : EndsNumber rest) :
    ∀ byte ∈ (exponent ++ rest).head?, isdigit byte = false ∧ byte ≠ 46 := by
  rcases isExponent with rfl | ⟨sign, digits, rfl, _⟩
  · intro byte member
    exact ⟨(ends byte member).1, (ends byte member).2.1⟩
  · intro byte member
    obtain rfl : 101 = byte := Option.some.inj member
    decide

omit [CDouble δ] in
theorem fraction_append_head {fraction after : Bytes} (isFraction : IsFraction fraction)
    (ends : ∀ byte ∈ after.head?, isdigit byte = false ∧ byte ≠ 46) :
    ∀ byte ∈ (fraction ++ after).head?, isdigit byte = false := by
  rcases isFraction with rfl | ⟨digits, rfl, _⟩
  · exact fun byte member => (ends byte member).1
  · intro byte member
    obtain rfl : 46 = byte := Option.some.inj member
    rfl

omit [CDouble δ] in
theorem parseSign_append {sign digits : Bytes} (isSign : sign ∈ ([[], [45]] : List Bytes))
    (nonempty : digits ≠ []) (allDigits : AllDigits digits) (after : Bytes) :
    parseSign (sign ++ (digits ++ after)) = (!sign.isEmpty, digits ++ after) := by
  simp only [List.mem_cons, List.not_mem_nil, or_false] at isSign
  rcases isSign with rfl | rfl
  · cases digits with
    | nil => exact absurd rfl nonempty
    | cons byte digits =>
        have notMinus : byte ≠ 45 := by
          rintro rfl
          exact absurd (allDigits 45 List.mem_cons_self) (by decide)
        unfold parseSign
        split
        · rename_i tail equal
          exact absurd (List.cons.inj equal).1 notMinus
        · rfl
  · rfl

theorem parseNumber_append {sign body : Bytes} (isSign : sign ∈ ([[], [45]] : List Bytes))
    (isNumeral : IsNumeral body) :
    ∃ value : JsonValue δ, ∀ rest, EndsNumber rest →
      parseNumber (sign ++ body ++ rest) = (value, rest) := by
  obtain ⟨digits, fraction, exponent, rfl, nonempty, allDigits, isFraction, isExponent⟩ :=
    isNumeral
  obtain ⟨pointed, isPointed, readFraction⟩ := parseFraction_append isFraction
    (digits.foldl (fun value byte =>
      CDouble.add (CDouble.mul value (CDouble.ofInt64 10)) (digitValue byte))
        (CDouble.ofInt64 0) : δ)
  obtain ⟨scaled, isFloat, readExponent⟩ := parseExponent_append isExponent pointed isPointed
  refine ⟨if isFloat then .number (if !sign.isEmpty then CDouble.neg scaled else scaled)
    else .integer (if !sign.isEmpty then -digits.foldl pushDigit 0
      else digits.foldl pushDigit 0), fun rest ends => ?_⟩
  have exponentHead := exponent_append_head isExponent ends
  obtain ⟨taken, dropped⟩ :=
    takeWhile_digits allDigits (fraction_append_head isFraction exponentHead)
  have signed : parseSign (sign ++ (digits ++ (fraction ++ exponent)) ++ rest) =
      (!sign.isEmpty, digits ++ (fraction ++ (exponent ++ rest))) := by
    simp only [List.append_assoc]
    exact parseSign_append isSign nonempty allDigits _
  simp only [parseNumber, signed, taken, dropped, readFraction _ exponentHead,
    readExponent rest ends]

def rereadNumber (number : δ) : JsonValue δ :=
  (parseNumber (CDouble.formatG number)).1

omit [CDouble δ] in
def Stuck (after : Bytes) : Prop :=
  ∀ byte ∈ (skipWhitespace after).head?, byte ∉ ([44, 93, 125] : Bytes)

theorem parseNumber_notFinite {name : Bytes} (notFinite : name ∈ [ascii "inf", ascii "nan"])
    (rest : Bytes) :
    ∃ read : JsonValue δ, parseNumber (45 :: (name ++ rest)) = (read, name ++ rest) ∧
      Stuck (name ++ rest) := by
  simp only [List.mem_cons, List.not_mem_nil, or_false] at notFinite
  rcases notFinite with rfl | rfl
  · refine ⟨_, rfl, fun byte member => ?_⟩
    obtain rfl : 105 = byte := Option.some.inj member
    decide
  · refine ⟨_, rfl, fun byte member => ?_⟩
    obtain rfl : 110 = byte := Option.some.inj member
    decide

omit [CDouble δ] in
theorem numeral_append_head {sign body : Bytes} (isSign : sign ∈ ([[], [45]] : List Bytes))
    (isNumeral : IsNumeral body) :
    ∃ byte text, sign ++ body = byte :: text ∧ (isdigit byte = true ∨ byte = 45) := by
  obtain ⟨digits, fraction, exponent, rfl, nonempty, allDigits, _⟩ := isNumeral
  simp only [List.mem_cons, List.not_mem_nil, or_false] at isSign
  rcases isSign with rfl | rfl
  · cases digits with
    | nil => exact absurd rfl nonempty
    | cons byte digits => exact ⟨byte, _, rfl, Or.inl (allDigits byte List.mem_cons_self)⟩
  · exact ⟨45, _, rfl, Or.inr rfl⟩

theorem parseValueWithDepth_number {number : δ} (prints : PrintsNumber number) (levels : Nat)
    {rest : Bytes} (ends : EndsNumber rest) :
    (parseValueWithDepth (levels + 1) (CDouble.formatG number ++ rest) :
        Option (JsonValue δ × Bytes)) = some (rereadNumber number, rest) ∨
      (parseValueWithDepth (levels + 1) (CDouble.formatG number ++ rest) :
        Option (JsonValue δ × Bytes)) = none ∨
      ∃ read after, (parseValueWithDepth (levels + 1) (CDouble.formatG number ++ rest) :
        Option (JsonValue δ × Bytes)) = some (read, after) ∧ Stuck after := by
  obtain ⟨sign, body, layout, isSign, isNumeral | notFinite⟩ := prints
  · left
    obtain ⟨value, reads⟩ := parseNumber_append (δ := δ) isSign isNumeral
    have alone := reads [] (by simp [EndsNumber])
    rw [List.append_nil, ← layout] at alone
    obtain ⟨byte, text, head, numeral⟩ := numeral_append_head isSign isNumeral
    rw [layout, rereadNumber, alone, ← reads rest ends, head, List.cons_append,
      parseValueWithDepth_numeral numeral]
  · simp only [List.mem_cons, List.not_mem_nil, or_false] at isSign
    rcases isSign with rfl | rfl
    · right
      left
      rw [layout]
      simp only [List.mem_cons, List.not_mem_nil, or_false] at notFinite
      rcases notFinite with rfl | rfl
      · rfl
      · rfl
    · right
      right
      obtain ⟨read, parsed, stuck⟩ := parseNumber_notFinite (δ := δ) notFinite rest
      refine ⟨read, body ++ rest, ?_, stuck⟩
      rw [layout, List.singleton_append, List.cons_append,
        parseValueWithDepth_numeral (Or.inr rfl), parsed]

theorem PrintsNumber.head {number : δ} (prints : PrintsNumber number) :
    ∃ byte text, CDouble.formatG number = byte :: text ∧ isspace byte = false ∧
      byte ≠ 93 ∧ byte ≠ 123 := by
  obtain ⟨sign, body, layout, isSign, isNumeral | notFinite⟩ := prints
  · obtain ⟨byte, text, head, numeral⟩ := numeral_append_head isSign isNumeral
    obtain ⟨visible, lower, upper⟩ := numeral_head numeral
    exact ⟨byte, text, layout.trans head, visible, by grind, by grind⟩
  · simp only [List.mem_cons, List.not_mem_nil, or_false] at isSign notFinite
    rcases isSign with rfl | rfl
    · rcases notFinite with rfl | rfl
      · exact ⟨105, [110, 102], layout, by decide, by decide, by decide⟩
      · exact ⟨110, [97, 110], layout, by decide, by decide, by decide⟩
    · exact ⟨45, body, layout, by decide, by decide, by decide⟩

end Numerals

theorem printsNumber_rat (number : Rat) : PrintsNumber number := by
  let value := Int64.ofInt number.floor
  have isNumeral : IsNumeral (decimal value.toInt.natAbs) := by
    refine ⟨decimal value.toInt.natAbs, [], [], by simp, decimal_ne_nil _, ?_, Or.inl rfl,
      Or.inl rfl⟩
    exact fun byte member => decimal_isdigit _ byte member
  by_cases sign : value.toInt < 0
  · exact ⟨[45], decimal value.toInt.natAbs, if_pos sign, by decide, Or.inl isNumeral⟩
  · exact ⟨[], decimal value.toInt.natAbs, if_neg sign, by decide, Or.inl isNumeral⟩

end Jdbx
