import Jdbx.Utils.JsonNumbers
import Jdbx.Utils.JsonTexts

/-!
# Number literals

The number branch of the parser accumulates the digits of a literal in an `int64_t`, however
many there are, and calls the literal an integer when it has no fraction and no exponent.
-/

namespace Jdbx

open Library

namespace Library.JsonNumeral

def IsInteger (literal : JsonNumeral) : Prop :=
  literal.frac = none ∧ literal.exp = none

instance (literal : JsonNumeral) : Decidable literal.IsInteger :=
  inferInstanceAs (Decidable (_ ∧ _))

def signedInt (literal : JsonNumeral) : ℤ :=
  if literal.negative then -(digitsValue literal.int : ℤ) else digitsValue literal.int

variable {literal : JsonNumeral}

theorem WellFormed.int_digits (wellFormed : literal.WellFormed) :
    literal.int ≠ [] ∧ ∀ byte ∈ literal.int, isdigit byte = true := by
  rcases wellFormed.int with zero | ⟨nonempty, -, digits⟩
  · rw [zero]
    exact ⟨List.cons_ne_nil _ _, by decide +kernel⟩
  · exact ⟨nonempty, List.all_eq_true.mp digits⟩

def behindInt (literal : JsonNumeral) : Bytes :=
  literal.frac.elim [] (fun digits => 46 :: digits) ++
    literal.exp.elim [] (fun parts => parts.1 :: (parts.2.1 ++ parts.2.2))

theorem WellFormed.behindInt_head (wellFormed : literal.WellFormed) :
    ∀ byte ∈ literal.behindInt.head?, isdigit byte = false := by
  intro byte first
  rw [behindInt] at first
  cases fraction : literal.frac with
  | some digits =>
      rw [fraction] at first
      obtain rfl : 46 = byte := Option.some.inj first
      rfl
  | none =>
      cases exponent : literal.exp with
      | none =>
          rw [fraction, exponent] at first
          cases first
      | some parts =>
          have markers : ∀ marker ∈ ([101, 69] : Bytes), isdigit marker = false := by
            decide +kernel
          rw [fraction, exponent] at first
          rw [← show parts.1 = byte from Option.some.inj first]
          exact markers _ (wellFormed.exp parts exponent).1

theorem IsInteger.value (isInteger : literal.IsInteger) :
    literal.value = literal.signedInt := by
  simp only [JsonNumeral.value, exponent, signedInt, isInteger.1, isInteger.2, Option.elim_none,
    Option.getD_none, List.append_nil, List.length_nil, Nat.cast_zero, sub_zero, zpow_zero, mul_one]
  split_ifs
  · rw [Int.cast_neg, Int.cast_natCast]
  · rw [Int.cast_natCast]

end Library.JsonNumeral

/-! ## Digits in an `int64_t` -/

theorem digitsValue_append_singleton (digits : Bytes) (digit : UInt8) :
    digitsValue (digits ++ [digit]) = digitsValue digits * 10 + (digit.toNat - 48) := by
  rw [digitsValue, List.foldl_append]
  rfl

theorem foldl_pushDigit_eq (digits : Bytes) :
    digits.foldl pushDigit 0 = Int64.ofNat (digitsValue digits) := by
  induction digits using List.reverseRecOn with
  | nil => rfl
  | append_singleton digits digit ih =>
      rw [List.foldl_append, ih, digitsValue_append_singleton, Int64.ofNat_add,
        Int64.ofNat_mul]
      rfl

section Literals

variable {δ : Type} [CDouble δ] {literal : JsonNumeral}

def storedInteger (literal : JsonNumeral) : Int64 :=
  Int64.ofInt literal.signedInt

omit [CDouble δ] in
theorem storedInteger_eq (literal : JsonNumeral) :
    storedInteger literal =
      if literal.negative then -Int64.ofNat (digitsValue literal.int)
      else Int64.ofNat (digitsValue literal.int) := by
  rw [storedInteger, JsonNumeral.signedInt]
  split_ifs
  · rw [Int64.ofInt_neg, Int64.ofInt_eq_ofNat]
  · exact Int64.ofInt_eq_ofNat

omit [CDouble δ] in
theorem storedInteger_toInt (lower : -2 ^ 63 ≤ literal.signedInt)
    (upper : literal.signedInt < 2 ^ 63) :
    (storedInteger literal).toInt = literal.signedInt :=
  Int64.toInt_ofInt_of_le lower upper

omit [CDouble δ] in
theorem digitsValue_large (first : UInt8) (others : Bytes) :
    (first.toNat - 48) * 10 ^ others.length ≤ digitsValue (first :: others) := by
  induction others using List.reverseRecOn with
  | nil => simp [digitsValue]
  | append_singleton others digit ih =>
      rw [← List.cons_append, digitsValue_append_singleton, List.length_append,
        List.length_singleton, Nat.pow_succ, ← Nat.mul_assoc]
      omega

omit [CDouble δ] in
theorem signedInt_long (wellFormed : literal.WellFormed) (isInteger : literal.IsInteger)
    (long : maxJsonInputSize < literal.text.length) :
    literal.signedInt < -2 ^ 63 ∨ 2 ^ 63 ≤ literal.signedInt := by
  have length : 20 < literal.int.length := by
    have signLength : literal.text.length ≤ literal.int.length + 1 := by
      simp only [JsonNumeral.text, isInteger.1, isInteger.2, Option.elim_none, List.append_nil,
        List.length_append]
      split_ifs
      · rw [List.length_singleton, Nat.add_comm]
      · rw [List.length_nil, Nat.zero_add]
        exact Nat.le_succ _
    have limit : 21 < maxJsonInputSize := by
      decide
    omega
  have large : 2 ^ 63 < digitsValue literal.int := by
    rcases wellFormed.int with zero | ⟨nonempty, notZero, digits⟩
    · rw [zero] at length
      cases Nat.not_lt.mpr (by decide) length
    · obtain ⟨first, others, int⟩ := List.exists_cons_of_ne_nil nonempty
      rw [int] at length notZero digits ⊢
      have positive : 1 ≤ first.toNat - 48 := by
        have isDigit := List.all_eq_true.mp digits first List.mem_cons_self
        simp only [isdigit, Bool.and_eq_true, decide_eq_true_eq, UInt8.le_iff_toNat_le] at isDigit
        have different : first.toNat ≠ 48 := fun same =>
          notZero (congrArg some (UInt8.toNat_inj.mp same))
        have lower : 48 ≤ first.toNat := isDigit.1
        omega
      calc 2 ^ 63 < 10 ^ 20 := by decide
        _ ≤ 10 ^ others.length := Nat.pow_le_pow_right (by decide) (Nat.lt_succ_iff.mp length)
        _ ≤ (first.toNat - 48) * 10 ^ others.length := Nat.le_mul_of_pos_left _ positive
        _ ≤ digitsValue (first :: others) := digitsValue_large first others
  rw [JsonNumeral.signedInt]
  split_ifs
  · exact Or.inl (by omega)
  · exact Or.inr (by omega)

theorem parseExponent_isFloat (floatValue : δ) (text : Bytes) :
    (parseExponent floatValue true text).2.1 = true := by
  cases text with
  | nil => rfl
  | cons byte rest =>
      unfold parseExponent
      simp only
      split_ifs
      · rfl
      · rfl

theorem parseExponent_marker (floatValue : δ) (isFloat : Bool) {marker : UInt8}
    (isMarker : marker ∈ ([101, 69] : Bytes)) (text : Bytes) :
    (parseExponent floatValue isFloat (marker :: text)).2.1 = true := by
  have accepted : (marker = 101 || marker = 69) = true := by
    simpa using isMarker
  unfold parseExponent
  simp only [accepted, ↓reduceIte]

theorem parsed_isFloat (wellFormed : literal.WellFormed) (floatValue : δ) :
    (parseExponent (parseFraction floatValue literal.behindInt).1
      (parseFraction floatValue literal.behindInt).2.1
        (parseFraction floatValue literal.behindInt).2.2).2.1 = !decide literal.IsInteger := by
  rw [JsonNumeral.behindInt]
  cases fraction : literal.frac with
  | some digits =>
      have notInteger : ¬ literal.IsInteger := fun isInteger => by
        cases fraction.symm.trans isInteger.1
      rw [decide_eq_false notInteger]
      exact parseExponent_isFloat _ _
  | none =>
      cases exponent : literal.exp with
      | none =>
          rw [decide_eq_true ⟨fraction, exponent⟩]
          rfl
      | some parts =>
          have notInteger : ¬ literal.IsInteger := fun isInteger => by
            cases exponent.symm.trans isInteger.2
          have marker := (wellFormed.exp parts exponent).1
          have notPoint : parts.1 ≠ 46 := by
            intro point
            rw [point] at marker
            exact absurd marker (by decide)
          have noFraction : parseFraction floatValue (parts.1 :: (parts.2.1 ++ parts.2.2)) =
              (floatValue, false, parts.1 :: (parts.2.1 ++ parts.2.2)) := by
            unfold parseFraction
            split
            · rename_i rest same
              exact absurd (List.cons.inj same).1 notPoint
            · rfl
          rw [decide_eq_false notInteger, Option.elim_none, List.nil_append, Option.elim_some,
            noFraction]
          exact parseExponent_marker floatValue false marker _

theorem parseNumber_literal (wellFormed : literal.WellFormed) :
    ∃ number : δ, (parseNumber literal.text).1 =
      if literal.IsInteger then .integer (storedInteger literal) else .number number := by
  obtain ⟨nonempty, digits⟩ := wellFormed.int_digits
  obtain ⟨taken, dropped⟩ := takeWhile_digits digits wellFormed.behindInt_head
  have signed : parseSign literal.text =
      (literal.negative, literal.int ++ literal.behindInt) := by
    rw [JsonNumeral.text]
    cases literal.negative
    · exact parseSign_append List.mem_cons_self nonempty digits _
    · rfl
  simp only [parseNumber, signed, taken, dropped, parsed_isFloat wellFormed, foldl_pushDigit_eq,
    ← storedInteger_eq]
  by_cases isInteger : literal.IsInteger
  · exact ⟨CDouble.tenth, by simp [isInteger]⟩
  · simp only [isInteger, decide_false, Bool.not_false, ↓reduceIte, JsonValue.number.injEq,
      exists_eq']

omit [CDouble δ] in
theorem numeral_neutral (wellFormed : literal.WellFormed) :
    ∀ byte ∈ literal.text, byte ≠ 123 ∧ byte ≠ 125 ∧ byte ≠ 91 ∧ byte ≠ 93 ∧ byte ≠ 34 := by
  have digit : ∀ byte : UInt8, isdigit byte = true →
      byte ≠ 123 ∧ byte ≠ 125 ∧ byte ≠ 91 ∧ byte ≠ 93 ∧ byte ≠ 34 := by
    intro byte digit
    refine ⟨?_, ?_, ?_, ?_, ?_⟩
    all_goals
      rintro rfl
      cases digit
  have others : ∀ byte ∈ ([45, 46, 43, 101, 69] : Bytes),
      byte ≠ 123 ∧ byte ≠ 125 ∧ byte ≠ 91 ∧ byte ≠ 93 ∧ byte ≠ 34 := by
    decide +kernel
  have signs : ∀ sign ∈ ([[], [43], [45]] : List Bytes), ∀ byte ∈ sign,
      byte ∈ ([45, 46, 43, 101, 69] : Bytes) := by
    decide +kernel
  have markers : ∀ marker ∈ ([101, 69] : Bytes), marker ∈ ([45, 46, 43, 101, 69] : Bytes) := by
    decide +kernel
  intro byte member
  rw [JsonNumeral.text, List.mem_append, List.mem_append, List.mem_append] at member
  rcases member with minus | int | fraction | exponent
  · split_ifs at minus
    · rw [List.mem_singleton.mp minus]
      exact others 45 (by decide)
    · cases minus
  · exact digit byte (wellFormed.int_digits.2 byte int)
  · cases found : literal.frac with
    | none =>
        rw [found] at fraction
        cases fraction
    | some digits =>
        rw [found] at fraction
        rcases List.mem_cons.mp fraction with rfl | behind
        · exact others 46 (by decide)
        · exact digit byte (List.all_eq_true.mp (wellFormed.frac digits found).2 byte behind)
  · cases found : literal.exp with
    | none =>
        rw [found] at exponent
        cases exponent
    | some parts =>
        obtain ⟨marker, sign, -, digits⟩ := wellFormed.exp parts found
        rw [found] at exponent
        rcases List.mem_cons.mp exponent with rfl | behind
        · exact others _ (markers _ marker)
        · rcases List.mem_append.mp behind with inSign | inDigits
          · exact others byte (signs _ sign byte inSign)
          · exact digit byte (List.all_eq_true.mp digits byte inDigits)

omit [CDouble δ] in
theorem numeral_text_head (wellFormed : literal.WellFormed) :
    ∃ byte rest, literal.text = byte :: rest ∧ (isdigit byte = true ∨ byte = 45) := by
  obtain ⟨nonempty, digits⟩ := wellFormed.int_digits
  obtain ⟨first, others, int⟩ := List.exists_cons_of_ne_nil nonempty
  rw [JsonNumeral.text]
  cases literal.negative
  · rw [int] at digits ⊢
    exact ⟨first, _, rfl, Or.inl (digits first List.mem_cons_self)⟩
  · exact ⟨45, _, rfl, Or.inr rfl⟩

theorem jsonParse_literal (wellFormed : literal.WellFormed)
    (fits : literal.text.length ≤ maxJsonInputSize) :
    (jsonParse literal.text : Option (JsonValue δ)) = some (parseNumber literal.text).1 := by
  have balanced := not_malformed_of_balanced (balanced_of_neutral (numeral_neutral wellFormed))
  obtain ⟨byte, rest, text, numeral⟩ := numeral_text_head wellFormed
  rw [jsonParse, if_neg (Nat.not_lt.mpr fits), if_neg (by rw [balanced]; exact Bool.false_ne_true),
    parseValue, text, parseValueWithDepth_numeral numeral, Option.map_some]

/-- `json_parse` makes an integer of the literal only if it is an integer literal of that value,
and makes the value of every integer literal in the range of an `int64_t`. -/
def ReadExactly (δ : Type) [CDouble δ] (literal : JsonNumeral) : Prop :=
  (∀ n : Int64, (jsonParse literal.text : Option (JsonValue δ)) = some (.integer n) →
      literal.IsInteger ∧ literal.value = n.toInt) ∧
    ∀ n : Int64, literal.IsInteger → literal.value = n.toInt →
      (jsonParse literal.text : Option (JsonValue δ)) = some (.integer n)

/-- The parser reads a literal exactly, except an integer literal that it accepts and whose
value does not fit in 64 bits. -/
theorem readExactly_iff {literal : JsonNumeral} (wellFormed : literal.WellFormed) :
    ReadExactly δ literal ↔
      (literal.IsInteger → literal.text.length ≤ maxJsonInputSize →
        -2 ^ 63 ≤ literal.signedInt ∧ literal.signedInt < 2 ^ 63) := by
  obtain ⟨number, parsed⟩ := parseNumber_literal (δ := δ) wellFormed
  constructor
  · intro reads isInteger fits
    have read : (jsonParse literal.text : Option (JsonValue δ)) =
        some (.integer (storedInteger literal)) := by
      rw [jsonParse_literal wellFormed fits, parsed, if_pos isInteger]
    have value := (reads.1 _ read).2
    rw [isInteger.value, Int.cast_inj] at value
    rw [value]
    exact ⟨Int64.le_toInt _, Int64.toInt_lt _⟩
  · intro inRange
    by_cases fits : literal.text.length ≤ maxJsonInputSize
    · refine ⟨fun n read => ?_, fun n isInteger value => ?_⟩
      · rw [jsonParse_literal wellFormed fits, parsed] at read
        split_ifs at read with isInteger
        · obtain ⟨lower, upper⟩ := inRange isInteger fits
          rw [← JsonValue.integer.inj (Option.some.inj read), isInteger.value,
            storedInteger_toInt lower upper]
          exact ⟨isInteger, rfl⟩
        · cases read
      · rw [isInteger.value, Int.cast_inj] at value
        rw [jsonParse_literal wellFormed fits, parsed, if_pos isInteger, storedInteger, value,
          Int64.ofInt_toInt]
    · have refused : (jsonParse literal.text : Option (JsonValue δ)) = none := by
        rw [jsonParse, if_pos (Nat.not_le.mp fits)]
      refine ⟨fun n read => ?_, fun n isInteger value => ?_⟩
      · rw [refused] at read
        cases read
      · rw [isInteger.value, Int.cast_inj] at value
        have long := signedInt_long wellFormed isInteger (Nat.not_le.mp fits)
        have lower := Int64.le_toInt n
        have upper := Int64.toInt_lt n
        omega

/-- The most negative `int64_t`. -/
def smallestLiteral : JsonNumeral :=
  ⟨true, ascii "9223372036854775808", none, none⟩

theorem readExactly_smallestLiteral :
    smallestLiteral.WellFormed ∧ ReadExactly Rat smallestLiteral := by
  have wellFormed : smallestLiteral.WellFormed :=
    ⟨Or.inr ⟨by decide, by decide, by decide⟩, nofun, nofun⟩
  exact ⟨wellFormed, (readExactly_iff wellFormed).mpr fun _ _ => by decide⟩

/-- One more than the largest `int64_t`. -/
def largeLiteral : JsonNumeral :=
  ⟨false, ascii "9223372036854775808", none, none⟩

/-- The literal comes back as the most negative integer. -/
theorem not_readExactly_largeLiteral :
    largeLiteral.WellFormed ∧
      (jsonParse largeLiteral.text : Option (JsonValue Rat)) = some (.integer (-2 ^ 63)) ∧
        ¬ ReadExactly Rat largeLiteral := by
  have wellFormed : largeLiteral.WellFormed :=
    ⟨Or.inr ⟨by decide, by decide, by decide⟩, nofun, nofun⟩
  have isInteger : largeLiteral.IsInteger :=
    ⟨rfl, rfl⟩
  have read : (jsonParse largeLiteral.text : Option (JsonValue Rat)) =
      some (.integer (-2 ^ 63)) := by
    obtain ⟨number, parsed⟩ := parseNumber_literal (δ := Rat) wellFormed
    rw [jsonParse_literal wellFormed (by decide), parsed, if_pos isInteger]
    have stored : storedInteger largeLiteral = -2 ^ 63 := by
      decide +kernel
    rw [stored]
  refine ⟨wellFormed, read, fun reads => ?_⟩
  have value := (reads.1 _ read).2
  rw [isInteger.value, Int.cast_inj] at value
  exact absurd value (by decide +kernel)

end Literals

end Jdbx
