import Jdbx.Library.Delimited
import Jdbx.Utils.Json

/-!
# The JSON parser

`json_parse` reads a C string, so the end of the byte list is the `NUL` the
source tests for.  Every reader returns the text it leaves behind, and `none`
is the `NULL` of a failed read.  The depth that the source counts upwards to
`MAX_JSON_RECURSION_DEPTH` is counted down here, so that the recursion is on
the levels left.
-/

namespace Jdbx

open Library

def maxJsonRecursionDepth : Nat := 20

def maxJsonInputSize : Nat := 5 * 1024 * 1024

def maxJsonStringLength : Nat := 1024 * 1024

def skipWhitespace (text : Bytes) : Bytes :=
  text.dropWhile isspace

/-- The loop of `parse_string`: the text up to the closing quote, and what
stands after it. -/
def scanString : Nat → Bytes → Option (Bytes × Bytes)
  | _, [] => none
  | charCount, byte :: rest =>
      if byte = 34 then some ([], rest)
      else if charCount ≥ maxJsonStringLength then none
      else if byte = 92 then
        match rest with
        | [] => none
        | next :: after =>
            (scanString (charCount + 2) after).map fun scanned =>
              (byte :: next :: scanned.1, scanned.2)
      else
        (scanString (charCount + 1) rest).map fun scanned =>
          (byte :: scanned.1, scanned.2)

/-- `parse_string`.  The text between the quotes is copied as it stands. -/
def parseString : Bytes → Option (Bytes × Bytes)
  | 34 :: rest =>
      match scanString 0 rest with
      | none => none
      | some (result, after) =>
          if result.length > maxJsonStringLength then none else some (result, after)
  | _ => none

section Values

variable {δ : Type} [CDouble δ]

def digitValue (byte : UInt8) : δ :=
  CDouble.ofInt64 (Int64.ofNat (byte.toNat - 48))

/-- The digits after the decimal point, added to `floatValue`. -/
def addDecimals (floatValue : δ) (digits : Bytes) : δ :=
  (digits.foldl
    (fun (state : δ × δ) byte =>
      (CDouble.add state.1 (CDouble.mul (digitValue byte) state.2),
        CDouble.mul state.2 CDouble.tenth))
    (floatValue, CDouble.tenth)).1

/-- The exponent is accumulated in an `int`, and ten is multiplied that many
times. -/
def scaleByExponent (floatValue : δ) (expNegative : Bool) (digits : Bytes) : δ :=
  let expValue : Int32 :=
    digits.foldl (fun value byte => value * 10 + Int32.ofNat (byte.toNat - 48)) 0
  let exp : δ :=
    Nat.repeat (fun exp => CDouble.mul exp (CDouble.ofInt64 10)) expValue.toInt.toNat
      (CDouble.ofInt64 1)
  if expNegative then CDouble.div floatValue exp else CDouble.mul floatValue exp

def parseSign : Bytes → Bool × Bytes
  | 45 :: rest => (true, rest)
  | rest => (false, rest)

def parseFraction (floatValue : δ) : Bytes → δ × Bool × Bytes
  | 46 :: rest => (addDecimals floatValue (rest.takeWhile isdigit), true, rest.dropWhile isdigit)
  | rest => (floatValue, false, rest)

def parseExponent (floatValue : δ) (isFloat : Bool) (text : Bytes) : δ × Bool × Bytes :=
  match text with
  | byte :: rest =>
      if byte = 101 || byte = 69 then
        let (expNegative, digits) : Bool × Bytes :=
          match rest with
          | 43 :: after => (false, after)
          | after => parseSign after
        (scaleByExponent floatValue expNegative (digits.takeWhile isdigit), true,
          digits.dropWhile isdigit)
      else (floatValue, isFloat, text)
  | [] => (floatValue, isFloat, text)

/-- The number branch of `parse_value_with_depth`. -/
def parseNumber (text : Bytes) : JsonValue δ × Bytes :=
  let (negative, text) := parseSign text
  let digits := text.takeWhile isdigit
  let afterDigits := text.dropWhile isdigit
  let intValue := digits.foldl pushDigit 0
  let floatValue : δ :=
    digits.foldl
      (fun value byte =>
        CDouble.add (CDouble.mul value (CDouble.ofInt64 10)) (digitValue byte))
      (CDouble.ofInt64 0)
  let (floatValue, isFloat, afterPoint) := parseFraction floatValue afterDigits
  let (floatValue, isFloat, afterExponent) := parseExponent floatValue isFloat afterPoint
  let intValue := if negative then -intValue else intValue
  let floatValue := if negative then CDouble.neg floatValue else floatValue
  (if isFloat then .number floatValue else .integer intValue, afterExponent)

/-- The branches of `parse_value_with_depth` that do not recurse. -/
def parseScalar (text : Bytes) : Option (JsonValue δ × Bytes) :=
  match text with
  | [] => none
  | byte :: _ =>
      if byte = 34 then
        (parseString text).map fun parsed => (.string parsed.1, parsed.2)
      else if (ascii "true").isPrefixOf text then some (.boolean true, text.drop 4)
      else if (ascii "false").isPrefixOf text then some (.boolean false, text.drop 5)
      else if (ascii "null").isPrefixOf text then some (.null, text.drop 4)
      else if isdigit byte || byte = 45 then some (parseNumber text)
      else none

/-- One turn of the loop of `parse_object_with_depth`: a key, a colon and a
value. -/
def parseMember (parseValue : Bytes → Option (JsonValue δ × Bytes)) (text : Bytes) :
    Option ((Bytes × JsonValue δ) × Bytes) :=
  match parseString text with
  | none => none
  | some (key, afterKey) =>
      match skipWhitespace afterKey with
      | 58 :: afterColon =>
          (parseValue (skipWhitespace afterColon)).map fun parsed =>
            ((key, parsed.1), parsed.2)
      | _ => none

/-- `json_object_set` of every member read, in order. -/
def objectOfMembers (members : List (Bytes × JsonValue δ)) : List (Bytes × JsonValue δ) :=
  members.foldl (fun entries member => setEntry member.1 member.2 entries) []

mutual

/-- `parse_value_with_depth` with `levels` levels left. -/
def parseValueWithDepth : Nat → Bytes → Option (JsonValue δ × Bytes)
  | 0, _ => none
  | levels + 1, text =>
      match skipWhitespace text with
      | 123 :: rest => parseObjectWithDepth levels rest
      | 91 :: rest => parseArrayWithDepth levels rest
      | other => parseScalar other
termination_by structural levels => levels

/-- `parse_object_with_depth`, after the opening brace. -/
def parseObjectWithDepth : Nat → Bytes → Option (JsonValue δ × Bytes)
  | 0, _ => none
  | levels + 1, text =>
      match skipWhitespace text with
      | 125 :: rest => some (.object [], rest)
      | members =>
          (parseDelimited (parseMember (parseValueWithDepth levels)) skipWhitespace 44 125
            (members.length + 1) members).map fun parsed =>
              (.object (objectOfMembers parsed.1), parsed.2)
termination_by structural levels => levels

/-- `parse_array_with_depth`, after the opening bracket. -/
def parseArrayWithDepth : Nat → Bytes → Option (JsonValue δ × Bytes)
  | 0, _ => none
  | levels + 1, text =>
      match skipWhitespace text with
      | 93 :: rest => some (.array [], rest)
      | items =>
          (parseDelimited (parseValueWithDepth levels) skipWhitespace 44 93
            (items.length + 1) items).map fun parsed => (.array parsed.1, parsed.2)
termination_by structural levels => levels

end

/-- `parse_value`, at depth 0. -/
def parseValue (text : Bytes) : Option (JsonValue δ × Bytes) :=
  parseValueWithDepth (maxJsonRecursionDepth + 1) text

/-! ## Every loop ends -/

omit [CDouble δ] in
theorem skipWhitespace_length (text : Bytes) :
    (skipWhitespace text).length ≤ text.length :=
  (List.dropWhile_suffix isspace).length_le

private theorem dropDigits_length (text : Bytes) :
    (text.dropWhile isdigit).length ≤ text.length :=
  (List.dropWhile_suffix isdigit).length_le

theorem scanString_length :
    ∀ (charCount : Nat) (text content rest : Bytes),
      scanString charCount text = some (content, rest) → rest.length < text.length := by
  intro charCount text
  fun_induction scanString charCount text with
  | case1 charCount =>
      intro content rest result
      exact absurd result (by simp)
  | case2 charCount after =>
      intro content rest result
      cases result
      exact Nat.lt_succ_self _
  | case3 charCount byte after notQuote long =>
      intro content rest result
      exact absurd result (by simp)
  | case4 charCount notQuote short =>
      intro content rest result
      exact absurd result (by simp)
  | case5 charCount notQuote short next after ih =>
      intro content rest result
      obtain ⟨scanned, tailScan, equal⟩ := Option.map_eq_some_iff.mp result
      cases equal
      have shorter := ih _ _ tailScan
      simp only [List.length_cons]
      omega
  | case6 charCount byte after notQuote short notBackslash ih =>
      intro content rest result
      obtain ⟨scanned, tailScan, equal⟩ := Option.map_eq_some_iff.mp result
      cases equal
      have shorter := ih _ _ tailScan
      simp only [List.length_cons]
      omega

theorem parseString_length {text result rest : Bytes}
    (parsed : parseString text = some (result, rest)) : rest.length < text.length := by
  unfold parseString at parsed
  split at parsed
  · split at parsed
    · exact absurd parsed (by simp)
    · rename_i content after scanned
      split at parsed
      · exact absurd parsed (by simp)
      · cases parsed
        exact Nat.lt_succ_of_lt (scanString_length _ _ _ _ scanned)
  · exact absurd parsed (by simp)

theorem parseSign_length (text : Bytes) : (parseSign text).2.length ≤ text.length := by
  unfold parseSign
  split
  · exact Nat.le_succ _
  · exact Nat.le_refl _

theorem parseFraction_length (floatValue : δ) (text : Bytes) :
    (parseFraction floatValue text).2.2.length ≤ text.length := by
  unfold parseFraction
  split
  · exact Nat.le_succ_of_le (dropDigits_length _)
  · exact Nat.le_refl _

theorem parseExponent_length (floatValue : δ) (isFloat : Bool) (text : Bytes) :
    (parseExponent floatValue isFloat text).2.2.length ≤ text.length := by
  unfold parseExponent
  split
  · rename_i byte rest
    split
    · refine Nat.le_succ_of_le (Nat.le_trans (dropDigits_length _) ?_)
      split
      · exact Nat.le_succ _
      · exact parseSign_length _
    · exact Nat.le_refl _
  · exact Nat.le_refl _

theorem parseNumber_length {byte : UInt8} (digit : (isdigit byte || byte = 45) = true)
    (text : Bytes) :
    (parseNumber (byte :: text) : JsonValue δ × Bytes).2.length < (byte :: text).length := by
  have digits :
      ((parseSign (byte :: text)).2.dropWhile isdigit).length ≤ text.length := by
    by_cases minus : byte = 45
    · subst byte
      exact dropDigits_length text
    · have sign : parseSign (byte :: text) = (false, byte :: text) := by
        unfold parseSign
        split
        · rename_i rest equal
          exact absurd (List.cons.inj equal).1 minus
        · rfl
      have isDigit : isdigit byte = true := by
        simpa [minus] using digit
      rw [sign, List.dropWhile_cons_of_pos isDigit]
      exact dropDigits_length text
  refine Nat.lt_succ_of_le (Nat.le_trans ?_ digits)
  exact Nat.le_trans (parseExponent_length _ _ _) (parseFraction_length _ _)

theorem parseScalar_length {text rest : Bytes} {value : JsonValue δ}
    (parsed : parseScalar text = some (value, rest)) : rest.length < text.length := by
  unfold parseScalar at parsed
  split at parsed
  · exact absurd parsed (by simp)
  · rename_i byte tail
    split_ifs at parsed with quote isTrue isFalse isNull digit
    · obtain ⟨result, stringParsed, equal⟩ := Option.map_eq_some_iff.mp parsed
      cases equal
      exact parseString_length stringParsed
    all_goals
      cases parsed
    iterate 3
      rw [List.length_drop, List.length_cons]
      omega
    exact parseNumber_length digit tail

omit [CDouble δ] in
theorem parseMember_length {parseValue : Bytes → Option (JsonValue δ × Bytes)}
    (shorter : ∀ text value rest, parseValue text = some (value, rest) →
      rest.length ≤ text.length)
    {text rest : Bytes} {member : Bytes × JsonValue δ}
    (parsed : parseMember parseValue text = some (member, rest)) :
    rest.length ≤ text.length := by
  unfold parseMember at parsed
  split at parsed
  · exact absurd parsed (by simp)
  · rename_i key afterKey keyParsed
    have keyShorter := parseString_length keyParsed
    have colonShorter := skipWhitespace_length afterKey
    split at parsed
    · rename_i afterColon colon
      obtain ⟨result, valueParsed, equal⟩ := Option.map_eq_some_iff.mp parsed
      cases equal
      have valueShorter := shorter _ _ _ valueParsed
      have spaceShorter := skipWhitespace_length afterColon
      rw [colon, List.length_cons] at colonShorter
      omega
    · exact absurd parsed (by simp)

mutual

theorem parseValueWithDepth_length :
    ∀ (levels : Nat) (text : Bytes) (value : JsonValue δ) (rest : Bytes),
      parseValueWithDepth levels text = some (value, rest) → rest.length < text.length
  | 0, _, _, _, parsed => by
      exact absurd parsed (by simp [parseValueWithDepth])
  | levels + 1, text, value, rest, parsed => by
      have spaceShorter := skipWhitespace_length text
      rw [parseValueWithDepth] at parsed
      split at parsed
      · rename_i after first
        have inner := parseObjectWithDepth_length levels after value rest parsed
        rw [first, List.length_cons] at spaceShorter
        omega
      · rename_i after first
        have inner := parseArrayWithDepth_length levels after value rest parsed
        rw [first, List.length_cons] at spaceShorter
        omega
      · exact Nat.lt_of_lt_of_le (parseScalar_length parsed) spaceShorter

theorem parseObjectWithDepth_length :
    ∀ (levels : Nat) (text : Bytes) (value : JsonValue δ) (rest : Bytes),
      parseObjectWithDepth levels text = some (value, rest) → rest.length < text.length
  | 0, _, _, _, parsed => by
      exact absurd parsed (by simp [parseObjectWithDepth])
  | levels + 1, text, value, rest, parsed => by
      have spaceShorter := skipWhitespace_length text
      rw [parseObjectWithDepth] at parsed
      split at parsed
      · rename_i after first
        cases parsed
        rw [first, List.length_cons] at spaceShorter
        omega
      · obtain ⟨result, loop, equal⟩ := Option.map_eq_some_iff.mp parsed
        cases equal
        exact Nat.lt_of_lt_of_le
          (parseDelimited_length
            { item_length := fun _ _ _ => parseMember_length fun text value rest read =>
                Nat.le_of_lt (parseValueWithDepth_length levels text value rest read)
              skip_length := skipWhitespace_length } _ _ _ _ loop) spaceShorter

theorem parseArrayWithDepth_length :
    ∀ (levels : Nat) (text : Bytes) (value : JsonValue δ) (rest : Bytes),
      parseArrayWithDepth levels text = some (value, rest) → rest.length < text.length
  | 0, _, _, _, parsed => by
      exact absurd parsed (by simp [parseArrayWithDepth])
  | levels + 1, text, value, rest, parsed => by
      have spaceShorter := skipWhitespace_length text
      rw [parseArrayWithDepth] at parsed
      split at parsed
      · rename_i after first
        cases parsed
        rw [first, List.length_cons] at spaceShorter
        omega
      · obtain ⟨result, loop, equal⟩ := Option.map_eq_some_iff.mp parsed
        cases equal
        exact Nat.lt_of_lt_of_le
          (parseDelimited_length
            { item_length := fun text value rest read =>
                Nat.le_of_lt (parseValueWithDepth_length levels text value rest read)
              skip_length := skipWhitespace_length } _ _ _ _ loop) spaceShorter

end

theorem parseLoops_fuel (levels fuel : Nat) (text : Bytes) (enough : text.length < fuel) :
    parseDelimited (parseMember (parseValueWithDepth (δ := δ) levels)) skipWhitespace 44 125
          (text.length + 1) text =
        parseDelimited (parseMember (parseValueWithDepth (δ := δ) levels)) skipWhitespace 44 125
          fuel text ∧
      parseDelimited (parseValueWithDepth (δ := δ) levels) skipWhitespace 44 93
          (text.length + 1) text =
        parseDelimited (parseValueWithDepth (δ := δ) levels) skipWhitespace 44 93 fuel text := by
  have valueShorter :
      ∀ (text : Bytes) (value : JsonValue δ) (rest : Bytes),
        parseValueWithDepth levels text = some (value, rest) → rest.length ≤ text.length :=
    fun text value rest parsed =>
      Nat.le_of_lt (parseValueWithDepth_length levels text value rest parsed)
  constructor
  · exact
      parseDelimited_fuel
        { item_length := fun _ _ _ => parseMember_length valueShorter
          skip_length := skipWhitespace_length } _ _ text (Nat.lt_succ_self _) enough
  · exact
      parseDelimited_fuel
        { item_length := valueShorter
          skip_length := skipWhitespace_length } _ _ text (Nat.lt_succ_self _) enough

end Values

/-- The counters of the scan in front of `json_parse`. -/
structure BraceScan where
  openBraces : Nat
  closeBraces : Nat
  openBrackets : Nat
  closeBrackets : Nat
  inString : Bool
  escaped : Bool
  deriving DecidableEq, Repr

namespace BraceScan

def start : BraceScan :=
  { openBraces := 0, closeBraces := 0, openBrackets := 0, closeBrackets := 0,
    inString := false, escaped := false }

def step (scan : BraceScan) (byte : UInt8) : BraceScan :=
  if scan.inString then
    if scan.escaped then { scan with escaped := false }
    else if byte = 92 then { scan with escaped := true }
    else if byte = 34 then { scan with inString := false }
    else scan
  else if byte = 123 then { scan with openBraces := scan.openBraces + 1 }
  else if byte = 125 then { scan with closeBraces := scan.closeBraces + 1 }
  else if byte = 91 then { scan with openBrackets := scan.openBrackets + 1 }
  else if byte = 93 then { scan with closeBrackets := scan.closeBrackets + 1 }
  else if byte = 34 then { scan with inString := true }
  else scan

def malformed (scan : BraceScan) : Bool :=
  scan.openBraces > scan.closeBraces + 10 || scan.openBrackets > scan.closeBrackets + 10

end BraceScan

/-- `json_parse`.  Text after the first value is ignored. -/
def jsonParse {δ : Type} [CDouble δ] (jsonStr : Bytes) : Option (JsonValue δ) :=
  if jsonStr.length > maxJsonInputSize then none
  else if (jsonStr.foldl BraceScan.step BraceScan.start).malformed then none
  else (parseValue jsonStr).map Prod.fst

end Jdbx
