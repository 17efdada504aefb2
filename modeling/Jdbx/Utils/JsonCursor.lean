import Jdbx.Utils.JsonParse
import Jdbx.Library.Scanner

/-!
# The cursor of the JSON parser

`json_parse` as it runs: the readers share a pointer into the string that they look through and
move on, and count their depth upwards.  They never look or move behind the NUL, they end, and
they leave what the readers of `JsonParse` say.
-/

namespace Jdbx

open Library

/-! ## The readers -/

section Readers

variable (text : Bytes)

def position : Scan Nat := fun state => .ok (state.cursor, state)

/-- `skip_whitespace`. -/
def skipWhitespaceAt (fuel : Nat) : Scan Unit :=
  scanWhile text (fun byte => byte ≠ 0 && isspace byte) (fun _ _ => ()) fuel ()

/-- The loop of `parse_string`: whether it goes on behind the loop. -/
def scanStringAt : Nat → Nat → Scan Bool
  | 0, _ => throw .outOfFuel
  | fuel + 1, charCount => do
      let byte ← look text 0
      if byte = 0 ∨ byte = 34 then pure true
      else if charCount ≥ maxJsonStringLength then pure false
      else if byte = 92 then do
        let next ← look text 1
        if next ≠ 0 then do
          advance text 1
          advance text 1
          scanStringAt fuel (charCount + 2)
        else do
          advance text 1
          scanStringAt fuel (charCount + 1)
      else do
        advance text 1
        scanStringAt fuel (charCount + 1)

/-- What `parse_string` does behind its loop. -/
def closeStringAt (start : Nat) : Scan (Option Bytes) := do
  let byte ← look text 0
  if byte = 34 then do
    let stop ← position
    if stop - start > maxJsonStringLength then pure none
    else do
      let result ← copiedFrom text start
      advance text 1
      pure (some result)
  else pure none

/-- `parse_string`. -/
def parseStringAt (fuel : Nat) : Scan (Option Bytes) := do
  let byte ← look text 0
  if byte ≠ 34 then pure none
  else do
    advance text 1
    let start ← position
    let goesOn ← scanStringAt text fuel 0
    if goesOn then closeStringAt text start else pure none

def signAt : Scan Bool := do
  let byte ← look text 0
  if byte = 45 then do
    advance text 1
    pure true
  else pure false

def exponentSignAt : Scan Bool := do
  let byte ← look text 0
  if byte = 43 then do
    advance text 1
    pure false
  else signAt text

variable {δ : Type} [CDouble δ]

def fractionAt (fuel : Nat) (floatValue : δ) : Scan (δ × Bool) := do
  let byte ← look text 0
  if byte = 46 then do
    advance text 1
    let value ← scanWhile text isdigit
      (fun (state : δ × δ) byte =>
        (CDouble.add state.1 (CDouble.mul (digitValue byte) state.2),
          CDouble.mul state.2 CDouble.tenth))
      fuel (floatValue, CDouble.tenth)
    pure (value.1, true)
  else pure (floatValue, false)

def scaled (floatValue : δ) (expNegative : Bool) (expValue : Int32) : δ :=
  let exp : δ :=
    Nat.repeat (fun exp => CDouble.mul exp (CDouble.ofInt64 10)) expValue.toInt.toNat
      (CDouble.ofInt64 1)
  if expNegative then CDouble.div floatValue exp else CDouble.mul floatValue exp

def exponentAt (fuel : Nat) (floatValue : δ) (isFloat : Bool) : Scan (δ × Bool) := do
  let byte ← look text 0
  if byte = 101 || byte = 69 then do
    advance text 1
    let expNegative ← exponentSignAt text
    let expValue ← scanWhile text isdigit
      (fun (value : Int32) byte => value * 10 + Int32.ofNat (byte.toNat - 48)) fuel 0
    pure (scaled floatValue expNegative expValue, true)
  else pure (floatValue, isFloat)

/-- The number branch of `parse_value_with_depth`. -/
def parseNumberAt (fuel : Nat) : Scan (JsonValue δ) := do
  let negative ← signAt text
  let digits ← scanWhile text isdigit
    (fun (value : Int64 × δ) byte =>
      (pushDigit value.1 byte,
        CDouble.add (CDouble.mul value.2 (CDouble.ofInt64 10)) (digitValue byte)))
    fuel (0, CDouble.ofInt64 0)
  let fraction ← fractionAt text fuel digits.2
  let exponent ← exponentAt text fuel fraction.1 fraction.2
  let intValue := if negative then -digits.1 else digits.1
  let floatValue := if negative then CDouble.neg exponent.1 else exponent.1
  pure (if exponent.2 then .number floatValue else .integer intValue)

/-- `*cursor == first && strncmp(cursor, word, strlen(word)) == 0`. -/
def wordAt (byte first : UInt8) (word : Bytes) : Scan Bool :=
  if byte = first then startsWith text word 0 else pure false

/-- The branches of `parse_value_with_depth` that do not recurse. -/
def parseScalarAt (fuel : Nat) (byte : UInt8) : Scan (Option (JsonValue δ)) :=
  if byte = 34 then do
    let string ← parseStringAt text fuel
    pure (string.map JsonValue.string)
  else do
    let isTrue ← wordAt text byte 116 (ascii "true")
    if isTrue then do
      advance text 4
      pure (some (.boolean true))
    else do
      let isFalse ← wordAt text byte 102 (ascii "false")
      if isFalse then do
        advance text 5
        pure (some (.boolean false))
      else do
        let isNull ← wordAt text byte 110 (ascii "null")
        if isNull then do
          advance text 4
          pure (some .null)
        else if isdigit byte || byte = 45 then do
          let number ← parseNumberAt text fuel
          pure (some number)
        else pure none

mutual

/-- `parse_value_with_depth`. -/
def parseValueAt : Nat → Nat → Scan (Option (JsonValue δ))
  | 0, _ => throw .outOfFuel
  | fuel + 1, depth =>
    if depth > maxJsonRecursionDepth then pure none
    else do
      enter depth
      skipWhitespaceAt text fuel
      let byte ← look text 0
      if byte = 0 then pure none
      else if byte = 123 then parseObjectAt fuel (depth + 1)
      else if byte = 91 then parseArrayAt fuel (depth + 1)
      else parseScalarAt text fuel byte
termination_by structural fuel => fuel

/-- `parse_object_with_depth`. -/
def parseObjectAt : Nat → Nat → Scan (Option (JsonValue δ))
  | 0, _ => throw .outOfFuel
  | fuel + 1, depth =>
    if depth > maxJsonRecursionDepth then pure none
    else do
      enter depth
      let first ← look text 0
      if first ≠ 123 then pure none
      else do
        advance text 1
        skipWhitespaceAt text fuel
        let byte ← look text 0
        if byte = 125 then do
          advance text 1
          pure (some (.object []))
        else objectLoopAt fuel depth []
termination_by structural fuel => fuel

/-- The loop of `parse_object_with_depth`. -/
def objectLoopAt : Nat → Nat → List (Bytes × JsonValue δ) → Scan (Option (JsonValue δ))
  | 0, _, _ => throw .outOfFuel
  | fuel + 1, depth, entries => do
      skipWhitespaceAt text fuel
      let key ← parseStringAt text fuel
      match key with
      | none => pure none
      | some key => do
          skipWhitespaceAt text fuel
          let colon ← look text 0
          if colon ≠ 58 then pure none
          else do
            advance text 1
            skipWhitespaceAt text fuel
            let value ← parseValueAt fuel (depth + 1)
            match value with
            | none => pure none
            | some value => do
                skipWhitespaceAt text fuel
                let byte ← look text 0
                if byte = 44 then do
                  advance text 1
                  objectLoopAt fuel depth (setEntry key value entries)
                else if byte = 125 then do
                  advance text 1
                  pure (some (.object (setEntry key value entries)))
                else pure none
termination_by structural fuel => fuel

/-- `parse_array_with_depth`. -/
def parseArrayAt : Nat → Nat → Scan (Option (JsonValue δ))
  | 0, _ => throw .outOfFuel
  | fuel + 1, depth =>
    if depth > maxJsonRecursionDepth then pure none
    else do
      enter depth
      let first ← look text 0
      if first ≠ 91 then pure none
      else do
        advance text 1
        skipWhitespaceAt text fuel
        let byte ← look text 0
        if byte = 93 then do
          advance text 1
          pure (some (.array []))
        else arrayLoopAt fuel depth []
termination_by structural fuel => fuel

/-- The loop of `parse_array_with_depth`. -/
def arrayLoopAt : Nat → Nat → List (JsonValue δ) → Scan (Option (JsonValue δ))
  | 0, _, _ => throw .outOfFuel
  | fuel + 1, depth, items => do
      skipWhitespaceAt text fuel
      let value ← parseValueAt fuel (depth + 1)
      match value with
      | none => pure none
      | some value => do
          skipWhitespaceAt text fuel
          let byte ← look text 0
          if byte = 44 then do
            advance text 1
            arrayLoopAt fuel depth (items ++ [value])
          else if byte = 93 then do
            advance text 1
            pure (some (.array (items ++ [value])))
          else pure none
termination_by structural fuel => fuel

end

/-- `strlen`. -/
def strlenAt : Nat → Nat → Scan Nat
  | 0, _ => throw .outOfFuel
  | fuel + 1, index => do
      let byte ← look text index
      if byte = 0 then pure index else strlenAt fuel (index + 1)

def scanBracesAt (inputLength : Nat) : Nat → Nat → BraceScan → Scan BraceScan
  | 0, _, _ => throw .outOfFuel
  | fuel + 1, index, scan =>
    if index < inputLength then do
      let byte ← look text index
      scanBracesAt inputLength fuel (index + 1) (scan.step byte)
    else pure scan

/-- `json_parse`, from the start of the string. -/
def jsonParseAt (fuel : Nat) : Scan (Option (JsonValue δ)) := do
  let inputLength ← strlenAt text fuel 0
  if inputLength > maxJsonInputSize then pure none
  else do
    let scan ← scanBracesAt text inputLength fuel 0 BraceScan.start
    if scan.malformed then pure none else parseValueAt text fuel 0

end Readers

/-! ## What the readers leave -/

section Outcomes

variable {text rest : Bytes} {state : ScanState} {α : Type} {outcome : Option (α × Bytes)}

/-- The scan stands in front of `rest` at an allowed depth. -/
abbrev At (text rest : Bytes) (state : ScanState) : Prop :=
  Stands text maxJsonRecursionDepth rest state

def Takes (text : Bytes) (outcome : α × Bytes) (result : α) (after : ScanState) : Prop :=
  result = outcome.1 ∧ At text outcome.2 after

def Leaves (text : Bytes) (outcome : Option (α × Bytes)) (result : Option α)
    (after : ScanState) : Prop :=
  result = outcome.map Prod.fst ∧ ∃ left, At text left after ∧
    ∀ read ∈ outcome, left = read.2

theorem leaves_none (stands : At text rest state) :
    Leaves text (none : Option (α × Bytes)) none state :=
  ⟨rfl, rest, stands, nofun⟩

theorem leaves_some {value : α} (stands : At text rest state) :
    Leaves text (some (value, rest)) (some value) state :=
  ⟨rfl, rest, stands, fun _ same => (congrArg Prod.snd (Option.some.inj same))⟩

theorem Leaves.eq_none (leaves : Leaves text outcome none state) :
    outcome = none :=
  Option.map_eq_none_iff.mp leaves.1.symm

theorem Leaves.eq_some {value : α} (leaves : Leaves text outcome (some value) state) :
    ∃ left, outcome = some (value, left) ∧ At text left state := by
  obtain ⟨read, isOutcome, isValue⟩ := Option.map_eq_some_iff.mp leaves.1.symm
  obtain ⟨left, stands, same⟩ := leaves.2
  refine ⟨left, ?_, stands⟩
  rw [isOutcome, same read isOutcome, ← isValue]

theorem scanString_cons (charCount : Nat) (byte : UInt8) (rest : Bytes) :
    scanString charCount (byte :: rest) =
      if byte = 34 then some ([], rest)
      else if charCount ≥ maxJsonStringLength then none
      else if byte = 92 then
        match rest with
        | [] => none
        | next :: after =>
          (scanString (charCount + 2) after).map fun scanned =>
            (byte :: next :: scanned.1, scanned.2)
      else
        (scanString (charCount + 1) rest).map fun scanned => (byte :: scanned.1, scanned.2) := by
  rw [scanString.eq_def]
  rfl

/-- The loop of `parse_string` has come to the closing quote, or not. -/
def Scanned (text rest : Bytes) (outcome : Option (Bytes × Bytes)) (goesOn : Bool)
    (after : ScanState) : Prop :=
  match outcome with
  | some (content, left) =>
    goesOn = true ∧ rest = content ++ 34 :: left ∧ At text (34 :: left) after
  | none => ∃ left, At text left after ∧ (goesOn = true → left = [])

theorem Scanned.behind {outcome : Option (Bytes × Bytes)} {goesOn : Bool}
    (scanned : Scanned text rest outcome goesOn state) (front : Bytes) :
    Scanned text (front ++ rest) (outcome.map fun read => (front ++ read.1, read.2)) goesOn
      state := by
  cases outcome with
  | none => exact scanned
  | some read => exact ⟨scanned.1, by rw [scanned.2.1, List.append_assoc], scanned.2.2⟩

variable (free : NulFree text) {byte : UInt8} {others : Bytes}

include free

theorem skipWhitespaceAt_ends {fuel : Nat} (stands : At text rest state)
    (enough : rest.length < fuel) :
    Ends (skipWhitespaceAt text fuel) state fun _ after => At text (skipWhitespace rest) after := by
  have sameTest : rest.dropWhile (fun byte => byte ≠ 0 && isspace byte) =
      rest.dropWhile isspace := by
    have noNul := stands.nulFree free
    clear stands enough
    induction rest with
    | nil => rfl
    | cons byte rest ih =>
      have notZero : byte ≠ 0 := fun isZero => noNul (isZero ▸ List.mem_cons_self)
      simp only [List.dropWhile_cons, notZero, ne_eq, not_false_eq_true, decide_true,
        Bool.true_and]
      rw [ih fun member => noNul (List.mem_cons_of_mem _ member)]
  refine (stands.scanWhile (by decide) enough ()).mono fun _ after taken => ?_
  rw [skipWhitespace, ← sameTest]
  exact taken.2

theorem look_cons (stands : At text (byte :: others) state) :
    Ends (look text 0) state fun found after => byte = found ∧ after = state ∧ byte ≠ 0 := by
  have notZero : byte ≠ 0 := fun isZero => stands.nulFree free (isZero ▸ List.mem_cons_self)
  refine (stands.look (Nat.zero_le _)).mono ?_
  rintro found after ⟨rfl, rfl⟩
  exact ⟨rfl, rfl, notZero⟩

omit free in
theorem look_nil (stands : At text [] state) :
    Ends (look text 0) state fun found after => found = 0 ∧ after = state :=
  stands.look (Nat.zero_le _)

omit free in
theorem advance_cons (stands : At text (byte :: others) state) :
    Ends (advance text 1) state fun _ after => At text others after :=
  stands.advance (Nat.succ_pos _)

/-- A look that asks for one byte. -/
theorem lookIf_ends {β : Type} {wanted : UInt8} {yes no : Scan β} {leaves : β → ScanState → Prop}
    (stands : At text rest state) (notNul : wanted ≠ 0)
    (met : ∀ others, rest = wanted :: others → Ends yes state leaves)
    (missed : (∀ others, rest ≠ wanted :: others) → Ends no state leaves) :
    Ends (do
      let byte ← look text 0
      if byte = wanted then yes else no) state leaves := by
  cases rest with
  | nil =>
    refine Ends.bind (look_nil stands) fun found after same => ?_
    obtain ⟨rfl, rfl⟩ := same
    rw [if_neg notNul.symm]
    exact missed fun _ same => by cases same
  | cons byte others =>
    refine Ends.bind (look_cons free stands) fun found after same => ?_
    obtain ⟨rfl, rfl, -⟩ := same
    by_cases asked : byte = wanted
    · rw [if_pos asked]
      exact met others (asked ▸ rfl)
    · rw [if_neg asked]
      exact missed fun _ same => asked (List.cons.inj same).1

/-- The loop of `parse_string` stops at the closing quote or at the end of the string. -/
theorem scanStringAt_ends {fuel : Nat} (stands : At text rest state)
    (enough : rest.length < fuel) (charCount : Nat) :
    Ends (scanStringAt text fuel charCount) state
      (Scanned text rest (scanString charCount rest)) := by
  induction fuel generalizing rest state charCount with
  | zero => exact absurd enough (Nat.not_lt_zero _)
  | succ fuel ih =>
    rw [scanStringAt]
    cases rest with
    | nil =>
      refine Ends.bind (look_nil stands) fun byte after same => ?_
      obtain ⟨rfl, rfl⟩ := same
      rw [if_pos (.inl rfl), scanString]
      exact Ends.pure ⟨[], stands, fun _ => rfl⟩
    | cons byte others =>
      refine Ends.bind (look_cons free stands) fun found after same => ?_
      obtain ⟨rfl, rfl, notZero⟩ := same
      have shorter := Nat.lt_of_succ_lt_succ enough
      by_cases quote : byte = 34
      · rw [if_pos (.inr quote), scanString_cons, if_pos quote]
        exact Ends.pure ⟨rfl, by rw [quote]; rfl, quote ▸ stands⟩
      · rw [if_neg (not_or.mpr ⟨notZero, quote⟩), scanString_cons, if_neg quote]
        by_cases long : charCount ≥ maxJsonStringLength
        · rw [if_pos long, if_pos long]
          exact Ends.pure ⟨_, stands, fun isTrue => absurd isTrue Bool.false_ne_true⟩
        · rw [if_neg long, if_neg long]
          by_cases backslash : byte = 92
          · rw [if_pos backslash, if_pos backslash]
            refine Ends.bind (stands.look (Nat.succ_pos _)) fun next after same => ?_
            obtain ⟨rfl, rfl⟩ := same
            cases others with
            | nil =>
              -- a backslash at the end is an ordinary byte, and the loop ends
              rw [if_neg (by simp)]
              refine Ends.bind (advance_cons stands) fun _ after stands' => ?_
              refine (ih stands' shorter (charCount + 1)).mono ?_
              rw [scanString]
              exact fun _ _ holds => holds
            | cons next others =>
              have nextNotZero : next ≠ 0 := fun isZero =>
                stands.nulFree free
                  (isZero ▸ List.mem_cons_of_mem _ List.mem_cons_self)
              rw [if_pos (by simpa using nextNotZero)]
              refine Ends.bind (advance_cons stands) fun _ after stands' => ?_
              refine Ends.bind (advance_cons stands') fun _ after stands'' => ?_
              have evenShorter : others.length < fuel := by
                rw [List.length_cons] at shorter
                omega
              exact (ih stands'' evenShorter (charCount + 2)).mono
                fun _ _ scanned => scanned.behind [byte, next]
          · rw [if_neg backslash, if_neg backslash]
            refine Ends.bind (advance_cons stands) fun _ after stands' => ?_
            exact (ih stands' shorter (charCount + 1)).mono
              fun _ _ scanned => scanned.behind [byte]

omit free in
theorem position_ends (stands : At text rest state) :
    Ends position state fun start after => start + rest.length = text.length ∧ after = state :=
  ⟨state.cursor, state, rfl, stands.length, rfl⟩

omit free in
theorem copiedFrom_ends {start : Nat} {content : Bytes} (stands : At text rest state)
    (isStart : start + (content ++ rest).length = text.length)
    (isContent : text.drop start = content ++ rest) :
    Ends (copiedFrom text start) state fun result after => result = content ∧ after = state := by
  refine ⟨_, state, rfl, ?_, rfl⟩
  have whole := stands.length
  rw [List.length_append] at isStart
  have passed : state.cursor - start = content.length := by omega
  rw [passed, isContent, List.take_left']
  rfl

theorem closeStringAt_ends {start : Nat} {content left : Bytes}
    (stands : At text (34 :: left) state)
    (isStart : start + (content ++ 34 :: left).length = text.length)
    (isContent : text.drop start = content ++ 34 :: left) :
    Ends (closeStringAt text start) state (Leaves text
      (if content.length > maxJsonStringLength then none else some (content, left))) := by
  rw [closeStringAt]
  refine Ends.bind (look_cons free stands) fun found after same => ?_
  obtain ⟨rfl, rfl, -⟩ := same
  rw [if_pos rfl]
  refine Ends.bind (position_ends stands) fun stop after same => ?_
  obtain ⟨isStop, rfl⟩ := same
  have passed : stop - start = content.length := by
    rw [List.length_append] at isStart
    omega
  rw [passed]
  by_cases long : content.length > maxJsonStringLength
  · rw [if_pos long, if_pos long]
    exact Ends.pure (leaves_none stands)
  · rw [if_neg long, if_neg long]
    refine Ends.bind (copiedFrom_ends stands isStart isContent) fun result after same => ?_
    obtain ⟨rfl, rfl⟩ := same
    refine Ends.bind (advance_cons stands) fun _ after stands' => ?_
    exact Ends.pure (leaves_some stands')

omit free in
theorem parseString_of_ne (others : Bytes) (noQuote : byte ≠ 34) :
    parseString (byte :: others) = none := by
  unfold parseString
  split
  · rename_i same
    exact absurd (List.cons.inj same).1 noQuote
  · rfl

theorem parseStringAt_ends {fuel : Nat} (stands : At text rest state)
    (enough : rest.length < fuel) :
    Ends (parseStringAt text fuel) state (Leaves text (parseString rest)) := by
  rw [parseStringAt]
  cases rest with
  | nil =>
    refine Ends.bind (look_nil stands) fun found after same => ?_
    obtain ⟨rfl, rfl⟩ := same
    rw [if_pos (by decide)]
    exact Ends.pure (leaves_none stands)
  | cons byte others =>
    refine Ends.bind (look_cons free stands) fun found after same => ?_
    obtain ⟨rfl, rfl, -⟩ := same
    by_cases quote : byte = 34
    · subst quote
      rw [if_neg (by decide)]
      refine Ends.bind (advance_cons stands) fun _ after stands' => ?_
      refine Ends.bind (position_ends stands') fun start after' same => ?_
      obtain ⟨isStart, rfl⟩ := same
      have isRest : text.drop start = others := by
        have whole := stands'.length
        rw [← stands'.rest]
        congr 1
        omega
      have shorter : others.length < fuel := Nat.lt_of_succ_lt enough
      refine Ends.bind (scanStringAt_ends free stands' shorter 0) fun goesOn after scanned => ?_
      rw [parseString]
      cases outcome : scanString 0 others with
      | none =>
        rw [outcome] at scanned
        obtain ⟨left, stands'', atEnd⟩ := scanned
        cases goesOn with
        | false => exact Ends.pure (leaves_none stands'')
        | true =>
          rw [atEnd rfl] at stands''
          rw [if_pos rfl, closeStringAt]
          refine Ends.bind (look_nil stands'') fun found after same => ?_
          obtain ⟨rfl, rfl⟩ := same
          rw [if_neg (by decide)]
          exact Ends.pure (leaves_none stands'')
      | some read =>
        rw [outcome] at scanned
        obtain ⟨rfl, layout, stands''⟩ := scanned
        rw [if_pos rfl]
        exact closeStringAt_ends free stands'' (layout ▸ isStart) (isRest.trans layout)
    · rw [if_pos quote, parseString_of_ne others quote]
      exact Ends.pure (leaves_none stands)

/-! ## Numbers -/

theorem signAt_ends (stands : At text rest state) :
    Ends (signAt text) state (Takes text (parseSign rest)) := by
  rw [signAt]
  refine lookIf_ends free stands (by decide) ?_ fun noMinus => ?_
  · rintro others rfl
    exact Ends.bind (advance_cons stands) fun _ after stands' => Ends.pure ⟨rfl, stands'⟩
  · have noSign : parseSign rest = (false, rest) := by
      unfold parseSign
      split
      · exact absurd rfl (noMinus _)
      · rfl
    rw [noSign]
    exact Ends.pure ⟨rfl, stands⟩

/-- The sign of an exponent, as `parseExponent` reads it. -/
def parseExponentSign : Bytes → Bool × Bytes
  | 43 :: after => (false, after)
  | after => parseSign after

theorem exponentSignAt_ends (stands : At text rest state) :
    Ends (exponentSignAt text) state (Takes text (parseExponentSign rest)) := by
  rw [exponentSignAt]
  refine lookIf_ends free stands (by decide) ?_ fun noPlus => ?_
  · rintro others rfl
    exact Ends.bind (advance_cons stands) fun _ after stands' => Ends.pure ⟨rfl, stands'⟩
  · have sign : parseExponentSign rest = parseSign rest := by
      unfold parseExponentSign
      split
      · exact absurd rfl (noPlus _)
      · rfl
    rw [sign]
    exact signAt_ends free stands

omit free in
theorem digitsAt_ends {σ : Type} {fuel : Nat} (stands : At text rest state)
    (enough : rest.length < fuel) (step : σ → UInt8 → σ) (value : σ) :
    Ends (scanWhile text isdigit step fuel value) state
      (Takes text ((rest.takeWhile isdigit).foldl step value, rest.dropWhile isdigit)) :=
  stands.scanWhile (by decide) enough value

variable {δ : Type} [CDouble δ]

omit free in
theorem foldl_pair {σ τ ι : Type} (step : σ → ι → σ) (step' : τ → ι → τ) (first : σ) (second : τ)
    (items : List ι) :
    items.foldl (fun (pair : σ × τ) item => (step pair.1 item, step' pair.2 item)) (first, second) =
      (items.foldl step first, items.foldl step' second) := by
  induction items generalizing first second with
  | nil => rfl
  | cons item items ih => exact ih _ _

theorem fractionAt_ends {fuel : Nat} (stands : At text rest state) (enough : rest.length < fuel)
    (floatValue : δ) :
    Ends (fractionAt text fuel floatValue) state fun result after =>
      result = ((parseFraction floatValue rest).1, (parseFraction floatValue rest).2.1) ∧
        At text (parseFraction floatValue rest).2.2 after := by
  rw [fractionAt]
  refine lookIf_ends free stands (by decide) ?_ fun noPoint => ?_
  · rintro others rfl
    refine Ends.bind (advance_cons stands) fun _ after stands' => ?_
    refine Ends.bind (digitsAt_ends stands' (Nat.lt_of_succ_lt enough) _ _)
      fun value after taken => ?_
    obtain ⟨rfl, stands''⟩ := taken
    exact Ends.pure ⟨rfl, stands''⟩
  · have noFraction : parseFraction floatValue rest = (floatValue, false, rest) := by
      unfold parseFraction
      split
      · exact absurd rfl (noPoint _)
      · rfl
    rw [noFraction]
    exact Ends.pure ⟨rfl, stands⟩

omit free in
theorem parseExponent_cons (isExponent : (byte = 101 || byte = 69) = true) (floatValue : δ)
    (isFloat : Bool) (others : Bytes) :
    parseExponent floatValue isFloat (byte :: others) =
      (scaled floatValue (parseExponentSign others).1
        (((parseExponentSign others).2.takeWhile isdigit).foldl
          (fun value byte => value * 10 + Int32.ofNat (byte.toNat - 48)) 0),
        true, (parseExponentSign others).2.dropWhile isdigit) := by
  unfold parseExponent
  simp only [isExponent, if_true]
  rfl

theorem exponentAt_ends {fuel : Nat} (stands : At text rest state) (enough : rest.length < fuel)
    (floatValue : δ) (isFloat : Bool) :
    Ends (exponentAt text fuel floatValue isFloat) state fun result after =>
      result = ((parseExponent floatValue isFloat rest).1,
          (parseExponent floatValue isFloat rest).2.1) ∧
        At text (parseExponent floatValue isFloat rest).2.2 after := by
  rw [exponentAt]
  cases rest with
  | nil =>
    refine Ends.bind (look_nil stands) fun found after same => ?_
    obtain ⟨rfl, rfl⟩ := same
    exact Ends.pure ⟨rfl, stands⟩
  | cons byte others =>
    refine Ends.bind (look_cons free stands) fun found after same => ?_
    obtain ⟨rfl, rfl, -⟩ := same
    by_cases isExponent : (byte = 101 || byte = 69) = true
    · rw [if_pos isExponent, parseExponent_cons isExponent]
      refine Ends.bind (advance_cons stands) fun _ after stands' => ?_
      refine Ends.bind (exponentSignAt_ends free stands') fun expNegative after taken => ?_
      obtain ⟨rfl, stands''⟩ := taken
      have shorter : (parseExponentSign others).2.length < fuel := by
        have part : (parseExponentSign others).2.length ≤ others.length := by
          unfold parseExponentSign
          split
          · exact Nat.le_succ _
          · exact parseSign_length _
        exact Nat.lt_of_le_of_lt part (Nat.lt_of_succ_lt enough)
      refine Ends.bind (digitsAt_ends stands'' shorter _ _) fun value after taken => ?_
      obtain ⟨rfl, stands'''⟩ := taken
      exact Ends.pure ⟨rfl, stands'''⟩
    · have noExponent : parseExponent floatValue isFloat (byte :: others) =
          (floatValue, isFloat, byte :: others) := by
        unfold parseExponent
        simp only [isExponent, Bool.false_eq_true, if_false]
      rw [if_neg isExponent, noExponent]
      exact Ends.pure ⟨rfl, stands⟩

theorem parseNumberAt_ends {fuel : Nat} (stands : At text rest state)
    (enough : rest.length < fuel) :
    Ends (parseNumberAt text fuel) state (Takes text (parseNumber rest : JsonValue δ × Bytes)) := by
  rw [parseNumberAt]
  refine Ends.bind (signAt_ends free stands) fun negative after taken => ?_
  obtain ⟨rfl, stands'⟩ := taken
  have signShorter := Nat.lt_of_le_of_lt (parseSign_length rest) enough
  refine Ends.bind (digitsAt_ends stands' signShorter _ _) fun digits after taken => ?_
  obtain ⟨same, stands''⟩ := taken
  rw [foldl_pair pushDigit (fun (value : δ) byte =>
    CDouble.add (CDouble.mul value (CDouble.ofInt64 10)) (digitValue byte))] at same
  subst same
  have digitsShorter := Nat.lt_of_le_of_lt
    (List.dropWhile_suffix isdigit (l := (parseSign rest).2)).length_le signShorter
  refine Ends.bind (fractionAt_ends free stands'' digitsShorter _) fun fraction after taken => ?_
  obtain ⟨rfl, stands'''⟩ := taken
  have fractionShorter := Nat.lt_of_le_of_lt
    (parseFraction_length
      (((parseSign rest).2.takeWhile isdigit).foldl
        (fun value byte =>
          CDouble.add (CDouble.mul value (CDouble.ofInt64 10)) (digitValue byte))
        (CDouble.ofInt64 0 : δ)) ((parseSign rest).2.dropWhile isdigit)) digitsShorter
  refine Ends.bind (exponentAt_ends free stands''' fractionShorter _ _)
    fun exponent after taken => ?_
  obtain ⟨rfl, stands''''⟩ := taken
  exact Ends.pure ⟨rfl, stands''''⟩

omit free in
theorem wordAt_ends (first : UInt8) (word : Bytes) (stands : At text (byte :: others) state)
    (nulFree : NulFree (first :: word)) :
    Ends (wordAt text byte first (first :: word)) state fun result after =>
      result = (first :: word).isPrefixOf (byte :: others) ∧ after = state := by
  unfold wordAt
  by_cases same : byte = first
  · rw [if_pos same]
    exact stands.startsWith nulFree (Nat.zero_le _)
  · rw [if_neg same]
    refine Ends.pure ⟨?_, rfl⟩
    simp [List.isPrefixOf, Ne.symm same]

omit free in
theorem advance_word {word : Bytes} (stands : At text rest state)
    (isPrefix : word.isPrefixOf rest = true) {count : Nat} (isCount : word.length = count) :
    Ends (advance text count) state fun _ after => At text (rest.drop count) after := by
  have inside := (List.isPrefixOf_iff_prefix.mp isPrefix).length_le
  exact stands.advance (isCount ▸ inside)

/-- The branches of `parse_value_with_depth` that do not recurse. -/
theorem parseScalarAt_ends {fuel : Nat} (stands : At text (byte :: others) state)
    (enough : (byte :: others).length < fuel) :
    Ends (parseScalarAt text fuel byte) state
      (Leaves text (parseScalar (byte :: others) : Option (JsonValue δ × Bytes))) := by
  unfold parseScalarAt parseScalar
  by_cases quote : byte = 34
  · simp only [if_pos quote]
    refine Ends.bind (parseStringAt_ends free stands enough) fun string after leaves => ?_
    refine Ends.pure ?_
    cases string with
    | none =>
      rw [leaves.eq_none]
      exact leaves_none leaves.2.choose_spec.1
    | some string =>
      obtain ⟨left, outcome, stands'⟩ := leaves.eq_some
      rw [outcome]
      exact leaves_some stands'
  · simp only [if_neg quote]
    rw [show ascii "true" = 116 :: ascii "rue" from rfl]
    refine Ends.bind (wordAt_ends 116 (ascii "rue") stands (by decide))
      fun isTrue after same => ?_
    obtain ⟨isPrefix, rfl⟩ := same
    rw [← isPrefix]
    cases isTrue with
    | true =>
      rw [if_pos rfl, if_pos rfl]
      refine Ends.bind (advance_word stands isPrefix.symm rfl) fun _ after stands' => ?_
      exact Ends.pure (leaves_some stands')
    | false =>
      rw [if_neg Bool.false_ne_true, if_neg Bool.false_ne_true]
      rw [show ascii "false" = 102 :: ascii "alse" from rfl]
      refine Ends.bind (wordAt_ends 102 (ascii "alse") stands (by decide))
        fun isFalse after same => ?_
      obtain ⟨isPrefix, rfl⟩ := same
      rw [← isPrefix]
      cases isFalse with
      | true =>
        rw [if_pos rfl, if_pos rfl]
        refine Ends.bind (advance_word stands isPrefix.symm rfl) fun _ after stands' => ?_
        exact Ends.pure (leaves_some stands')
      | false =>
        rw [if_neg Bool.false_ne_true, if_neg Bool.false_ne_true]
        rw [show ascii "null" = 110 :: ascii "ull" from rfl]
        refine Ends.bind (wordAt_ends 110 (ascii "ull") stands (by decide))
          fun isNull after same => ?_
        obtain ⟨isPrefix, rfl⟩ := same
        rw [← isPrefix]
        cases isNull with
        | true =>
          rw [if_pos rfl, if_pos rfl]
          refine Ends.bind (advance_word stands isPrefix.symm rfl) fun _ after stands' => ?_
          exact Ends.pure (leaves_some stands')
        | false =>
          rw [if_neg Bool.false_ne_true, if_neg Bool.false_ne_true]
          by_cases digit : (isdigit byte || byte = 45) = true
          · rw [if_pos digit, if_pos digit]
            refine Ends.bind (parseNumberAt_ends free stands enough)
              fun number after taken => ?_
            obtain ⟨rfl, stands'⟩ := taken
            exact Ends.pure (leaves_some stands')
          · rw [if_neg digit, if_neg digit]
            exact Ends.pure (leaves_none stands)

/-! ## Nested values -/

/-- What a fuel is enough for.  The depth and the levels left make up the limit. -/
structure ReadersEnd (δ : Type) [CDouble δ] (text : Bytes) (fuel : Nat) : Prop where
  value : ∀ {depth levels : Nat} {rest : Bytes} {state : ScanState}, At text rest state →
    depth + levels = maxJsonRecursionDepth + 1 → 3 * rest.length + 3 ≤ fuel →
      Ends (parseValueAt text fuel depth) state
        (Leaves text (parseValueWithDepth levels rest : Option (JsonValue δ × Bytes)))
  object : ∀ {depth levels : Nat} {rest : Bytes} {state : ScanState},
    At text (123 :: rest) state → depth + levels = maxJsonRecursionDepth + 1 →
      3 * rest.length + 5 ≤ fuel → Ends (parseObjectAt text fuel depth) state
        (Leaves text (parseObjectWithDepth levels rest : Option (JsonValue δ × Bytes)))
  array : ∀ {depth levels : Nat} {rest : Bytes} {state : ScanState},
    At text (91 :: rest) state → depth + levels = maxJsonRecursionDepth + 1 →
      3 * rest.length + 5 ≤ fuel → Ends (parseArrayAt text fuel depth) state
        (Leaves text (parseArrayWithDepth levels rest : Option (JsonValue δ × Bytes)))
  objectLoop : ∀ {depth levels : Nat} {rest : Bytes} {state : ScanState}
    (entries : List (Bytes × JsonValue δ)), At text rest state →
      depth + levels = maxJsonRecursionDepth → 3 * rest.length + 4 ≤ fuel →
        Ends (objectLoopAt text fuel depth entries) state (Leaves text
          ((parseDelimited (parseMember (parseValueWithDepth levels)) skipWhitespace 44 125
            (rest.length + 1) rest).map fun parsed =>
              (.object (parsed.1.foldl
                (fun entries member => setEntry member.1 member.2 entries) entries), parsed.2)))
  arrayLoop : ∀ {depth levels : Nat} {rest : Bytes} {state : ScanState}
    (items : List (JsonValue δ)), At text rest state →
      depth + levels = maxJsonRecursionDepth → 3 * rest.length + 4 ≤ fuel →
        Ends (arrayLoopAt text fuel depth items) state (Leaves text
          ((parseDelimited (parseValueWithDepth levels) skipWhitespace 44 93
            (rest.length + 1) rest).map fun parsed => (.array (items ++ parsed.1), parsed.2)))

variable {fuel depth levels : Nat} {parseValue : Bytes → Option (JsonValue δ × Bytes)}

theorem ReadersEnd.value_succ (readers : ReadersEnd δ text fuel) (stands : At text rest state)
    (whole : depth + levels = maxJsonRecursionDepth + 1) (enough : 3 * rest.length + 3 ≤ fuel + 1) :
    Ends (parseValueAt text (fuel + 1) depth) state
      (Leaves text (parseValueWithDepth levels rest : Option (JsonValue δ × Bytes))) := by
  rw [parseValueAt]
  cases levels with
  | zero =>
    rw [if_pos (by omega), parseValueWithDepth]
    exact Ends.pure (leaves_none stands)
  | succ levels =>
    rw [if_neg (by omega), parseValueWithDepth]
    refine Ends.bind (stands.enter (by omega)) fun _ after stands' => ?_
    refine Ends.bind (skipWhitespaceAt_ends free stands' (by omega)) fun _ after stands'' => ?_
    have shorter := skipWhitespace_length rest
    generalize skipWhitespace rest = visible at stands'' shorter
    cases visible with
    | nil =>
      refine Ends.bind (look_nil stands'') fun found after same => ?_
      obtain ⟨rfl, rfl⟩ := same
      rw [if_pos rfl]
      exact Ends.pure (leaves_none stands'')
    | cons byte others =>
      rw [List.length_cons] at shorter
      refine Ends.bind (look_cons free stands'') fun found after same => ?_
      obtain ⟨rfl, rfl, notZero⟩ := same
      rw [if_neg notZero]
      by_cases brace : byte = 123
      · subst brace
        rw [if_pos rfl]
        exact readers.object stands'' (by omega) (by omega)
      · rw [if_neg brace]
        by_cases bracket : byte = 91
        · subst bracket
          rw [if_pos rfl]
          exact readers.array stands'' (by omega) (by omega)
        · rw [if_neg bracket]
          split
          · rename_i same
            exact absurd (List.cons.inj same).1 brace
          · rename_i same
            exact absurd (List.cons.inj same).1 bracket
          · refine parseScalarAt_ends free stands'' ?_
            rw [List.length_cons]
            omega

omit [CDouble δ] in
theorem bracket_ends {opening close : UInt8} {empty : JsonValue δ}
    {loop : Scan (Option (JsonValue δ))} {outcome : Option (JsonValue δ × Bytes)}
    (stands : At text (opening :: rest) state) (shallow : depth ≤ maxJsonRecursionDepth)
    (enough : rest.length < fuel) (notNul : close ≠ 0)
    (closed : ∀ others, skipWhitespace rest = close :: others → outcome = some (empty, others))
    (loops : ∀ after, At text (skipWhitespace rest) after →
      (∀ others, skipWhitespace rest ≠ close :: others) → Ends loop after (Leaves text outcome)) :
    Ends (do
      enter depth
      let first ← look text 0
      if first ≠ opening then pure none
      else do
        advance text 1
        skipWhitespaceAt text fuel
        let byte ← look text 0
        if byte = close then do
          advance text 1
          pure (some empty)
        else loop) state (Leaves text outcome) := by
  refine Ends.bind (stands.enter shallow) fun _ after stands' => ?_
  refine Ends.bind (look_cons free stands') fun found after same => ?_
  obtain ⟨rfl, rfl, -⟩ := same
  rw [if_neg (not_not.mpr rfl)]
  refine Ends.bind (advance_cons stands') fun _ after stands'' => ?_
  refine Ends.bind (skipWhitespaceAt_ends free stands'' enough) fun _ after stands''' => ?_
  refine lookIf_ends free stands''' notNul ?_ (loops after stands''')
  intro others same
  rw [closed others same]
  rw [same] at stands'''
  exact Ends.bind (advance_cons stands''') fun _ after last => Ends.pure (leaves_some last)

theorem ReadersEnd.object_succ (readers : ReadersEnd δ text fuel)
    (stands : At text (123 :: rest) state) (whole : depth + levels = maxJsonRecursionDepth + 1)
    (enough : 3 * rest.length + 5 ≤ fuel + 1) :
    Ends (parseObjectAt text (fuel + 1) depth) state
      (Leaves text (parseObjectWithDepth levels rest : Option (JsonValue δ × Bytes))) := by
  rw [parseObjectAt]
  cases levels with
  | zero =>
    rw [if_pos (by omega), parseObjectWithDepth]
    exact Ends.pure (leaves_none stands)
  | succ levels =>
    rw [if_neg (by omega), parseObjectWithDepth]
    have shorter := skipWhitespace_length rest
    refine bracket_ends free stands (by omega) (by omega) (by decide) ?_ ?_
    · intro others same
      simp only [same]
    · intro after stands' notClosed
      split
      · rename_i same
        exact absurd same (notClosed _)
      · exact readers.objectLoop [] stands' (by omega) (by omega)

theorem ReadersEnd.array_succ (readers : ReadersEnd δ text fuel)
    (stands : At text (91 :: rest) state) (whole : depth + levels = maxJsonRecursionDepth + 1)
    (enough : 3 * rest.length + 5 ≤ fuel + 1) :
    Ends (parseArrayAt text (fuel + 1) depth) state
      (Leaves text (parseArrayWithDepth levels rest : Option (JsonValue δ × Bytes))) := by
  rw [parseArrayAt]
  cases levels with
  | zero =>
    rw [if_pos (by omega), parseArrayWithDepth]
    exact Ends.pure (leaves_none stands)
  | succ levels =>
    rw [if_neg (by omega), parseArrayWithDepth]
    have shorter := skipWhitespace_length rest
    refine bracket_ends free stands (by omega) (by omega) (by decide) ?_ ?_
    · intro others same
      simp only [same]
    · intro after stands' notClosed
      split
      · rename_i same
        exact absurd same (notClosed _)
      · exact readers.arrayLoop [] stands' (by omega) (by omega)

theorem separator_ends {β : Type} {close : UInt8} {again : Scan (Option β)} {done : β}
    {outcome : Bytes → Option (β × Bytes)} (stands : At text rest state)
    (enough : rest.length < fuel)
    (loops : ∀ more after, At text more after → more.length < rest.length →
      Ends again after (Leaves text (outcome more))) (notNul : close ≠ 0) :
    Ends (do
      skipWhitespaceAt text fuel
      let byte ← look text 0
      if byte = 44 then do
        advance text 1
        again
      else if byte = close then do
        advance text 1
        pure (some done)
      else pure none) state
      (Leaves text (match skipWhitespace rest with
        | [] => none
        | token :: left =>
          if token = 44 then outcome left
          else if token = close then some (done, left)
          else none)) := by
  refine Ends.bind (skipWhitespaceAt_ends free stands enough) fun _ after stands' => ?_
  have shorter := skipWhitespace_length rest
  generalize skipWhitespace rest = visible at stands' shorter
  cases visible with
  | nil =>
    refine Ends.bind (look_nil stands') fun found after same => ?_
    obtain ⟨rfl, rfl⟩ := same
    rw [if_neg (by decide), if_neg notNul.symm]
    exact Ends.pure (leaves_none stands')
  | cons byte others =>
    refine Ends.bind (look_cons free stands') fun found after same => ?_
    obtain ⟨rfl, rfl, -⟩ := same
    simp only
    by_cases separator : byte = 44
    · rw [if_pos separator, if_pos separator]
      exact Ends.bind (advance_cons stands') fun _ after stands'' =>
        loops others after stands'' shorter
    · rw [if_neg separator, if_neg separator]
      by_cases closes : byte = close
      · rw [if_pos closes, if_pos closes]
        exact Ends.bind (advance_cons stands') fun _ after stands'' =>
          Ends.pure (leaves_some stands'')
      · rw [if_neg closes, if_neg closes]
        exact Ends.pure (leaves_none stands')

omit free in
theorem parseDelimited_map {γ ε : Type} (item : Bytes → Option (γ × Bytes)) (close : UInt8)
    (fuel : Nat) (text : Bytes) (make : List γ → ε) :
    (parseDelimited item skipWhitespace 44 close (fuel + 1) text).map
        (fun parsed => (make parsed.1, parsed.2)) =
      match item (skipWhitespace text) with
      | none => none
      | some (value, afterItem) =>
        match skipWhitespace afterItem with
        | [] => none
        | token :: rest =>
          if token = 44 then
            (parseDelimited item skipWhitespace 44 close fuel rest).map fun parsed =>
              (make (value :: parsed.1), parsed.2)
          else if token = close then some (make [value], rest)
          else none := by
  rw [parseDelimited]
  cases item (skipWhitespace text) with
  | none => rfl
  | some read =>
    simp only
    cases skipWhitespace read.2 with
    | nil => rfl
    | cons token rest =>
      simp only
      split
      · cases parseDelimited item skipWhitespace 44 close fuel rest <;> rfl
      · split <;> rfl

theorem ReadersEnd.arrayLoop_succ (readers : ReadersEnd δ text fuel)
    (items : List (JsonValue δ)) (stands : At text rest state)
    (whole : depth + levels = maxJsonRecursionDepth) (enough : 3 * rest.length + 4 ≤ fuel + 1) :
    Ends (arrayLoopAt text (fuel + 1) depth items) state (Leaves text
      ((parseDelimited (parseValueWithDepth levels) skipWhitespace 44 93
        (rest.length + 1) rest).map fun parsed => (.array (items ++ parsed.1), parsed.2))) := by
  rw [arrayLoopAt, parseDelimited_map _ _ _ _ fun read => JsonValue.array (items ++ read)]
  refine Ends.bind (skipWhitespaceAt_ends free stands (by omega)) fun _ after stands' => ?_
  have shorter := skipWhitespace_length rest
  generalize skipWhitespace rest = visible at stands' shorter
  have inner : depth + 1 + levels = maxJsonRecursionDepth + 1 := by omega
  refine Ends.bind (readers.value stands' inner (by omega)) fun value after leaves => ?_
  cases value with
  | none =>
    rw [leaves.eq_none]
    exact Ends.pure (leaves_none leaves.2.choose_spec.1)
  | some value =>
    obtain ⟨left, outcome, stands''⟩ := leaves.eq_some
    have less := parseValueWithDepth_length levels visible value left outcome
    rw [outcome]
    refine separator_ends free stands'' (by omega) (fun more after stands''' fewer => ?_)
      (by decide)
    have loop := readers.arrayLoop (items ++ [value]) stands''' whole (by omega)
    rw [(parseLoops_fuel levels rest.length more (by omega)).2] at loop
    simpa only [List.append_assoc, List.singleton_append] using loop

omit free [CDouble δ] in
theorem parseMember_of_none (noKey : parseString rest = none) :
    parseMember parseValue rest = none := by
  rw [parseMember, noKey]

omit free [CDouble δ] in
theorem parseMember_of_some {key afterKey : Bytes}
    (isKey : parseString rest = some (key, afterKey)) :
    parseMember parseValue rest =
      match skipWhitespace afterKey with
      | 58 :: afterColon =>
        (parseValue (skipWhitespace afterColon)).map fun parsed => ((key, parsed.1), parsed.2)
      | _ => none := by
  unfold parseMember
  generalize parseString rest = read at isKey ⊢
  subst isKey
  rfl

theorem ReadersEnd.objectLoop_succ (readers : ReadersEnd δ text fuel)
    (entries : List (Bytes × JsonValue δ)) (stands : At text rest state)
    (whole : depth + levels = maxJsonRecursionDepth) (enough : 3 * rest.length + 4 ≤ fuel + 1) :
    Ends (objectLoopAt text (fuel + 1) depth entries) state (Leaves text
      ((parseDelimited (parseMember (parseValueWithDepth levels)) skipWhitespace 44 125
        (rest.length + 1) rest).map fun parsed =>
          (.object (parsed.1.foldl
            (fun entries member => setEntry member.1 member.2 entries) entries), parsed.2))) := by
  rw [objectLoopAt, parseDelimited_map _ _ _ _ fun read : List (Bytes × JsonValue δ) =>
    JsonValue.object
      (read.foldl (fun entries member => setEntry member.1 member.2 entries) entries)]
  refine Ends.bind (skipWhitespaceAt_ends free stands (by omega)) fun _ after stands' => ?_
  have shorter := skipWhitespace_length rest
  generalize skipWhitespace rest = visible at stands' shorter
  refine Ends.bind (parseStringAt_ends free stands' (by omega)) fun key after leaves => ?_
  cases key with
  | none =>
    rw [parseMember_of_none leaves.eq_none]
    exact Ends.pure (leaves_none leaves.2.choose_spec.1)
  | some key =>
    obtain ⟨afterKey, isKey, stands''⟩ := leaves.eq_some
    have keyShorter := parseString_length isKey
    rw [parseMember_of_some isKey]
    refine Ends.bind (skipWhitespaceAt_ends free stands'' (by omega)) fun _ after stands₁ => ?_
    have colonShorter := skipWhitespace_length afterKey
    generalize skipWhitespace afterKey = colon at stands₁ colonShorter
    cases colon with
    | nil =>
      refine Ends.bind (look_nil stands₁) fun found after same => ?_
      obtain ⟨rfl, rfl⟩ := same
      rw [if_pos (by decide)]
      exact Ends.pure (leaves_none stands₁)
    | cons byte afterColon =>
      rw [List.length_cons] at colonShorter
      refine Ends.bind (look_cons free stands₁) fun found after same => ?_
      obtain ⟨rfl, rfl, -⟩ := same
      by_cases isColon : byte = 58
      · subst isColon
        rw [if_neg (by decide)]
        simp only
        refine Ends.bind (advance_cons stands₁) fun _ after stands₂ => ?_
        refine Ends.bind (skipWhitespaceAt_ends free stands₂ (by omega))
          fun _ after stands₃ => ?_
        have valueShorter := skipWhitespace_length afterColon
        generalize skipWhitespace afterColon = start at stands₃ valueShorter
        have inner : depth + 1 + levels = maxJsonRecursionDepth + 1 := by omega
        refine Ends.bind (readers.value stands₃ inner (by omega)) fun value after leaves => ?_
        cases value with
        | none =>
          rw [leaves.eq_none]
          exact Ends.pure (leaves_none leaves.2.choose_spec.1)
        | some value =>
          obtain ⟨left, outcome, stands₄⟩ := leaves.eq_some
          have less := parseValueWithDepth_length levels start value left outcome
          rw [outcome]
          refine separator_ends free stands₄ (show left.length < fuel by omega)
            (fun more after stands₅ fewer => ?_) (by decide)
          change more.length < left.length at fewer
          have loop := readers.objectLoop (setEntry key value entries) stands₅ whole
            (by omega)
          rwa [(parseLoops_fuel levels rest.length more (by omega)).1] at loop
      · rw [if_pos isColon]
        split
        · exact Ends.pure (leaves_none stands₁)
        · rename_i same
          split at same
          · rename_i matched
            exact absurd (List.cons.inj matched).1 isColon
          · cases same

omit free in
theorem readersEnd (free : NulFree text) : ∀ fuel : Nat, ReadersEnd δ text fuel := by
  intro fuel
  induction fuel with
  | zero =>
    exact
      { value := fun _ _ enough => absurd enough (by omega)
        object := fun _ _ enough => absurd enough (by omega)
        array := fun _ _ enough => absurd enough (by omega)
        objectLoop := fun _ _ _ enough => absurd enough (by omega)
        arrayLoop := fun _ _ _ enough => absurd enough (by omega) }
  | succ fuel readers =>
    exact
      { value := readers.value_succ free
        object := readers.object_succ free
        array := readers.array_succ free
        objectLoop := readers.objectLoop_succ free
        arrayLoop := readers.arrayLoop_succ free }

omit free [CDouble δ] in
theorem strlenAt_ends (free : NulFree text) (stands : At text rest state) {fuel index : Nat}
    (inside : index ≤ rest.length) (enough : rest.length < fuel + index) :
    Ends (strlenAt text fuel index) state fun length after =>
      length = rest.length ∧ after = state := by
  induction fuel generalizing index with
  | zero => exact absurd enough (by omega)
  | succ fuel ih =>
    rw [strlenAt]
    refine Ends.bind (stands.look inside) fun byte after same => ?_
    obtain ⟨rfl, rfl⟩ := same
    cases left : rest.drop index with
    | nil =>
      rw [List.headD_nil, if_pos rfl]
      have atEnd := List.drop_eq_nil_iff.mp left
      exact Ends.pure ⟨by omega, rfl⟩
    | cons byte others =>
      have notZero : byte ≠ 0 := by
        rintro rfl
        exact stands.nulFree free (List.mem_of_mem_drop (left ▸ List.mem_cons_self))
      have before : index < rest.length := by
        by_contra atEnd
        rw [List.drop_of_length_le (by omega)] at left
        exact nomatch left
      rw [List.headD_cons, if_neg notZero]
      exact ih before (by omega)

omit free [CDouble δ] in
theorem scanBracesAt_ends (stands : At text rest state) {fuel index : Nat} (scan : BraceScan)
    (inside : index ≤ rest.length) (enough : rest.length < fuel + index) :
    Ends (scanBracesAt text rest.length fuel index scan) state fun result after =>
      result = (rest.drop index).foldl BraceScan.step scan ∧ after = state := by
  induction fuel generalizing index scan with
  | zero => exact absurd enough (by omega)
  | succ fuel ih =>
    rw [scanBracesAt]
    by_cases before : index < rest.length
    · rw [if_pos before]
      refine Ends.bind (stands.look inside) fun byte after same => ?_
      obtain ⟨rfl, rfl⟩ := same
      refine (ih _ before (by omega)).mono ?_
      rintro result after ⟨rfl, rfl⟩
      rw [List.drop_eq_getElem_cons before, List.headD_cons, List.foldl_cons]
      exact ⟨rfl, rfl⟩
    · rw [if_neg before, List.drop_of_length_le (by omega)]
      exact Ends.pure ⟨rfl, rfl⟩

omit free in
theorem jsonParseAt_ends (free : NulFree text) (fuel : Nat) (enough : 3 * text.length + 3 ≤ fuel) :
    Ends (jsonParseAt text fuel : Scan (Option (JsonValue δ))) ⟨0, 0⟩ fun result after =>
      result = jsonParse text ∧ ∃ left, At text left after := by
  have stands : At text text ⟨0, 0⟩ := ⟨Nat.zero_le _, List.drop_zero, Nat.zero_le _⟩
  rw [jsonParseAt, jsonParse]
  refine Ends.bind (strlenAt_ends free stands (Nat.zero_le _) (by omega))
    fun length after same => ?_
  obtain ⟨rfl, rfl⟩ := same
  by_cases long : text.length > maxJsonInputSize
  · rw [if_pos long, if_pos long]
    exact Ends.pure ⟨rfl, text, stands⟩
  rw [if_neg long, if_neg long]
  refine Ends.bind (scanBracesAt_ends stands BraceScan.start (Nat.zero_le _) (by omega))
    fun scan after same => ?_
  obtain ⟨rfl, rfl⟩ := same
  rw [List.drop_zero]
  by_cases malformed : (text.foldl BraceScan.step BraceScan.start).malformed = true
  · rw [if_pos malformed, if_pos malformed]
    exact Ends.pure ⟨rfl, text, stands⟩
  rw [if_neg malformed, if_neg malformed]
  refine ((readersEnd free fuel).value stands (show 0 + (maxJsonRecursionDepth + 1) = _ by omega)
    enough).mono ?_
  rintro result after ⟨sameResult, left, stands', -⟩
  exact ⟨sameResult, left, stands'⟩

end Outcomes

/-- `json_parse` ends on every C string, looks and moves only inside it, keeps to the nesting limit
and returns what the readers of the whole string say. -/
theorem jsonParseAt_safe {δ : Type} [CDouble δ] (memory : Bytes) (extra : Nat) :
    ∃ after,
      jsonParseAt (cString memory) (3 * (cString memory).length + 3 + extra) ⟨0, 0⟩ =
          .ok ((jsonParse (cString memory) : Option (JsonValue δ)), after) ∧
        after.cursor ≤ (cString memory).length ∧ after.deepest ≤ maxJsonRecursionDepth := by
  obtain ⟨result, after, run, rfl, left, stands⟩ :=
    jsonParseAt_ends (δ := δ) (nulFree_cString memory) _ (Nat.le_add_right _ extra)
  exact ⟨after, run, stands.inside, stands.shallow⟩

end Jdbx
