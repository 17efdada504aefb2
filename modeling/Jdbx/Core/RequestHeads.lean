import Jdbx.Core.ClientStream
import Jdbx.Library.Tokens
import Mathlib.Data.Bool.AllAny
import Mathlib.Data.List.Forall2

/-!
# What the body of a request can change

`parse_http_request` splits the whole text into lines: `strtok` skips the blank line behind
the head, so that the loop, which ends at an empty line, goes on through the body.  And the
value of a header line without a value is read behind the `NUL` that `strtok` wrote.
-/

namespace Jdbx

open Library

/-- The header lines of `parse_http_request`: where each starts in the copy, and the memory
from there on when it is read. -/
def readHeaderLines : Nat → Bytes → Nat → List (Nat × Bytes)
  | 0, _, _ => []
  | fuel + 1, memory, cursor =>
    let result := strtokAt [13, 10] memory cursor
    match result.token with
    | none => []
    | some start =>
      let line := result.memory.drop start
      if line.headD 0 = 0 then []
      else (start, line) :: readHeaderLines fuel result.memory result.cursor

def headerReads (requestStr behind : Bytes) : List (Nat × Bytes) :=
  let first := strtokAt [13, 10] (requestStr ++ 0 :: behind) 0
  match first.token with
  | none => []
  | some _ => readHeaderLines (requestStr.length + 1) first.memory first.cursor

theorem parseHeaderLines_eq_foldl :
    ∀ (fuel : Nat) (memory : Bytes) (cursor : Nat) (request : HttpRequest),
      parseHeaderLines fuel memory cursor request =
        (readHeaderLines fuel memory cursor).foldl (fun request line => applyHeader request line.2)
          request := by
  intro fuel
  induction fuel with
  | zero =>
    intro memory cursor request
    rfl
  | succ fuel ih =>
    intro memory cursor request
    rw [parseHeaderLines, readHeaderLines]
    cases found : (strtokAt [13, 10] memory cursor).token with
    | none => rfl
    | some start =>
      dsimp only
      split_ifs
      · rfl
      · exact ih _ _ _

/-- A request head: the first `CRLF CRLF` is at its end. -/
def IsRequestHead (head : Bytes) : Prop :=
  findText [13, 10, 13, 10] head = some [13, 10, 13, 10]

instance : DecidablePred IsRequestHead :=
  fun _ => inferInstanceAs (Decidable (_ = _))

def HttpRequest.withoutBody (request : HttpRequest) : HttpRequest :=
  { request with body := none }

def isHeaderLine (line : Bytes) : Bool :=
  headerNames.any fun name => startsWithIgnoringCase name line

/-- A line that starts in the head gives what it gives in the memory without the body, and a
line that starts in the body is no header. -/
structure ReadWithoutBody (head requestStr : Bytes) (line : Nat × Bytes) : Prop where
  inHead : line.1 < head.length → ∀ request,
    applyHeader request line.2 = applyHeader request
      (line.2.take (head.length - line.1) ++
        line.2.drop (max head.length requestStr.length - line.1))
  inBody : head.length ≤ line.1 → isHeaderLine (cString line.2) = false

def BodyUnread (head requestStr behind : Bytes) : Prop :=
  ∀ line ∈ headerReads requestStr behind, ReadWithoutBody head requestStr line

/-- The head followed by either body gives the same request but for the body, and neither
body is read as a header.  `behind` is the memory behind the copy of a text. -/
structure DecidedByHead (behind : Bytes → Bytes) (head first second : Bytes) : Prop where
  same : (parseHttpRequest (cString (head ++ first))
      (behind (cString (head ++ first)))).withoutBody =
    (parseHttpRequest (cString (head ++ second))
      (behind (cString (head ++ second)))).withoutBody
  first : BodyUnread head (cString (head ++ first)) (behind (cString (head ++ first)))
  second : BodyUnread head (cString (head ++ second)) (behind (cString (head ++ second)))

/-! ## Where it holds -/

def linesOf (text : Bytes) : List (Bytes × Bytes) :=
  tokens [13, 10] text.length text

def requestLineOf (lines : List (Bytes × Bytes)) : Option HttpRequest :=
  lines.head?.map fun line => applyRequestLine emptyHttpRequest line.1

def bodyHeaders (head body : Bytes) : List (Bytes × Bytes) :=
  if linesOf head = [] then (linesOf body).tail else linesOf body

def copiedHeaders : List Bytes :=
  [ascii "Content-Type:", ascii "Authorization:", ascii "Cookie:", ascii "Origin:",
    ascii "User-Agent:"]

def isBare (name line : Bytes) : Bool :=
  line.map tolower = name.map tolower

def StaysInHead (body : Bytes) (line : Bytes × Bytes) : Prop :=
  (copiedHeaders.any (fun name => isBare name line.1) = true → body = []) ∧
    (isBare (ascii "Content-Length:") line.1 = true → line.2.all isspace = true →
      atoi body = 0)

/-- The bodies give the same request line, if the head has none, and no line of a body starts
with the name of a header.  No header line of the head is a bare name whose value would be
read behind it in a body. -/
def HeadSuffices (head first second : Bytes) : Prop :=
  0 ∈ head ∨
    (requestLineOf (linesOf head ++ linesOf first) =
        requestLineOf (linesOf head ++ linesOf second) ∧
      ∀ body ∈ [first, second],
        (∀ line ∈ bodyHeaders head body, isHeaderLine line.1 = false) ∧
          ∀ line ∈ (linesOf head).tail, StaysInHead body line)

instance (body : Bytes) : DecidablePred (StaysInHead body) :=
  fun _ => inferInstanceAs (Decidable (_ ∧ _))

instance (head first second : Bytes) : Decidable (HeadSuffices head first second) :=
  inferInstanceAs (Decidable (_ ∨ _))

section Reading

variable {head body behind : Bytes}

/-- A line of the head in the copy: it ends before the head does, and the rest of the head and
the body stand behind its `NUL`. -/
structure ReadInHead (stop : Nat) (ending body behind : Bytes) (read : Nat × Bytes)
    (line : Bytes × Bytes) : Prop where
  start : read.1 + (line.1.length + (line.2.length + 1)) = stop
  memory : read.2 = line.1 ++ 0 :: (line.2 ++ (body ++ 0 :: behind))
  lineFree : NulFree line.1
  restFree : NulFree line.2
  ends : ending.tail <:+ line.2

/-- A line of the body in the copy. -/
structure ReadInBody (stop finish : Nat) (read : Nat × Bytes) (line : Bytes × Bytes) : Prop where
  start : stop ≤ read.1
  inside : read.1 < finish
  memory : ∃ tail, read.2 = line.1 ++ 0 :: tail
  lineFree : NulFree line.1

theorem headD_ne_zero {line : Bytes} (nonempty : line ≠ []) (nulFree : NulFree line)
    (tail : Bytes) : (line ++ 0 :: tail).headD 0 ≠ 0 := by
  cases line with
  | nil => exact absurd rfl nonempty
  | cons byte line => exact fun zero => nulFree (zero ▸ List.mem_cons_self)

theorem readHeaderLines_body : ∀ (fuel : Nat) {text : Bytes}, NulFree text → text.length ≤ fuel →
    ∀ (before behind : Bytes), List.Forall₂
      (ReadInBody before.length (before.length + text.length))
      (readHeaderLines fuel (before ++ (text ++ 0 :: behind)) before.length) (linesOf text) := by
  have noNul : (0 : UInt8) ∉ ([13, 10] : Bytes) := by decide
  intro fuel
  induction fuel with
  | zero =>
    intro text _ none before behind
    rw [List.eq_nil_of_length_eq_zero (Nat.le_zero.mp none)]
    exact .nil
  | succ fuel ih =>
    intro text nulFree enough before behind
    rw [readHeaderLines]
    cases call : strtok [13, 10] text with
    | none =>
      rw [linesOf, tokens_of_none call]
      simp only [strtokAt_none noNul call before behind]
      exact .nil
    | some parts =>
      have free := StrtokState.strtok_nulFree nulFree call
      have shorter := strtok_shorter call
      obtain ⟨skipped, ending, result, ends⟩ := strtokAt_copy noNul nulFree call before behind
      obtain ⟨tail, inMemory⟩ := drop_token ends parts.1 before skipped behind
      have visible := headD_ne_zero free.1 free.2.1 tail
      rw [linesOf, tokens_of_some call]
      simp only [result, inMemory, if_neg visible]
      have lengths := strtokAt_length [13, 10] (before ++ (text ++ 0 :: behind)) before.length
      have positive : 0 < parts.1.length := List.length_pos_iff.mpr free.1
      rw [result] at lengths
      simp only [List.length_append, List.length_cons] at lengths
      refine .cons ⟨Nat.le_add_right _ _, ?_, ⟨tail, rfl⟩, free.2.1⟩ ?_
      · dsimp only
        omega
      · have later := ih free.2.2 (by omega)
          (before ++ (skipped ++ (parts.1 ++ ending))) behind
        refine later.imp fun read line inBody => ⟨?_, ?_, inBody.memory, inBody.lineFree⟩
        · exact Nat.le_trans (by rw [List.length_append]; omega) inBody.start
        · apply Nat.lt_of_lt_of_le inBody.inside
          simp only [List.length_append]
          omega

/-- What the loop reads in a head and a body behind it.  `ending` is what the head ends with;
the head is empty, or has no line left, or ends with it. -/
theorem readHeaderLines_head {ending : Bytes} (all : ∀ byte ∈ ending, byte ∈ ([13, 10] : Bytes))
    (some : ending ≠ []) (bodyFree : NulFree body) (behind : Bytes) :
    ∀ (fuel : Nat) {head : Bytes}, NulFree head → head.length + body.length ≤ fuel →
      (linesOf head = [] ∨ ending <:+ head) → ∀ before : Bytes, ∃ inHead inBody,
        readHeaderLines fuel (before ++ (head ++ (body ++ 0 :: behind))) before.length =
            inHead ++ inBody ∧
          List.Forall₂ (ReadInHead (before.length + head.length) ending body behind) inHead
            (linesOf head) ∧
          List.Forall₂ (ReadInBody (before.length + head.length)
            (before.length + head.length + body.length)) inBody (linesOf body) := by
  have noNul : (0 : UInt8) ∉ ([13, 10] : Bytes) := by decide
  intro fuel
  induction fuel with
  | zero =>
    intro head _ none _ before
    rw [List.eq_nil_of_length_eq_zero (by omega : head.length = 0),
      List.eq_nil_of_length_eq_zero (by omega : body.length = 0)]
    exact ⟨[], [], rfl, .nil, .nil⟩
  | succ fuel ih =>
    intro head headFree enough ends before
    cases call : strtok [13, 10] head with
    | none =>
      have skipped := strtok_eq_none_iff.mp call
      have empty : linesOf head = [] := tokens_of_none call _
      have bodyLines :=
        readHeaderLines_body (fuel + 1) bodyFree (by omega) (before ++ head) behind
      rw [List.append_assoc, List.length_append] at bodyLines
      refine ⟨[], _, ?_, empty ▸ .nil, bodyLines⟩
      rw [List.nil_append, readHeaderLines, readHeaderLines, strtokAt_skip skipped,
        List.length_append]
    | some parts =>
      have wasEmpty : linesOf head ≠ [] := by
        rw [linesOf, tokens_of_some call]
        exact List.cons_ne_nil _ _
      have notEmpty : ending <:+ head := ends.resolve_left wasEmpty
      obtain ⟨skipped, delimiter, isDelimiter, allSkipped, whole, later⟩ :=
        strtok_ending call all some notEmpty
      have free := StrtokState.strtok_nulFree headFree call
      obtain ⟨-, -, nonempty, inside, -⟩ := strtok_layout call
      have both : ∀ byte ∈ parts.1, byte ≠ 0 ∧ byte ∉ ([13, 10] : Bytes) := by
        intro byte member
        refine ⟨?_, inside byte member⟩
        rintro rfl
        exact free.2.1 member
      have visible : delimiter ≠ 0 := by
        rintro rfl
        exact noNul isDelimiter
      have result := strtokAt_span allSkipped nonempty both (Or.inr isDelimiter) before
        (parts.2 ++ (body ++ 0 :: behind))
      rw [if_neg visible] at result
      have memory : before ++ (head ++ (body ++ 0 :: behind)) =
          before ++ (skipped ++ (parts.1 ++ delimiter ::
            (parts.2 ++ (body ++ 0 :: behind)))) := by
        rw [whole]
        simp only [List.append_assoc, List.cons_append]
      have ended : before ++ (skipped ++ (parts.1 ++ 0 :: (parts.2 ++ (body ++ 0 :: behind)))) =
          (before ++ (skipped ++ (parts.1 ++ [0]))) ++ (parts.2 ++ (body ++ 0 :: behind)) := by
        simp only [List.append_assoc, List.cons_append, List.nil_append]
      have line : (before ++ (skipped ++ (parts.1 ++ 0 ::
          (parts.2 ++ (body ++ 0 :: behind))))).drop (before.length + skipped.length) =
            parts.1 ++ 0 :: (parts.2 ++ (body ++ 0 :: behind)) := by
        rw [← List.append_assoc, ← List.length_append, List.drop_left]
      have lengths : head.length =
          skipped.length + (parts.1.length + (parts.2.length + 1)) := by
        rw [whole, List.length_append, List.length_append, List.length_cons]
      have rest : linesOf parts.2 = [] ∨ ending <:+ parts.2 := by
        rcases List.suffix_cons_iff.mp later with exactly | inside
        · left
          apply tokens_of_none
          apply strtok_eq_none_iff.mpr
          intro byte member
          exact all byte (exactly ▸ List.mem_cons_of_mem _ member)
        · exact Or.inr inside
      obtain ⟨inHead, inBody, reads, headLines, bodyLines⟩ := ih free.2.2
        (by omega) rest (before ++ (skipped ++ (parts.1 ++ [0])))
      have stop : (before ++ (skipped ++ (parts.1 ++ [0]))).length + parts.2.length =
          before.length + head.length := by
        simp only [List.length_append, List.length_singleton]
        omega
      rw [stop] at headLines bodyLines
      refine ⟨(before.length + skipped.length, parts.1 ++ 0 ::
        (parts.2 ++ (body ++ 0 :: behind))) :: inHead, inBody, ?_, ?_, bodyLines⟩
      · rw [memory, readHeaderLines, result]
        dsimp only
        rw [line, if_neg (headD_ne_zero nonempty free.2.1 _), ended, reads, List.cons_append]
      · rw [linesOf, tokens_of_some call]
        refine .cons ⟨?_, rfl, free.2.1, free.2.2, ?_⟩ headLines
        · dsimp only
          omega
        · rcases List.suffix_cons_iff.mp later with exactly | inside
          · rw [exactly]
            exact List.suffix_refl _
          · exact (List.tail_suffix _).trans inside

end Reading

section Bare

variable {name line rest body : Bytes} {request : HttpRequest}

theorem startsWith_of_bare (bare : isBare name line = true) (other : Bytes) :
    startsWithIgnoringCase other line = startsWithIgnoringCase other name := by
  rw [startsWithIgnoringCase, of_decide_eq_true bare, startsWithIgnoringCase]

theorem length_of_bare (bare : isBare name line = true) : line.length = name.length := by
  have same := congrArg List.length (of_decide_eq_true bare)
  rwa [List.length_map, List.length_map] at same

theorem drop_bare (bare : isBare name line = true) (tail : Bytes) :
    (line ++ 0 :: tail).drop (name.length + 1) = tail := by
  rw [← length_of_bare bare, ← List.drop_drop, List.drop_left]
  rfl

theorem headerValue_bare (bare : isBare name line = true) (tail : Bytes) :
    headerValue (line ++ 0 :: tail) (name.length + 1) = cString (tail.dropWhile (· = 32)) := by
  rw [headerValue, drop_bare bare]

variable (nulFree : NulFree line)
include nulFree

theorem applyHeader_copied (listed : name ∈ copiedHeaders) (bare : isBare name line = true) :
    ∃ setField : HttpRequest → Bytes → HttpRequest,
      (∀ request tail, applyHeader request (line ++ 0 :: tail) =
        setField request (cString (tail.dropWhile (· = 32)))) ∧
      ∀ request value other, setField request value = setField request other → value = other := by
  have value : ∀ offset, offset = name.length + 1 → ∀ tail,
      headerValue (line ++ 0 :: tail) offset = cString (tail.dropWhile (· = 32)) := by
    rintro offset rfl tail
    exact headerValue_bare bare tail
  have text : ∀ tail, cString (line ++ 0 :: tail) = line := cString_append_nul nulFree
  simp only [copiedHeaders, List.mem_cons, List.not_mem_nil, or_false] at listed
  rcases listed with rfl | rfl | rfl | rfl | rfl
  · refine ⟨fun request value => { request with contentType := some value }, ?_, ?_⟩
    · intro request tail
      simp only [applyHeader, text, startsWith_of_bare bare]
      rw [if_pos (by decide)]
      rw [value 14 rfl]
    · exact fun request value other same => Option.some.inj (congrArg HttpRequest.contentType same)
  · refine ⟨fun request value => { request with authorization := some value }, ?_, ?_⟩
    · intro request tail
      simp only [applyHeader, text, startsWith_of_bare bare]
      rw [if_neg (by decide), if_neg (by decide), if_pos (by decide)]
      rw [value 15 rfl]
    · intro request value other same
      exact Option.some.inj (congrArg HttpRequest.authorization same)
  · refine ⟨fun request value => { request with cookieHeader := some value }, ?_, ?_⟩
    · intro request tail
      simp only [applyHeader, text, startsWith_of_bare bare]
      rw [if_neg (by decide), if_neg (by decide), if_neg (by decide), if_pos (by decide)]
      rw [value 8 rfl]
    · exact fun request value other same => Option.some.inj (congrArg HttpRequest.cookieHeader same)
  · refine ⟨fun request value => { request with origin := some value }, ?_, ?_⟩
    · intro request tail
      simp only [applyHeader, text, startsWith_of_bare bare]
      rw [if_neg (by decide), if_neg (by decide), if_neg (by decide), if_neg (by decide),
        if_pos (by decide)]
      rw [value 8 rfl]
    · exact fun request value other same => Option.some.inj (congrArg HttpRequest.origin same)
  · refine ⟨fun request value => { request with userAgent := some value }, ?_, ?_⟩
    · intro request tail
      simp only [applyHeader, text, startsWith_of_bare bare]
      rw [if_neg (by decide), if_neg (by decide), if_neg (by decide), if_neg (by decide),
        if_neg (by decide), if_pos (by decide)]
      rw [value 12 rfl]
    · exact fun request value other same => Option.some.inj (congrArg HttpRequest.userAgent same)

theorem applyHeader_contentLength (bare : isBare (ascii "Content-Length:") line = true)
    (tail : Bytes) : applyHeader request (line ++ 0 :: tail) =
      { request with contentLength := (atoi (cString tail)).toInt64.toUInt64 } := by
  have text : cString (line ++ 0 :: tail) = line := cString_append_nul nulFree tail
  simp only [applyHeader, text, startsWith_of_bare bare]
  rw [if_neg (by decide), if_pos (by decide)]
  have from16 : (line ++ 0 :: tail).drop 16 = tail := drop_bare bare tail
  rw [from16]

theorem applyHeader_connection (bare : isBare (ascii "Connection:") line = true) (tail : Bytes) :
    applyHeader request (line ++ 0 :: tail) =
      if startsWithIgnoringCase (ascii "keep-alive") (cString (tail.dropWhile (· = 32))) then
        { request with keepAlive := true }
      else if startsWithIgnoringCase (ascii "close") (cString (tail.dropWhile (· = 32))) then
        { request with keepAlive := false }
      else request := by
  have text : cString (line ++ 0 :: tail) = line := cString_append_nul nulFree tail
  have value : headerValue (line ++ 0 :: tail) 12 = cString (tail.dropWhile (· = 32)) :=
    headerValue_bare bare tail
  simp only [applyHeader, text, startsWith_of_bare bare, value]
  rw [if_neg (by decide), if_neg (by decide), if_neg (by decide), if_neg (by decide),
    if_neg (by decide), if_neg (by decide), if_pos (by decide)]

end Bare

/-! ## Values read in the head -/

variable {text : Bytes}

theorem takeWhile_append_of_stop {p : UInt8 → Bool} (stops : ∃ byte ∈ text, p byte = false)
    (others : Bytes) :
    (text ++ others).takeWhile p = text.takeWhile p := by
  rw [List.takeWhile_append]
  split_ifs with whole
  · obtain ⟨byte, member, stop⟩ := stops
    have all : text.takeWhile p = text := (List.takeWhile_prefix p).eq_of_length whole
    have taken := List.takeWhile_eq_self_iff.mp all byte member
    rw [stop] at taken
    cases taken
  · rfl

theorem dropWhile_append_of_stop {p : UInt8 → Bool} (stops : ∃ byte ∈ text, p byte = false)
    (others : Bytes) :
    (text ++ others).dropWhile p = text.dropWhile p ++ others := by
  rw [List.dropWhile_append, if_neg]
  intro empty
  obtain ⟨byte, member, stop⟩ := stops
  have passed := List.dropWhile_eq_nil_iff.mp (List.isEmpty_iff.mp empty) byte member
  rw [stop] at passed
  cases passed

theorem atoi_append_of_space (space : text.all isspace = true) (others : Bytes) :
    atoi (text ++ others) = atoi others := by
  rw [atoi, atoi, List.dropWhile_append_of_pos (List.all_eq_true.mp space)]

theorem atoi_of_space (space : text.all isspace = true) : atoi text = 0 := by
  have whole := atoi_append_of_space space []
  rw [List.append_nil] at whole
  exact whole.trans (by decide)

theorem contentLength_inj {number other : Int32}
    (stored : number.toInt64.toUInt64 = other.toInt64.toUInt64) : number = other := by
  have wide : number.toInt64 = other.toInt64 := by
    have same := congrArg UInt64.toInt64 stored
    rwa [Int64.toInt64_toUInt64, Int64.toInt64_toUInt64] at same
  have narrow := congrArg Int64.toInt32 wide
  rwa [Int32.toInt32_toInt64, Int32.toInt32_toInt64] at narrow

/-- What `atoi` reads behind the white space: the sign and the digits. -/
def signAndDigits : Bytes → Bool × Bytes
  | [] => (false, [])
  | first :: others =>
    if first = 45 then (true, others.takeWhile isdigit)
    else if first = 43 then (false, others.takeWhile isdigit)
    else (false, (first :: others).takeWhile isdigit)

theorem atoi_congr {text other : Bytes}
    (same : signAndDigits (text.dropWhile isspace) = signAndDigits (other.dropWhile isspace)) :
    atoi text = atoi other := by
  have reads : ∀ text : Bytes, atoi text =
      let read := signAndDigits (text.dropWhile isspace)
      let magnitude : Int := read.2.foldl (fun value byte => value * 10 + (byte.toNat - 48)) 0
      Int32.ofInt (if read.1 then max (-magnitude) (-2 ^ 63) else min magnitude (2 ^ 63 - 1)) := by
    intro text
    rw [atoi]
    cases rest : text.dropWhile isspace with
    | nil => rfl
    | cons first others =>
      rw [signAndDigits]
      by_cases minus : first = 45
      · rw [if_pos minus, minus]
        rfl
      · rw [if_neg minus]
        by_cases plus : first = 43
        · rw [if_pos plus, plus]
          rfl
        · rw [if_neg plus]
          split
          next sign digits found =>
            split at found
            · exact absurd (List.cons.inj ‹_›).1 minus
            · exact absurd (List.cons.inj ‹_›).1 plus
            · rw [← (Prod.mk.inj found).1, ← (Prod.mk.inj found).2]
  rw [reads, reads, same]

theorem getLast?_of_suffix {part text : Bytes} (isEnd : part <:+ text) (nonempty : part ≠ []) :
    part.getLast? = text.getLast? := by
  obtain ⟨front, whole⟩ := isEnd
  rw [← whole, List.getLast?_append, List.getLast?_eq_some_getLast nonempty, Option.some_or]

theorem atoi_append_of_stop (visible : text.all isspace = false) (ends : text.getLast? = some 10)
    (others : Bytes) : atoi (text ++ others) = atoi text := by
  obtain ⟨byte, member, stop⟩ := List.all_eq_false.mp visible
  apply atoi_congr
  rw [dropWhile_append_of_stop ⟨byte, member, Bool.eq_false_iff.mpr stop⟩ others]
  have isEnd := List.dropWhile_suffix isspace (l := text)
  have digits : ∀ {part : Bytes}, (10 : UInt8) ∈ part →
      (part ++ others).takeWhile isdigit = part.takeWhile isdigit :=
    fun inside => takeWhile_append_of_stop ⟨10, inside, rfl⟩ others
  cases rest : text.dropWhile isspace with
  | nil => exact absurd (List.dropWhile_eq_nil_iff.mp rest byte member) stop
  | cons first part =>
    have notSpace : isspace first = false := by
      have head := List.head?_dropWhile_not isspace text
      rw [rest] at head
      simpa using head
    have inside : (10 : UInt8) ∈ part := by
      have last := getLast?_of_suffix isEnd (rest ▸ List.cons_ne_nil first part)
      rw [ends, rest] at last
      rcases List.mem_cons.mp (List.mem_of_getLast? last) with same | inside
      · rw [← same] at notSpace
        cases notSpace
      · exact inside
    rw [List.cons_append, signAndDigits, signAndDigits, digits inside, ← List.cons_append,
      digits (List.mem_cons_of_mem _ inside)]

theorem startsWith_append_of_stop {word text : Bytes} (plain : (10 : UInt8) ∉ word.map tolower)
    (ends : text.getLast? = some 10) (others : Bytes) :
    startsWithIgnoringCase word (text ++ others) = startsWithIgnoringCase word text := by
  obtain ⟨front, whole⟩ := List.getLast?_eq_some_iff.mp ends
  rw [startsWithIgnoringCase, startsWithIgnoringCase, whole, Bool.eq_iff_iff,
    List.isPrefixOf_iff_prefix, List.isPrefixOf_iff_prefix, List.map_append, List.map_append]
  constructor
  · intro starts
    apply List.prefix_of_prefix_length_le starts (List.prefix_append _ _)
    by_contra longer
    apply plain
    have beyond := List.prefix_of_prefix_length_le (List.prefix_append _ _) starts
      (Nat.le_of_not_le longer)
    exact beyond.subset (List.mem_append_right _ (by decide))
  · exact fun starts => starts.trans (List.prefix_append _ _)

/-- What a line of the head gives does not depend on the body just if its value ends in the
head. -/
theorem unread_iff {line rest body : Bytes} (lineFree : NulFree line) (restFree : NulFree rest)
    (bodyFree : NulFree body) (ends : rest.getLast? = some 10) (behind other : Bytes) :
    (∀ request, applyHeader request (line ++ 0 :: (rest ++ (body ++ 0 :: behind))) =
        applyHeader request (line ++ 0 :: (rest ++ 0 :: other))) ↔
      StaysInHead body (line, rest) := by
  have bothFree : NulFree (rest ++ body) := fun nul =>
    (List.mem_append.mp nul).elim restFree bodyFree
  have stops : ∃ byte ∈ rest, decide (byte = 32) = false :=
    ⟨10, List.mem_of_getLast? ends, rfl⟩
  -- The C strings that stand behind the line, without and with leading spaces.
  have whole : cString (rest ++ (body ++ 0 :: behind)) = rest ++ body := by
    rw [← List.append_assoc]
    exact cString_append_nul bothFree behind
  have alone : cString (rest ++ 0 :: other) = rest := cString_append_nul restFree other
  have valueAlone : cString ((rest ++ 0 :: other).dropWhile (· = 32)) =
      rest.dropWhile (· = 32) := by
    rw [dropWhile_append_of_stop stops]
    exact cString_append_nul (fun nul => restFree ((List.dropWhile_sublist _).subset nul)) other
  have valueWhole : cString ((rest ++ (body ++ 0 :: behind)).dropWhile (· = 32)) =
      rest.dropWhile (· = 32) ++ body := by
    rw [dropWhile_append_of_stop stops, ← List.append_assoc]
    apply cString_append_nul
    intro nul
    rcases List.mem_append.mp nul with inRest | inBody
    · exact restFree ((List.dropWhile_sublist _).subset inRest)
    · exact bodyFree inBody
  have valueEnds : (rest.dropWhile (· = 32)).getLast? = some 10 := by
    rw [← ends]
    apply getLast?_of_suffix (List.dropWhile_suffix _)
    intro empty
    obtain ⟨byte, member, stop⟩ := stops
    exact Bool.eq_false_iff.mp stop (List.dropWhile_eq_nil_iff.mp empty byte member)
  by_cases copied : copiedHeaders.any (fun name => isBare name line) = true
  · obtain ⟨name, listed, bare⟩ := List.any_eq_true.mp copied
    obtain ⟨setField, sets, injective⟩ := applyHeader_copied lineFree listed bare
    have notLength : isBare (ascii "Content-Length:") line = false := by
      rw [isBare, of_decide_eq_true bare]
      have others : ∀ name ∈ copiedHeaders, decide (name.map tolower =
          (ascii "Content-Length:").map tolower) = false :=
        List.all_iff_forall_prop.mp (by decide)
      exact others name listed
    constructor
    · intro same
      refine ⟨fun _ => ?_, fun isLength => absurd isLength (Bool.eq_false_iff.mp notLength)⟩
      have values := same emptyHttpRequest
      rw [sets, sets, valueWhole, valueAlone] at values
      have equal := injective _ _ _ values
      exact List.append_right_eq_self.mp equal
    · intro stays request
      rw [sets, sets, valueWhole, valueAlone, stays.1 copied, List.append_nil]
  · by_cases isLength : isBare (ascii "Content-Length:") line = true
    · have reads : ∀ tail request, applyHeader request (line ++ 0 :: tail) = _ :=
        fun tail request => applyHeader_contentLength lineFree isLength tail
      constructor
      · intro same
        refine ⟨fun isCopied => absurd isCopied copied, fun _ space => ?_⟩
        have sizes := congrArg HttpRequest.contentLength (same emptyHttpRequest)
        rw [reads, reads, whole, alone] at sizes
        dsimp only at sizes space
        rw [atoi_append_of_space space, atoi_of_space space] at sizes
        exact contentLength_inj sizes
      · intro stays request
        rw [reads, reads, whole, alone]
        cases space : rest.all isspace with
        | true => rw [atoi_append_of_space space, atoi_of_space space, stays.2 isLength space]
        | false => rw [atoi_append_of_stop space ends]
    · have trivially : StaysInHead body (line, rest) :=
        ⟨fun isCopied => absurd isCopied copied, fun isLength' => absurd isLength' isLength⟩
      refine iff_of_true ?_ trivially
      intro request
      by_cases connection : isBare (ascii "Connection:") line = true
      · rw [applyHeader_connection lineFree connection, applyHeader_connection lineFree connection,
          valueWhole, valueAlone, startsWith_append_of_stop (by decide) valueEnds,
          startsWith_append_of_stop (by decide) valueEnds]
      · have notBare : isBareHeader line = false := by
          simp only [copiedHeaders, isBare, List.any_cons, List.any_nil, Bool.or_false,
            Bool.or_eq_true, decide_eq_true_eq, not_or] at copied isLength connection
          simp only [isBareHeader, headerNames, List.any_cons, List.any_nil, Bool.or_false,
            Bool.or_eq_false_iff, decide_eq_false_iff_not]
          simp only [eq_comm, copied, isLength, connection, not_false_eq_true, and_self]
        rw [applyHeader_append_nul request lineFree notBare,
          applyHeader_append_nul request lineFree notBare (rest ++ 0 :: other)]

/-! ## The whole request -/

theorem readHeaderLines_first (nulFree : NulFree text) (fuel : Nat) (behind : Bytes) :
    readHeaderLines (fuel + 1) (text ++ 0 :: behind) 0 =
      let first := strtokAt [13, 10] (text ++ 0 :: behind) 0
      match first.token with
      | none => []
      | some start =>
        (start, first.memory.drop start) :: readHeaderLines fuel first.memory first.cursor := by
  have noNul : (0 : UInt8) ∉ ([13, 10] : Bytes) := by decide
  rw [readHeaderLines]
  cases call : strtok [13, 10] text with
  | none =>
    have first := strtokAt_none noNul call [] behind
    rw [List.nil_append, List.length_nil] at first
    simp only [first]
  | some parts =>
    have free := StrtokState.strtok_nulFree nulFree call
    obtain ⟨skipped, ending, result, ends⟩ := strtokAt_copy noNul nulFree call [] behind
    obtain ⟨tail, inMemory⟩ := drop_token ends parts.1 [] skipped behind
    rw [List.nil_append, List.length_nil] at result
    rw [List.length_nil] at inMemory
    simp only [result, inMemory, if_neg (headD_ne_zero free.1 free.2.1 tail)]

theorem headerReads_eq (nulFree : NulFree text) (behind : Bytes) :
    headerReads text behind = (readHeaderLines (text.length + 2) (text ++ 0 :: behind) 0).tail := by
  rw [headerReads, readHeaderLines_first nulFree]
  dsimp only
  cases (strtokAt [13, 10] (text ++ 0 :: behind) 0).token <;> rfl

theorem parseHttpRequest_eq (nulFree : NulFree text) (behind : Bytes) :
    parseHttpRequest text behind =
      match readHeaderLines (text.length + 2) (text ++ 0 :: behind) 0 with
      | [] => emptyHttpRequest
      | first :: later =>
        finishRequest text (later.foldl (fun request line => applyHeader request line.2)
          (applyRequestLine emptyHttpRequest first.2)) := by
  rw [readHeaderLines_first nulFree, parseHttpRequest]
  dsimp only
  cases (strtokAt [13, 10] (text ++ 0 :: behind) 0).token with
  | none => rfl
  | some start =>
    dsimp only
    rw [parseHeaderLines_eq_foldl]

theorem withoutBody_finishRequest (text : Bytes) (request : HttpRequest) :
    (finishRequest text request).withoutBody = (parseCookies request).withoutBody := by
  have cookies : ∀ body, (parseCookies { request with body := body }).withoutBody =
      (parseCookies request).withoutBody := by
    intro body
    cases found : request.cookieHeader with
    | none => simp only [HttpRequest.withoutBody, parseCookies, found]
    | some cookieHeader => simp only [HttpRequest.withoutBody, parseCookies, found]
  rw [finishRequest]
  split_ifs
  · cases findText [13, 10, 13, 10] text with
    | none => rfl
    | some found => exact cookies _
  · rfl

theorem applyHeader_of_no_header {memory : Bytes} (none : isHeaderLine (cString memory) = false)
    (request : HttpRequest) : applyHeader request memory = request := by
  simp only [isHeaderLine, headerNames, List.any_cons, List.any_nil, Bool.or_false,
    Bool.or_eq_false_iff] at none
  simp only [applyHeader, none, Bool.false_eq_true, if_false]

theorem forall_iff_of_forall₂ {α β : Type} {relation : α → β → Prop} {property : α → Prop}
    {other : β → Prop} (same : ∀ first second, relation first second →
      (property first ↔ other second)) :
    ∀ {firsts : List α} {seconds : List β}, List.Forall₂ relation firsts seconds →
      ((∀ first ∈ firsts, property first) ↔ ∀ second ∈ seconds, other second) := by
  intro firsts seconds related
  induction related with
  | nil => exact iff_of_true nofun nofun
  | cons head _ ih => rw [List.forall_mem_cons, List.forall_mem_cons, same _ _ head, ih]

theorem forall₂_tail {α β : Type} {relation : α → β → Prop} {firsts : List α} {seconds : List β}
    (related : List.Forall₂ relation firsts seconds) :
    List.Forall₂ relation firsts.tail seconds.tail := by
  cases related with
  | nil => exact .nil
  | cons _ later => exact later

section Whole

variable {head body : Bytes}

def readHead (head : Bytes) (request : HttpRequest) : HttpRequest :=
  (linesOf head).tail.foldl
    (fun request line => applyHeader request (line.1 ++ 0 :: (line.2 ++ [0]))) request

variable (isHead : IsRequestHead head) (headFree : NulFree head) (bodyFree : NulFree body)
  (behind : Bytes)

include isHead headFree bodyFree

theorem readHeaderLines_whole : ∃ inHead inBody,
    readHeaderLines ((head ++ body).length + 2) (head ++ body ++ 0 :: behind) 0 = inHead ++ inBody ∧
      List.Forall₂ (ReadInHead head.length [13, 10, 13, 10] body behind) inHead (linesOf head) ∧
      List.Forall₂ (ReadInBody head.length (head ++ body).length) inBody (linesOf body) := by
  have ends : [13, 10, 13, 10] <:+ head := (findText_spec isHead).2
  have all : ∀ byte ∈ ([13, 10, 13, 10] : Bytes), byte ∈ ([13, 10] : Bytes) :=
    List.all_iff_forall_prop.mp (by decide)
  obtain ⟨inHead, inBody, reads, headLines, bodyLines⟩ := readHeaderLines_head all (by decide)
    bodyFree behind ((head ++ body).length + 2) headFree (by rw [List.length_append]; omega)
    (Or.inr ends) []
  rw [List.nil_append, List.length_nil, ← List.append_assoc] at reads
  rw [List.length_nil, Nat.zero_add] at headLines bodyLines
  rw [List.length_append]
  rw [List.length_append] at reads
  exact ⟨inHead, inBody, reads, headLines, bodyLines⟩

omit isHead headFree in
theorem inHead_iff (read : Nat × Bytes) (line : Bytes × Bytes)
    (inHead : ReadInHead head.length [13, 10, 13, 10] body behind read line) :
    ReadWithoutBody head (head ++ body) read ↔ StaysInHead body line := by
  have start := inHead.start
  have before : read.1 < head.length := by omega
  have kept : head.length - read.1 = (line.1 ++ 0 :: line.2).length := by
    rw [List.length_append, List.length_cons]
    omega
  have cut : max head.length (head ++ body).length - read.1 =
      (line.1 ++ 0 :: line.2 ++ body).length := by
    simp only [List.length_append, List.length_cons]
    omega
  have whole : read.2 = line.1 ++ 0 :: line.2 ++ body ++ 0 :: behind := by
    rw [inHead.memory]
    simp only [List.append_assoc, List.cons_append]
  have without : read.2.take (head.length - read.1) ++
      read.2.drop (max head.length (head ++ body).length - read.1) =
        line.1 ++ 0 :: (line.2 ++ 0 :: behind) := by
    rw [kept, cut, whole, List.drop_left, List.append_assoc (line.1 ++ 0 :: line.2), List.take_left]
    simp only [List.append_assoc, List.cons_append]
  have ends : line.2.getLast? = some 10 :=
    (getLast?_of_suffix inHead.ends (by decide)).symm
  rw [← unread_iff inHead.lineFree inHead.restFree bodyFree ends behind behind, ← inHead.memory,
    ← without]
  constructor
  · exact fun unread => unread.inHead before
  · exact fun same => ⟨fun _ => same, fun after => absurd before (Nat.not_lt.mpr after)⟩

omit isHead headFree bodyFree in
theorem inBody_iff (read : Nat × Bytes) (line : Bytes × Bytes)
    (inBody : ReadInBody head.length (head ++ body).length read line) :
    ReadWithoutBody head (head ++ body) read ↔ isHeaderLine line.1 = false := by
  obtain ⟨tail, memory⟩ := inBody.memory
  have text : cString read.2 = line.1 := by
    rw [memory]
    exact cString_append_nul inBody.lineFree tail
  rw [← text]
  constructor
  · exact fun unread => unread.inBody inBody.start
  · exact fun none => ⟨fun before => absurd inBody.start (Nat.not_le.mpr before), fun _ => none⟩

theorem bodyUnread_iff : BodyUnread head (head ++ body) behind ↔
    (∀ line ∈ bodyHeaders head body, isHeaderLine line.1 = false) ∧
      ∀ line ∈ (linesOf head).tail, StaysInHead body line := by
  have free : NulFree (head ++ body) := fun nul => (List.mem_append.mp nul).elim headFree bodyFree
  obtain ⟨inHead, inBody, reads, headLines, bodyLines⟩ :=
    readHeaderLines_whole isHead headFree bodyFree behind
  rw [BodyUnread, headerReads_eq free, reads, bodyHeaders]
  cases inHead with
  | nil =>
    have empty : linesOf head = [] := List.forall₂_nil_left_iff.mp headLines
    rw [empty, if_pos rfl, List.nil_append,
      forall_iff_of_forall₂ inBody_iff (forall₂_tail bodyLines)]
    exact (and_iff_left nofun).symm
  | cons first inHead =>
    obtain ⟨line, later, -, headLines, lines⟩ := List.forall₂_cons_left_iff.mp headLines
    rw [lines, if_neg (List.cons_ne_nil line later), List.cons_append, List.tail_cons,
      List.forall_mem_append, forall_iff_of_forall₂ (inHead_iff bodyFree behind) headLines,
      forall_iff_of_forall₂ inBody_iff bodyLines]
    exact And.comm

omit isHead headFree in
theorem foldl_inHead {reads : List (Nat × Bytes)} {lines : List (Bytes × Bytes)}
    (related : List.Forall₂ (ReadInHead head.length [13, 10, 13, 10] body behind) reads lines) :
    (∀ line ∈ lines, StaysInHead body line) → ∀ request,
      reads.foldl (fun request line => applyHeader request line.2) request =
        lines.foldl (fun request line => applyHeader request (line.1 ++ 0 :: (line.2 ++ [0])))
          request := by
  induction related with
  | nil => exact fun _ _ => rfl
  | cons first _ ih =>
    intro stay request
    rw [List.forall_mem_cons] at stay
    have ends := (getLast?_of_suffix first.ends (by decide)).symm
    have read := (unread_iff first.lineFree first.restFree bodyFree ends behind []).mpr stay.1
    rw [List.foldl_cons, List.foldl_cons, first.memory, read]
    exact ih stay.2 _

omit isHead headFree bodyFree in
theorem foldl_inBody {reads : List (Nat × Bytes)} {lines : List (Bytes × Bytes)}
    (related : List.Forall₂ (ReadInBody head.length (head ++ body).length) reads lines) :
    (∀ line ∈ lines, isHeaderLine line.1 = false) → ∀ request,
      reads.foldl (fun request line => applyHeader request line.2) request = request := by
  induction related with
  | nil => exact fun _ _ => rfl
  | cons first _ ih =>
    intro none request
    rw [List.forall_mem_cons] at none
    obtain ⟨tail, memory⟩ := first.memory
    rw [List.foldl_cons, applyHeader_of_no_header ?_ request]
    · exact ih none.2 request
    · rw [memory, cString_append_nul first.lineFree]
      exact none.1

theorem withoutBody_of_unread (unread : BodyUnread head (head ++ body) behind) :
    (parseHttpRequest (head ++ body) behind).withoutBody =
      (requestLineOf (linesOf head ++ linesOf body)).elim emptyHttpRequest fun request =>
        (parseCookies (readHead head request)).withoutBody := by
  have free : NulFree (head ++ body) := fun nul => (List.mem_append.mp nul).elim headFree bodyFree
  have both := (bodyUnread_iff isHead headFree bodyFree behind).mp unread
  obtain ⟨inHead, inBody, reads, headLines, bodyLines⟩ :=
    readHeaderLines_whole isHead headFree bodyFree behind
  have requestLine : ∀ {memory line tail : Bytes}, NulFree line → memory = line ++ 0 :: tail →
      applyRequestLine emptyHttpRequest memory = applyRequestLine emptyHttpRequest line := by
    intro memory line tail lineFree same
    rw [same, applyRequestLine, applyRequestLine, cString_append_nul lineFree,
      cString_eq_self lineFree]
  unfold readHead
  rw [parseHttpRequest_eq free, reads]
  rw [bodyHeaders] at both
  cases inHead with
  | nil =>
    have empty : linesOf head = [] := List.forall₂_nil_left_iff.mp headLines
    rw [empty, if_pos rfl] at both
    rw [empty, List.nil_append]
    cases inBody with
    | nil =>
      rw [List.forall₂_nil_left_iff.mp bodyLines]
      rfl
    | cons first inBody =>
      obtain ⟨line, later, inFirst, related, lines⟩ := List.forall₂_cons_left_iff.mp bodyLines
      rw [lines] at both ⊢
      obtain ⟨tail, memory⟩ := inFirst.memory
      dsimp only
      rw [withoutBody_finishRequest, foldl_inBody related both.1,
        requestLine inFirst.lineFree memory]
      rfl
  | cons first inHead =>
    obtain ⟨line, later, inFirst, related, lines⟩ := List.forall₂_cons_left_iff.mp headLines
    rw [lines, if_neg (List.cons_ne_nil line later)] at both
    rw [lines, List.cons_append]
    dsimp only
    rw [withoutBody_finishRequest, List.foldl_append, foldl_inBody bodyLines both.1,
      foldl_inHead bodyFree behind related both.2, requestLine inFirst.lineFree inFirst.memory]
    rfl

end Whole

theorem requestLine_of_same {lines others : List (Bytes × Bytes)}
    (same : (requestLineOf lines).elim emptyHttpRequest
        (fun request => (parseCookies request).withoutBody) =
      (requestLineOf others).elim emptyHttpRequest
        fun request => (parseCookies request).withoutBody) :
    requestLineOf lines = requestLineOf others := by
  have plain : ∀ line, (parseCookies (applyRequestLine emptyHttpRequest line)).withoutBody =
      applyRequestLine emptyHttpRequest line := by
    intro line
    rw [applyRequestLine]
    dsimp only
    split <;> rfl
  have path : ∀ line, (applyRequestLine emptyHttpRequest line).path ≠ none := by
    intro line
    rw [applyRequestLine]
    dsimp only
    split <;> exact Option.some_ne_none _
  cases lines with
  | nil =>
    cases others with
    | nil => rfl
    | cons line others =>
      change emptyHttpRequest = (parseCookies _).withoutBody at same
      rw [plain] at same
      exact absurd (congrArg HttpRequest.path same).symm (path line.1)
  | cons line lines =>
    change (parseCookies _).withoutBody = _ at same
    rw [plain] at same
    cases others with
    | nil => exact absurd (congrArg HttpRequest.path same) (path line.1)
    | cons other others =>
      change _ = (parseCookies _).withoutBody at same
      rw [plain] at same
      exact congrArg some same

theorem cString_append_of_nul {head : Bytes} (nul : 0 ∈ head) (body : Bytes) :
    cString (head ++ body) = cString head := by
  have stops : ∃ byte ∈ head, decide (byte ≠ 0) = false := ⟨0, nul, rfl⟩
  exact takeWhile_append_of_stop stops body

theorem bodyUnread_cString (head behind : Bytes) :
    BodyUnread head (cString head) behind := by
  have shorter : (cString head).length ≤ head.length := (List.takeWhile_prefix _).length_le
  have reads := readHeaderLines_body ((cString head).length + 2) (nulFree_cString head) (by omega)
    [] behind
  rw [List.nil_append, List.length_nil, Nat.zero_add] at reads
  have inside : ∀ read ∈
      readHeaderLines ((cString head).length + 2) (cString head ++ 0 :: behind) 0,
        read.1 < head.length := by
    have below : ∀ (read : Nat × Bytes) (line : Bytes × Bytes),
        ReadInBody 0 (cString head).length read line → (read.1 < head.length ↔ True) :=
      fun _ _ inBody => iff_of_true (Nat.lt_of_lt_of_le inBody.inside shorter) trivial
    exact (forall_iff_of_forall₂ below reads).mpr fun _ _ => trivial
  rw [BodyUnread, headerReads_eq (nulFree_cString head)]
  intro read member
  have before := inside read (List.mem_of_mem_tail member)
  refine ⟨fun _ request => ?_, fun after => absurd before (Nat.not_lt.mpr after)⟩
  rw [Nat.max_eq_left shorter, List.take_append_drop]

/-- The body changes nothing but the body just where `HeadSuffices`. -/
theorem decidedByHead_iff {head first second : Bytes} (isHead : IsRequestHead head)
    (firstFree : NulFree first) (secondFree : NulFree second) (behind : Bytes → Bytes) :
    DecidedByHead behind head first second ↔ HeadSuffices head first second := by
  by_cases nul : 0 ∈ head
  · refine iff_of_true ?_ (Or.inl nul)
    have unread := bodyUnread_cString head (behind (cString head))
    refine ⟨?_, ?_, ?_⟩
    · rw [cString_append_of_nul nul, cString_append_of_nul nul]
    · rw [cString_append_of_nul nul]
      exact unread
    · rw [cString_append_of_nul nul]
      exact unread
  · have whole : ∀ {body : Bytes}, NulFree body → cString (head ++ body) = head ++ body := by
      intro body bodyFree
      exact cString_eq_self fun inside => (List.mem_append.mp inside).elim nul bodyFree
    have firstIff := bodyUnread_iff isHead nul firstFree (behind (head ++ first))
    have secondIff := bodyUnread_iff isHead nul secondFree (behind (head ++ second))
    constructor
    · intro decided
      have firstUnread := decided.first
      have secondUnread := decided.second
      have same := decided.same
      rw [whole firstFree] at firstUnread same
      rw [whole secondFree] at secondUnread same
      rw [withoutBody_of_unread isHead nul firstFree _ firstUnread,
        withoutBody_of_unread isHead nul secondFree _ secondUnread] at same
      refine Or.inr ⟨?_, ?_⟩
      · cases lines : linesOf head with
        | nil =>
          have unchanged : ∀ request, readHead head request = request := by
            intro request
            rw [readHead, lines]
            rfl
          simp only [lines, List.nil_append, unchanged] at same
          exact requestLine_of_same same
        | cons line later => rfl
      · intro body member
        rcases List.mem_cons.mp member with isFirst | member
        · rw [isFirst]
          exact firstIff.mp firstUnread
        · rw [List.mem_singleton.mp member]
          exact secondIff.mp secondUnread
    · intro suffices_
      obtain ⟨requestLines, bodies⟩ := suffices_.resolve_left nul
      have firstUnread := firstIff.mpr (bodies first (by simp))
      have secondUnread := secondIff.mpr (bodies second (by simp))
      refine ⟨?_, ?_, ?_⟩
      · rw [whole firstFree, whole secondFree,
          withoutBody_of_unread isHead nul firstFree _ firstUnread,
          withoutBody_of_unread isHead nul secondFree _ secondUnread, requestLines]
      · rw [whole firstFree]
        exact firstUnread
      · rw [whole secondFree]
        exact secondUnread

def plainHead : Bytes :=
  ascii "POST /a HTTP/1.1\r\nContent-Length: 4\r\n\r\n"

theorem decidedByHead_plainHead :
    DecidedByHead (fun _ => []) plainHead (ascii "a\nbc") (ascii "body") :=
  (decidedByHead_iff (by decide +kernel) (by decide) (by decide) fun _ => []).mpr
    (by decide +kernel)

/-- The line of the body is read as a cookie header. -/
theorem not_decidedByHead_cookieBody :
    ¬∀ (behind : Bytes → Bytes) (head first second : Bytes), IsRequestHead head →
      NulFree first → NulFree second → DecidedByHead behind head first second := by
  intro decided
  have both := decided (fun _ => []) plainHead (ascii "Cookie: a=b") (ascii "body")
    (by decide +kernel) (by decide) (by decide)
  exact absurd (congrArg HttpRequest.cookies both.same) (by decide +kernel)

end Jdbx
