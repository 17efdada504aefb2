import Jdbx.Core.BufferSafety

/-!
# A stream of requests

A client sends well-formed requests one behind the other, and each read takes a
piece of what remains.  This module says what a request is, which pieces the
reading loops can cope with, and what the server should make of the stream.
-/

namespace Jdbx

open Library

/-! ## Requests -/

def headText (lines : List Bytes) : Bytes :=
  (lines.flatMap fun line => line ++ [13, 10]) ++ [13, 10]

/-- The values of the `Content-Length` lines, however the name is spelled. -/
def contentLengths (lines : List Bytes) : List Int :=
  (lines.filter (startsWithIgnoringCase (ascii "Content-Length:"))).map fun line =>
    (atoi (line.drop 15)).toInt

/-- A well-formed request within the size limit. -/
structure ClientRequest where
  requestLine : Bytes
  headerLines : List Bytes
  body : Bytes
  plain : ∀ line ∈ requestLine :: headerLines, line ≠ [] ∧ ∀ byte ∈ ([0, 10, 13] : Bytes), byte ∉ line
  framed : contentLengths headerLines = [(body.length : Int)] ∨
    contentLengths headerLines = [] ∧ body = []
  small : (headText (requestLine :: headerLines)).length + body.length < maxRequestSize

namespace ClientRequest

variable (request : ClientRequest)

def head : Bytes :=
  headText (request.requestLine :: request.headerLines)

def text : Bytes :=
  request.head ++ request.body

/-- What `parse_http_request` makes of the request alone. -/
def parsed : HttpRequest :=
  parseHttpRequest request.text []

/-- The two searches for the length agree with the request: the one in the text
read so far, wherever in the body a read ends, and the one of
`parse_http_request`, which reads nothing behind its copy. -/
structure Readable : Prop where
  bodyText : NulFree request.body
  search : ∀ received, received <+: request.body →
    findHead (request.head ++ received) = some (request.head.length, request.body.length)
  parsed_eq : ∀ behind, parseHttpRequest request.text behind = request.parsed
  bodyParsed : request.parsed.contentLength > 0 ↔ request.body ≠ []

def isLast (index : Nat) : Bool :=
  (index = 0 && answeredFirst request.text request.parsed) || !request.parsed.keepAlive

def sent : Bytes × HttpRequest :=
  (request.text, request.parsed)

end ClientRequest

def answered : Nat → List ClientRequest → List ClientRequest
  | _, [] => []
  | index, request :: requests =>
      request :: if request.isLast index then [] else answered (index + 1) requests

def streamText (requests : List ClientRequest) : Bytes :=
  requests.flatMap ClientRequest.text

/-- The turn calls `client_read_data`. -/
def Connection.reads (connection : Connection) (turn : Turn) : Bool :=
  match connection.phase with
  | .head =>
      connection.totalBytesRead < connection.bufferSize &&
        !(turn.time - connection.requestStartTime > maxRequestTime)
  | .body =>
      connection.bodyReceived < connection.contentLength &&
        match connection.growBuffer turn.block with
        | none => false
        | some connection => connection.bufferSize - connection.totalBytesRead ≠ 0
  | .recovery recoveryAttempts recoveredBytes bytesMissing =>
      recoveryAttempts < 10 && recoveredBytes < bytesMissing
  | .keepAliveHead => connection.totalBytesRead < connection.bufferSize
  | .keepAliveBody =>
      connection.bodyReceived < connection.contentLength &&
        connection.totalBytesRead < connection.bufferSize
  | .handling | .closed => false

def Connection.taken (connection : Connection) (turn : Turn) : Bytes :=
  if connection.reads turn then turn.bytes else []

/-- A connection, and how much of the stream it has read. -/
structure ClientRun where
  connection : Connection
  consumed : Nat

def ClientRun.start (requestStartTime : Int) : ClientRun where
  connection := .start requestStartTime
  consumed := 0

/-- A step on a stream: a read returns a piece of what remains or would block,
and the stream ends behind its last byte only. -/
def streamStep (stream : Bytes) (run : ClientRun) : ClientEvent → Option ClientRun
  | .read turn =>
      let bytes := run.connection.taken turn
      if bytes <+: stream.drop run.consumed ∧ turn.read ≠ .error ∧
          (turn.read = .endOfStream → run.consumed = stream.length) then
        (run.connection.readTurn turn).map fun connection =>
          { connection, consumed := run.consumed + bytes.length }
      else none
  | .handle behind goOn =>
      (clientStep run.connection (.handle behind goOn)).map fun connection =>
        { run with connection }

/-- The step takes no byte of the next request and leaves room in the buffer,
nothing times out or fails, and no later request is waited for, nor one behind
the limit begun. -/
def Steady (requests : List ClientRequest) (run : ClientRun) : ClientEvent → Prop
  | .read turn =>
      let connection := run.connection
      let current := requests.take (connection.dispatched.length + 1)
      let allRead := run.consumed = (streamText requests).length
      run.consumed + (connection.taken turn).length ≤ (streamText current).length ∧
        connection.LeavesRoom (.read turn) ∧
          turn.block.isSome ∧
            (connection.phase = .head ∨ connection.phase = .body →
              turn.select ≠ .error ∧
                turn.time - connection.requestStartTime ≤ maxRequestTime ∧
                  turn.later - connection.requestStartTime ≤ maxRequestTime) ∧
              (connection.phase = .keepAliveHead ∨ connection.phase = .keepAliveBody →
                connection.reads turn →
                  turn.read = .wouldBlock ∨ connection.requestsProcessed = maxKeepAliveRequests →
                    allRead)
  | .handle _ goOn => goOn = true

instance (requests : List ClientRequest) (run : ClientRun) : DecidablePred (Steady requests run)
  | .read _ => inferInstanceAs (Decidable (_ ∧ _ ∧ _ ∧ _ ∧ _))
  | .handle _ _ => inferInstanceAs (Decidable (_ = _))

/-- The requests dispatched are the first ones of the stream, each once and
whole; nothing else is read but a part of the next one; and when the connection
is closed, all that are to be answered are dispatched. -/
def Delivered (requests : List ClientRequest) (run : ClientRun) : Prop :=
  ∃ handled rest read, requests = handled ++ rest ∧
    run.connection.dispatched = handled.map ClientRequest.sent ∧
      (streamText requests).take run.consumed = streamText handled ++ read ∧
        read <+: streamText (rest.take 1) ∧
          (run.connection.phase = .closed → handled = answered 0 requests ∧ read = [])

theorem findText_append {pattern text found : Bytes} (search : findText pattern text = some found)
    (more : Bytes) : findText pattern (text ++ more) = some (found ++ more) := by
  induction text with
  | nil =>
      rw [findText] at search
      split_ifs at search with empty
      cases search
      subst empty
      cases more <;> rfl
  | cons byte text ih =>
      rw [findText] at search
      split_ifs at search with isPrefix
      · cases search
        have longer : pattern.isPrefixOf (byte :: (text ++ more)) = true := by
          rw [List.isPrefixOf_iff_prefix] at isPrefix ⊢
          exact isPrefix.trans (List.prefix_append _ more)
        rw [List.cons_append, findText, if_pos longer]
      · have spec := findText_spec search
        have notLonger : ¬ pattern.isPrefixOf (byte :: (text ++ more)) = true := by
          intro longer
          apply isPrefix
          rw [List.isPrefixOf_iff_prefix] at longer ⊢
          have fits : pattern.length ≤ (byte :: text).length :=
            spec.1.length_le.trans (spec.2.length_le.trans (Nat.le_succ _))
          exact List.prefix_of_prefix_length_le longer (List.prefix_append (byte :: text) more) fits
        rw [List.cons_append, findText, if_neg notLonger]
        exact ih search

theorem findText_skip {first : UInt8} {pattern front : Bytes} (absent : first ∉ front)
    (text : Bytes) : findText (first :: pattern) (front ++ text) = findText (first :: pattern) text := by
  induction front with
  | nil => rfl
  | cons byte front ih =>
      rw [List.mem_cons, not_or] at absent
      have differs : ¬ (first :: pattern).isPrefixOf (byte :: (front ++ text)) = true := by
        simp [absent.1]
      rw [List.cons_append, findText, if_neg differs]
      exact ih absent.2

theorem findText_headText {lines : List Bytes}
    (plain : ∀ line ∈ lines, line ≠ [] ∧ ∀ byte ∈ ([0, 10, 13] : Bytes), byte ∉ line)
    (nonempty : lines ≠ []) :
    findText [13, 10, 13, 10] (headText lines) = some [13, 10, 13, 10] := by
  induction lines with
  | nil => exact absurd rfl nonempty
  | cons line lines ih =>
      have noReturn : 13 ∉ line := (plain line List.mem_cons_self).2 13 (by decide)
      rw [headText, List.flatMap_cons, List.append_assoc, List.append_assoc,
        findText_skip noReturn]
      cases lines with
      | nil => rfl
      | cons next lines =>
          have nextPlain := plain next (by simp)
          obtain ⟨byte, others, layout⟩ := List.exists_cons_of_ne_nil nextPlain.1
          have notReturn : byte ≠ 13 := by
            rintro rfl
            exact nextPlain.2 13 (by decide) (by rw [layout]; exact List.mem_cons_self)
          have rest := ih
            (fun other member => plain other (List.mem_cons_of_mem line member)) (by simp)
          rw [headText, List.flatMap_cons, layout] at rest
          rw [List.flatMap_cons, layout]
          simp only [List.cons_append, List.nil_append] at rest ⊢
          rw [findText, if_neg (by simp [Ne.symm notReturn]), findText, if_neg (by simp)]
          exact rest

namespace ClientRequest

variable (request : ClientRequest)

theorem findText_head :
    findText [13, 10, 13, 10] request.head = some [13, 10, 13, 10] :=
  findText_headText request.plain (List.cons_ne_nil _ _)

theorem findHead_part {part : Bytes} (isPart : part <+: request.head)
    (proper : part.length < request.head.length) : findHead part = none := by
  obtain ⟨more, whole⟩ := isPart
  cases search : findText [13, 10, 13, 10] part with
  | none => rw [findHead, search, Option.map_none]
  | some found =>
      have atEnd := findText_append search more
      rw [whole, findText_head, Option.some.injEq] at atEnd
      have atLeast := (findText_spec search).1.length_le
      have lengths := congrArg List.length atEnd
      have partLength := congrArg List.length whole
      simp only [List.length_append, List.length_cons, List.length_nil] at lengths partLength atLeast
      omega

theorem findText_text :
    findText [13, 10, 13, 10] request.text = some ([13, 10, 13, 10] ++ request.body) :=
  findText_append request.findText_head request.body

theorem Readable.body_eq {request : ClientRequest} (readable : request.Readable) :
    request.parsed.body.getD [] = request.body := by
  have search := request.findText_text
  have lengthAgrees := readable.bodyParsed
  rw [parsed] at lengthAgrees ⊢
  rw [parseHttpRequest_body, search]
  by_cases hasBody : (parseHttpRequest request.text []).contentLength > 0
  · rw [if_pos hasBody]
    rfl
  · rw [if_neg hasBody]
    simpa [hasBody] using lengthAgrees

theorem parsed_path : request.parsed.path ≠ none := by
  have plain := request.plain request.requestLine List.mem_cons_self
  obtain ⟨byte, others, layout⟩ := List.exists_cons_of_ne_nil plain.1
  have visible : byte ∉ ([0, 10, 13] : Bytes) := by
    intro special
    exact plain.2 byte special (by rw [layout]; exact List.mem_cons_self)
  rw [parsed, text, head, headText, List.flatMap_cons, layout]
  exact parseHttpRequest_path visible _ _

end ClientRequest

end Jdbx
