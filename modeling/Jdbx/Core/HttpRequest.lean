import Jdbx.Library.SharedStrtok

/-!
# Parsing the head of an HTTP request

The pieces of `parse_http_request` between its calls of `strtok`.  A line is
given as the memory from its first byte on, since the header branches read at
fixed offsets behind the line's start without looking for its end.
-/

namespace Jdbx

open Library

inductive HttpMethod where
  | get
  | post
  | put
  | delete
  | patch
  | options
  | head
  | unknown
  deriving DecidableEq, Repr

structure Cookie where
  name : Bytes
  value : Bytes
  deriving DecidableEq

structure HttpRequest where
  method : HttpMethod
  path : Option Bytes
  query : Option Bytes
  body : Option Bytes
  contentType : Option Bytes
  authorization : Option Bytes
  cookieHeader : Option Bytes
  cookies : List Cookie
  origin : Option Bytes
  contentLength : UInt64
  userAgent : Option Bytes
  remoteAddr : Option Bytes
  keepAlive : Bool
  deriving DecidableEq

/-- The request before any line is read. -/
def emptyHttpRequest : HttpRequest where
  method := .unknown
  path := none
  query := none
  body := none
  contentType := none
  authorization := none
  cookieHeader := none
  cookies := []
  origin := none
  contentLength := 0
  userAgent := none
  remoteAddr := none
  keepAlive := false

def parseHttpMethod (methodStr : Bytes) : HttpMethod :=
  if methodStr = ascii "GET" then .get
  else if methodStr = ascii "POST" then .post
  else if methodStr = ascii "PUT" then .put
  else if methodStr = ascii "DELETE" then .delete
  else if methodStr = ascii "PATCH" then .patch
  else if methodStr = ascii "HEAD" then .head
  else if methodStr = ascii "OPTIONS" then .options
  else .unknown

def splitAtByte (byte : UInt8) (text : Bytes) : Option (Bytes × Bytes) :=
  match text.dropWhile (· ≠ byte) with
  | [] => none
  | _ :: after => some (text.takeWhile (· ≠ byte), after)

/-- The cookie of one `name=value` pair; a pair without `=` is skipped. -/
def parseCookiePair (cookiePair : Bytes) : Option Cookie :=
  (splitAtByte 61 (cookiePair.dropWhile (· = 32))).map fun parts =>
    { name := parts.1, value := parts.2 }

/-- The loop of `parse_cookies`.  Every token of `strtok_r` consumes a byte, so
the length of the header is enough fuel. -/
def parseCookiePairs : Nat → Bytes → List Cookie
  | 0, _ => []
  | fuel + 1, text =>
      match strtok (ascii ";") text with
      | none => []
      | some (cookiePair, rest) => (parseCookiePair cookiePair).toList ++ parseCookiePairs fuel rest

def parseCookies (request : HttpRequest) : HttpRequest :=
  match request.cookieHeader with
  | none => request
  | some cookieHeader =>
      { request with
        cookies := request.cookies ++ parseCookiePairs (cookieHeader.length + 1) cookieHeader }

/-- One `%<limit>s` of `sscanf`: the word and the text behind it. -/
def scanWord (limit : Nat) (text : Bytes) : Bytes × Bytes :=
  let start := text.dropWhile isspace
  let word := (start.takeWhile fun byte => ¬ isspace byte).take limit
  (word, start.drop word.length)

def applyRequestLine (request : HttpRequest) (line : Bytes) : HttpRequest :=
  let (methodStr, rest) := scanWord 15 (cString line)
  let (url, _) := scanWord 2047 rest
  let request := { request with method := parseHttpMethod methodStr }
  match splitAtByte 63 url with
  | some (path, query) => { request with path := some path, query := some query }
  | none => { request with path := some url, query := none }

def headerValue (line : Bytes) (offset : Nat) : Bytes :=
  cString ((line.drop offset).dropWhile (· = 32))

def applyHeader (request : HttpRequest) (line : Bytes) : HttpRequest :=
  let text := cString line
  if startsWithIgnoringCase (ascii "Content-Type:") text then
    { request with contentType := some (headerValue line 14) }
  else if startsWithIgnoringCase (ascii "Content-Length:") text then
    { request with contentLength := (atoi (cString (line.drop 16))).toInt64.toUInt64 }
  else if startsWithIgnoringCase (ascii "Authorization:") text then
    { request with authorization := some (headerValue line 15) }
  else if startsWithIgnoringCase (ascii "Cookie:") text then
    { request with cookieHeader := some (headerValue line 8) }
  else if startsWithIgnoringCase (ascii "Origin:") text then
    { request with origin := some (headerValue line 8) }
  else if startsWithIgnoringCase (ascii "User-Agent:") text then
    { request with userAgent := some (headerValue line 12) }
  else if startsWithIgnoringCase (ascii "Connection:") text then
    if startsWithIgnoringCase (ascii "keep-alive") (headerValue line 12) then
      { request with keepAlive := true }
    else if startsWithIgnoringCase (ascii "close") (headerValue line 12) then
      { request with keepAlive := false }
    else request
  else request

/-- `strstr(text, pattern)`. -/
def findText (pattern : Bytes) : Bytes → Option Bytes
  | [] => if pattern = [] then some [] else none
  | byte :: rest =>
      if pattern.isPrefixOf (byte :: rest) then some (byte :: rest) else findText pattern rest

/-- What is done after the last header: the body, taken from the request text
itself, and the cookies. -/
def finishRequest (requestStr : Bytes) (request : HttpRequest) : HttpRequest :=
  let request :=
    if request.contentLength > 0 then
      match findText [13, 10, 13, 10] requestStr with
      | some found => { request with body := some (found.drop 4) }
      | none => request
    else request
  parseCookies request

/-- The loop of `parse_http_request` over the lines behind the request line, on
the copy that `strtok` cuts.  Every call but the last moves the cursor. -/
def parseHeaderLines : Nat → Bytes → Nat → HttpRequest → HttpRequest
  | 0, _, _, request => request
  | fuel + 1, memory, cursor, request =>
      let result := strtokAt [13, 10] memory cursor
      match result.token with
      | none => request
      | some start =>
          let line := result.memory.drop start
          if line.headD 0 = 0 then request
          else parseHeaderLines fuel result.memory result.cursor (applyHeader request line)

/-- `parse_http_request`, called by one thread.  `behind` is the memory behind
its copy of the request. -/
def parseHttpRequest (requestStr behind : Bytes) : HttpRequest :=
  let first := strtokAt [13, 10] (requestStr ++ 0 :: behind) 0
  match first.token with
  | none => emptyHttpRequest
  | some start =>
      let request := applyRequestLine emptyHttpRequest (first.memory.drop start)
      finishRequest requestStr
        (parseHeaderLines (requestStr.length + 1) first.memory first.cursor request)

theorem applyHeader_path_body (request : HttpRequest) (line : Bytes) :
    (applyHeader request line).path = request.path ∧
      (applyHeader request line).body = request.body := by
  simp only [applyHeader, apply_ite HttpRequest.path, apply_ite HttpRequest.body, ite_self,
    and_self]

theorem parseHeaderLines_path_body :
    ∀ (fuel : Nat) (memory : Bytes) (cursor : Nat) (request : HttpRequest),
      (parseHeaderLines fuel memory cursor request).path = request.path ∧
        (parseHeaderLines fuel memory cursor request).body = request.body := by
  intro fuel
  induction fuel with
  | zero =>
      intro memory cursor request
      exact ⟨rfl, rfl⟩
  | succ fuel ih =>
      intro memory cursor request
      rw [parseHeaderLines]
      dsimp only
      split
      · exact ⟨rfl, rfl⟩
      · split_ifs
        · exact ⟨rfl, rfl⟩
        · have later := ih (strtokAt [13, 10] memory cursor).memory
            (strtokAt [13, 10] memory cursor).cursor
          exact ⟨(later _).1.trans (applyHeader_path_body _ _).1,
            (later _).2.trans (applyHeader_path_body _ _).2⟩

theorem parseCookies_fields (request : HttpRequest) :
    (parseCookies request).path = request.path ∧ (parseCookies request).body = request.body ∧
      (parseCookies request).contentLength = request.contentLength := by
  rw [parseCookies]
  split <;> exact ⟨rfl, rfl, rfl⟩

theorem parseHttpRequest_body (requestStr behind : Bytes) :
    (parseHttpRequest requestStr behind).body =
      if (parseHttpRequest requestStr behind).contentLength > 0 then
        (findText [13, 10, 13, 10] requestStr).map (List.drop 4)
      else none := by
  have finished : ∀ request : HttpRequest, request.body = none →
      (finishRequest requestStr request).body =
        if (finishRequest requestStr request).contentLength > 0 then
          (findText [13, 10, 13, 10] requestStr).map (List.drop 4)
        else none := by
    intro request noBody
    rw [finishRequest, (parseCookies_fields _).2.1, (parseCookies_fields _).2.2]
    by_cases positive : request.contentLength > 0
    · cases findText [13, 10, 13, 10] requestStr <;> simp [positive, noBody]
    · simp [positive, noBody]
  rw [parseHttpRequest]
  dsimp only
  split
  · rfl
  · apply finished
    rw [(parseHeaderLines_path_body _ _ _ _).2, applyRequestLine]
    dsimp only
    split <;> rfl

theorem parseHttpRequest_path {byte : UInt8} (visible : byte ∉ ([0, 10, 13] : Bytes))
    (requestStr behind : Bytes) : (parseHttpRequest (byte :: requestStr) behind).path ≠ none := by
  simp only [List.mem_cons, List.not_mem_nil, or_false, not_or] at visible
  have first : (strtokAt [13, 10] (byte :: requestStr ++ 0 :: behind) 0).token = some 0 := by
    have skip : ((byte :: requestStr ++ 0 :: behind).drop 0).takeWhile
        (fun tested => decide (tested ∈ ([13, 10] : Bytes))) = [] := by
      simp [visible]
    have atStart : (byte :: requestStr ++ 0 :: behind).getD (0 + 0) 0 ≠ 0 := by
      simp [visible]
    simp only [strtokAt, skip, List.length_nil, if_neg atStart]
    split_ifs <;> rfl
  have finished : ∀ request : HttpRequest,
      (finishRequest (byte :: requestStr) request).path = request.path := by
    intro request
    rw [finishRequest, (parseCookies_fields _).1]
    split_ifs
    · split <;> rfl
    · rfl
  rw [parseHttpRequest]
  simp only [first]
  rw [finished, (parseHeaderLines_path_body _ _ _ _).1, applyRequestLine]
  dsimp only
  split <;> exact Option.some_ne_none _

/-- The headers that `parse_http_request` looks for. -/
def headerNames : List Bytes :=
  [ascii "Content-Type:", ascii "Content-Length:", ascii "Authorization:", ascii "Cookie:",
    ascii "Origin:", ascii "User-Agent:", ascii "Connection:"]

def isBareHeader (line : Bytes) : Bool :=
  headerNames.any fun name => name.map tolower = line.map tolower

def noBareHeader : Nat → Bytes → Bool
  | 0, _ => true
  | fuel + 1, text =>
      match strtok [13, 10] text with
      | none => true
      | some (line, rest) => !isBareHeader line && noBareHeader fuel rest

theorem name_length_lt {name line : Bytes} (listed : name ∈ headerNames)
    (notBare : isBareHeader line = false) (starts : startsWithIgnoringCase name line = true) :
    name.length < line.length := by
  rw [startsWithIgnoringCase, List.isPrefixOf_iff_prefix] at starts
  have atMost := starts.length_le
  rw [List.length_map, List.length_map] at atMost
  apply Nat.lt_of_le_of_ne atMost
  intro same
  have equal := starts.eq_of_length (by simpa using same)
  rw [isBareHeader, List.any_eq_false] at notBare
  exact notBare name listed (by simpa using equal)

theorem headerValue_append_nul {line : Bytes} (nulFree : NulFree line) {offset : Nat}
    (inside : offset ≤ line.length) (tail : Bytes) :
    headerValue (line ++ 0 :: tail) offset = (line.drop offset).dropWhile (· = 32) := by
  have spaces : (line.drop offset ++ 0 :: tail).dropWhile (· = 32) =
      (line.drop offset).dropWhile (· = 32) ++ 0 :: tail := by
    rw [List.dropWhile_append]
    split_ifs with empty
    · rw [List.isEmpty_iff.mp empty, List.dropWhile_cons_of_neg (by decide), List.nil_append]
    · rfl
  rw [headerValue, List.drop_append_of_le_length inside, spaces]
  apply cString_append_nul
  intro nul
  exact nulFree (List.mem_of_mem_drop (List.dropWhile_sublist _ |>.subset nul))

theorem applyHeader_append_nul (request : HttpRequest) {line : Bytes} (nulFree : NulFree line)
    (notBare : isBareHeader line = false) (tail : Bytes) :
    applyHeader request (line ++ 0 :: tail) = applyHeader request (line ++ [0]) := by
  have length : ∀ name ∈ headerNames, startsWithIgnoringCase name line = true →
      name.length + 1 ≤ line.length :=
    fun name listed starts => name_length_lt listed notBare starts
  have value : ∀ offset, offset ≤ line.length →
      headerValue (line ++ 0 :: tail) offset = headerValue (line ++ [0]) offset := by
    intro offset inside
    rw [headerValue_append_nul nulFree inside, headerValue_append_nul nulFree inside]
  have number : ∀ offset, offset ≤ line.length →
      cString ((line ++ 0 :: tail).drop offset) = cString ((line ++ [0]).drop offset) := by
    intro offset inside
    have dropFree : NulFree (line.drop offset) := fun nul => nulFree (List.mem_of_mem_drop nul)
    rw [List.drop_append_of_le_length inside, List.drop_append_of_le_length inside,
      cString_append_nul dropFree, cString_append_nul dropFree]
  simp only [applyHeader, cString_append_nul nulFree]
  refine ite_congr rfl (fun type => ?_) fun _ => ite_congr rfl (fun size => ?_) fun _ =>
    ite_congr rfl (fun authorization => ?_) fun _ => ite_congr rfl (fun cookie => ?_) fun _ =>
      ite_congr rfl (fun origin => ?_) fun _ => ite_congr rfl (fun agent => ?_) fun _ =>
        ite_congr rfl (fun connection => ?_) fun _ => rfl
  · rw [value 14 (length _ (by decide) type)]
  · rw [number 16 (length _ (by decide) size)]
  · rw [value 15 (length _ (by decide) authorization)]
  · rw [value 8 (length _ (by decide) cookie)]
  · rw [value 8 (length _ (by decide) origin)]
  · rw [value 12 (length _ (by decide) agent)]
  · rw [value 12 (length _ (by decide) connection)]

def applyLines : Nat → Bytes → HttpRequest → HttpRequest
  | 0, _, request => request
  | fuel + 1, text, request =>
      match strtok [13, 10] text with
      | none => request
      | some (line, rest) => applyLines fuel rest (applyHeader request (line ++ [0]))

theorem drop_token {rest ending : Bytes} (ends : ending = [0] ∨ ending = [] ∧ rest = [])
    (token before skipped behind : Bytes) :
    ∃ tail, (before ++ (skipped ++ (token ++ ending)) ++ (rest ++ 0 :: behind)).drop
        (before.length + skipped.length) = token ++ 0 :: tail := by
  have whole : before ++ (skipped ++ (token ++ ending)) ++ (rest ++ 0 :: behind) =
      (before ++ skipped) ++ (token ++ (ending ++ (rest ++ 0 :: behind))) := by
    simp only [List.append_assoc]
  rw [whole, ← List.length_append, List.drop_left]
  rcases ends with rfl | ⟨rfl, rfl⟩
  · exact ⟨rest ++ 0 :: behind, rfl⟩
  · exact ⟨behind, rfl⟩

theorem parseHeaderLines_eq :
    ∀ (fuel : Nat) {text : Bytes}, NulFree text → noBareHeader fuel text = true →
      ∀ (before behind : Bytes) (request : HttpRequest),
        parseHeaderLines fuel (before ++ (text ++ 0 :: behind)) before.length request =
          applyLines fuel text request := by
  intro fuel
  induction fuel with
  | zero =>
      intro text _ _ before behind request
      rfl
  | succ fuel ih =>
      intro text nulFree noBare before behind request
      have noNul : (0 : UInt8) ∉ ([13, 10] : Bytes) := by decide
      rw [parseHeaderLines, applyLines]
      cases call : strtok [13, 10] text with
      | none => simp only [strtokAt_none noNul call before behind]
      | some parts =>
          obtain ⟨line, rest⟩ := parts
          simp only [noBareHeader, call, Bool.and_eq_true, Bool.not_eq_true'] at noBare
          have free := StrtokState.strtok_nulFree nulFree call
          obtain ⟨skipped, ending, result, ends⟩ := strtokAt_copy noNul nulFree call before behind
          obtain ⟨tail, inMemory⟩ := drop_token ends line before skipped behind
          have visible : (line ++ 0 :: tail).headD 0 ≠ 0 := by
            cases line with
            | nil => exact absurd rfl free.1
            | cons byte line => exact fun zero => free.2.1 (zero ▸ List.mem_cons_self)
          simp only [result, inMemory, if_neg visible]
          rw [ih free.2.2 noBare.2,
            applyHeader_append_nul request free.2.1 noBare.1]

theorem parseHttpRequest_behind {text : Bytes} (nulFree : NulFree text)
    (noBare : ∀ parts ∈ strtok [13, 10] text, noBareHeader (text.length + 1) parts.2 = true)
    (behind : Bytes) : parseHttpRequest text behind = parseHttpRequest text [] := by
  have noNul : (0 : UInt8) ∉ ([13, 10] : Bytes) := by decide
  cases call : strtok [13, 10] text with
  | none =>
      have missing : ∀ behind, parseHttpRequest text behind = emptyHttpRequest := by
        intro behind
        have first := strtokAt_none noNul call [] behind
        rw [List.nil_append, List.length_nil] at first
        simp only [parseHttpRequest, first]
      rw [missing, missing]
  | some parts =>
      obtain ⟨line, rest⟩ := parts
      have free := StrtokState.strtok_nulFree nulFree call
      have parsed : ∀ behind, parseHttpRequest text behind =
          finishRequest text (applyLines (text.length + 1) rest
            (applyRequestLine emptyHttpRequest (line ++ [0]))) := by
        intro behind
        obtain ⟨skipped, ending, result, ends⟩ := strtokAt_copy noNul nulFree call [] behind
        obtain ⟨tail, inMemory⟩ := drop_token ends line [] skipped behind
        rw [List.nil_append, List.length_nil] at result
        rw [List.length_nil] at inMemory
        have requestLine : applyRequestLine emptyHttpRequest (line ++ 0 :: tail) =
            applyRequestLine emptyHttpRequest (line ++ [0]) := by
          simp only [applyRequestLine, cString_append_nul free.2.1]
        simp only [parseHttpRequest, result, inMemory, requestLine]
        rw [parseHeaderLines_eq _ free.2.2 (noBare _ call)]
      rw [parsed, parsed]

end Jdbx
