import Jdbx.Core.HttpRequest
import Jdbx.Rbac.JwtVerification

/-!
# Concurrent calls that use `strtok`

`jwt_decode`, `jwt_verify` and `parse_http_request` as callers of a shared
`strtok`.  Between two calls of `strtok` each works on its own data only, so
one step is one call of `strtok` and the code up to the next one.  A copy that
a caller tokenises is followed in memory by its `NUL` and by the bytes behind
the block, which `parse_http_request` can read past a short last line.
-/

namespace Jdbx

open Library

/-- The inputs of one call of `jwt_decode`, with the time and the earlier
contents of the blocks it allocates. -/
structure JwtInput where
  tokenStr : Bytes
  now : Int64
  stale : (Nat → UInt8) × (Nat → UInt8)
  behind : Bytes

/-- The inputs of one call of `jwt_verify`. -/
structure VerifyInput where
  jwt : JwtInput
  secret : Bytes

/-- The input of one call of `parse_http_request`. -/
structure HttpInput where
  requestStr : Bytes
  behind : Bytes

/-- Where one of the calls stands. -/
inductive CallState (δ : Type) where
  /-- `jwt_decode` with this many tokens found. -/
  | decoding (input : JwtInput) (found : Nat)
  | decoded (result : Option (JwtToken δ))
  /-- `jwt_verify` inside its call of `jwt_decode`. -/
  | verifyDecoding (input : VerifyInput) (found : Nat)
  /-- `jwt_verify` splitting its own copy of the decoded token. -/
  | verifySplitting (input : VerifyInput) (alg : Bytes) (found : Nat)
  | verified (result : Bool)
  | requestLine (input : HttpInput)
  | headers (input : HttpInput) (request : HttpRequest)
  | parsed (result : HttpRequest)

section Callers

variable {δ : Type} [CDouble δ]

/-- `jwt_decode` once its three tokens are known. -/
def decodeTokens (input : JwtInput) (headerB64 payloadB64 signatureB64 : Bytes) :
    Option (JwtToken δ) :=
  match decodeObject (δ := δ) input.stale.1 headerB64 with
  | none => none
  | some header =>
      match decodeObject input.stale.2 payloadB64 with
      | none => none
      | some payload =>
          some
            { header := decodedHeader header
              payload := decodedPayload input.now payload
              signature := some signatureB64
              tokenStr := some input.tokenStr }

/-- The checks of `jwt_verify` on the decoded token, up to its own `strtok`. -/
def afterDecoding (input : VerifyInput) (decoded : Option (JwtToken δ)) : CallState δ :=
  match decoded with
  | none => .verified false
  | some token =>
      if token.payload.exp > 0 && input.jwt.now > token.payload.exp then .verified false
      else if token.payload.nbf > 0 && input.jwt.now < token.payload.nbf then .verified false
      else .verifySplitting input token.header.alg 0

/-- The end of `jwt_verify`, once its three tokens are known. -/
def compareSignature (hmac : HmacSha256) (input : VerifyInput) (alg : Bytes)
    (headerB64 payloadB64 signatureB64 : Bytes) : Bool :=
  match jwtSign hmac (headerB64 ++ 46 :: payloadB64) input.secret alg with
  | none => false
  | some signature =>
      if signature.length ≠ signatureB64.length then false
      else (List.zip signature signatureB64).all fun pair => pair.1 = pair.2

/-- A call of `jwt_decode`. -/
def callJwtDecode (input : JwtInput) : CallState δ :=
  if input.tokenStr.count 46 ≠ 2 then .decoded none else .decoding input 0

/-- A call of `jwt_verify`. -/
def callJwtVerify (input : VerifyInput) : CallState δ :=
  if input.jwt.tokenStr.count 46 ≠ 2 then .verified false else .verifyDecoding input 0

/-- A call of `parse_http_request`. -/
def callParseHttpRequest (input : HttpInput) : CallState δ :=
  .requestLine input

def copyOf (text behind : Bytes) : Bytes :=
  text ++ 0 :: behind

/-- `strtok(copy, delimiters)` for the first token, `strtok(NULL, delimiters)`
for the others. -/
def tokenRequest (found : Nat) (copy delimiters : Bytes) : StrtokRequest where
  buffer := if found = 0 then some copy else none
  delimiters := delimiters

/-- The next call of `strtok`. -/
def nextRequest : CallState δ → Option StrtokRequest
  | .decoding input found => some (tokenRequest found (copyOf input.tokenStr input.behind) [46])
  | .verifyDecoding input found =>
      some (tokenRequest found (copyOf input.jwt.tokenStr input.jwt.behind) [46])
  | .verifySplitting input _ found =>
      some (tokenRequest found (copyOf input.jwt.tokenStr input.jwt.behind) [46])
  | .requestLine input => some (tokenRequest 0 (copyOf input.requestStr input.behind) [13, 10])
  | .headers input _ => some (tokenRequest 1 (copyOf input.requestStr input.behind) [13, 10])
  | .decoded _ | .verified _ | .parsed _ => none

/-- `if (!token || strlen(token) == 0)` of `jwt_decode`. -/
def emptyToken : Option Bytes → Bool
  | none => true
  | some memory => (cString memory).isEmpty

/-- The code behind one call of `strtok`, given the results so far, newest
first. -/
def resumeCall (hmac : HmacSha256) : CallState δ → List (Option Bytes) → CallState δ
  | .decoding input found, token :: older =>
      if emptyToken token then .decoded none
      else if found < 2 then .decoding input (found + 1)
      else
        match token, older with
        | some signature, some payload :: some header :: _ =>
            .decoded (decodeTokens input (cString header) (cString payload) (cString signature))
        | _, _ => .decoded none
  | .verifyDecoding input found, token :: older =>
      if emptyToken token then .verified false
      else if found < 2 then .verifyDecoding input (found + 1)
      else
        match token, older with
        | some signature, some payload :: some header :: _ =>
            afterDecoding input
              (decodeTokens input.jwt (cString header) (cString payload) (cString signature))
        | _, _ => .verified false
  | .verifySplitting input alg found, token :: older =>
      if token.isNone then .verified false
      else if found < 2 then .verifySplitting input alg (found + 1)
      else
        match token, older with
        | some signature, some payload :: some header :: _ =>
            .verified
              (compareSignature hmac input alg (cString header) (cString payload)
                (cString signature))
        | _, _ => .verified false
  | .requestLine input, line :: _ =>
      match line with
      | none => .parsed emptyHttpRequest
      | some line => .headers input (applyRequestLine emptyHttpRequest line)
  | .headers input request, line :: _ =>
      match line with
      | none => .parsed (finishRequest input.requestStr request)
      | some line =>
          if line.headD 0 = 0 then .parsed (finishRequest input.requestStr request)
          else .headers input (applyHeader request line)
  | state, _ => state

/-- The calls as callers of `strtok`. -/
def strtokCaller (hmac : HmacSha256) : StrtokCaller (CallState δ) where
  request := nextRequest
  resume := resumeCall hmac

/-- One of the concurrent calls, on its input. -/
inductive StrtokCall where
  | jwtDecode (input : JwtInput)
  | jwtVerify (input : VerifyInput)
  | parseHttpRequest (input : HttpInput)

def StrtokCall.start : StrtokCall → CallState δ
  | .jwtDecode input => callJwtDecode input
  | .jwtVerify input => callJwtVerify input
  | .parseHttpRequest input => callParseHttpRequest input

open StrtokState

variable {ι : Type} [DecidableEq ι]

/-- Over a run in which every `strtok(NULL, ..)` finds the cursor in a copy of
its own caller, every call goes through the states it goes through alone. -/
theorem calls_return_as_alone (hmac : HmacSha256) (calls : ι → StrtokCall) (schedule : List ι)
    (kept : CursorKeptThroughout (strtokCaller (δ := δ) hmac)
      (initial fun who => (calls who).start) schedule) (who : ι) :
    (run (strtokCaller (δ := δ) hmac) (initial fun who => (calls who).start) schedule).caller who =
      (run (strtokCaller (δ := δ) hmac) (initial fun who => (calls who).start)
        (List.replicate (schedule.count who) who)).caller who :=
  (agrees_run schedule _ _ (agrees_initial _ who) kept).caller

end Callers

open StrtokState

/-- Two requests with an `Authorization` header each. -/
def twoRequests (second : Bool) : StrtokCall :=
  .parseHttpRequest
    { requestStr :=
        ascii "GET /" ++ [13, 10] ++ ascii "Authorization: " ++
          (if second then ascii "two" else ascii "one") ++ [13, 10, 13, 10]
      behind := [] }

/-- The `authorization` field of a parsed request. -/
def authorizationOf {δ : Type} : CallState δ → Option (Option Bytes)
  | .parsed request => some request.authorization
  | _ => none

def afterSchedule (schedule : List Bool) : StrtokState Bool (CallState Rat) :=
  run (strtokCaller zeroHmac) (initial fun who => (twoRequests who).start) schedule

theorem calls_return_as_alone_twoRequests :
    (afterSchedule [false, false, false, true, true, true]).caller true =
      (afterSchedule (List.replicate ([false, false, false, true, true, true].count true)
        true)).caller true :=
  calls_return_as_alone zeroHmac twoRequests [false, false, false, true, true, true]
    (by decide +kernel) true

/-- A step of the second request between two of the first gives the first the
authorization of the second. -/
theorem twoRequests_mixed :
    authorizationOf ((afterSchedule [false, true, false, false]).caller false) =
        some (some (ascii "two")) ∧
      authorizationOf ((afterSchedule (List.replicate 3 false)).caller false) =
        some (some (ascii "one")) := by
  decide +kernel

end Jdbx
