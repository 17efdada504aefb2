import Jdbx.Library.Strtok
import Jdbx.Rbac.Base64
import Jdbx.Utils.JsonParse
import Jdbx.Utils.JsonStringify

/-!
# JSON web tokens

`jwt_encode`, `jwt_decode` and `jwt_verify`.  HMAC-SHA256 is a parameter whose
digests have 32 bytes.  `time(NULL)` is the argument `now`, and `stale` gives
the earlier contents of the two blocks that `base64_decode` allocates.
-/

namespace Jdbx

open Library

/-- `HMAC(EVP_sha256(), key, data)`. -/
structure HmacSha256 where
  digest : Bytes → Bytes → Bytes
  digest_length : ∀ key data, (digest key data).length = 32

structure JwtHeader where
  alg : Bytes
  typ : Bytes

/-- `jwt_payload_t`.  A time of zero or less is not set. -/
structure JwtPayload (δ : Type) where
  iss : Option Bytes
  sub : Option Bytes
  aud : Option Bytes
  exp : Int64
  nbf : Int64
  iat : Int64
  jti : Option Bytes
  claims : List (Bytes × JsonValue δ)

structure JwtToken (δ : Type) where
  header : JwtHeader
  payload : JwtPayload δ
  signature : Option Bytes
  tokenStr : Option Bytes

section Jwt

variable {δ : Type} [CDouble δ]

def jwtCreate (now : Int64) : JwtToken δ where
  header := { alg := ascii "HS256", typ := ascii "JWT" }
  payload :=
    { iss := none, sub := none, aud := none, exp := 0, nbf := 0, iat := now, jti := none,
      claims := [] }
  signature := none
  tokenStr := none

def jwtSign (hmac : HmacSha256) (headerPayload secret alg : Bytes) : Option Bytes :=
  if alg ≠ ascii "HS256" then none
  else some (base64UrlEncode (hmac.digest secret headerPayload))

/-- The header object that `jwt_encode` writes. -/
def headerJson (header : JwtHeader) : JsonValue δ :=
  .object (setEntry (ascii "typ") (.string header.typ)
    (setEntry (ascii "alg") (.string header.alg) []))

/-- `if (field) json_object_set(payload_json, key, json_create_string(field))`. -/
def setString (key : Bytes) (field : Option Bytes) (entries : List (Bytes × JsonValue δ)) :
    List (Bytes × JsonValue δ) :=
  match field with
  | some string => setEntry key (.string string) entries
  | none => entries

/-- `if (time > 0) json_object_set(payload_json, key, json_create_integer(time))`. -/
def setTime (key : Bytes) (time : Int64) (entries : List (Bytes × JsonValue δ)) :
    List (Bytes × JsonValue δ) :=
  if time > 0 then setEntry key (.integer time) entries else entries

/-- The standard claims of a payload, in the order `jwt_encode` sets them. -/
def standardClaims (payload : JwtPayload δ) : List (Bytes × JsonValue δ) :=
  setString (ascii "jti") payload.jti
    (setTime (ascii "iat") payload.iat
      (setTime (ascii "nbf") payload.nbf
        (setTime (ascii "exp") payload.exp
          (setString (ascii "aud") payload.aud
            (setString (ascii "sub") payload.sub
              (setString (ascii "iss") payload.iss []))))))

/-- One turn of the claim loops: a copy of the value, made by writing and
reading it, is set under the key; a value that cannot be read back is left
out. -/
def copyClaim (entries : List (Bytes × JsonValue δ)) (claim : Bytes × JsonValue δ) :
    List (Bytes × JsonValue δ) :=
  match jsonParse (jsonStringify claim.2) with
  | some copy => setEntry claim.1 copy entries
  | none => entries

/-- The payload object that `jwt_encode` writes. -/
def payloadJson (payload : JwtPayload δ) : JsonValue δ :=
  .object (payload.claims.foldl copyClaim (standardClaims payload))

/-- `header.payload`, the text that is signed. -/
def headerPayload (token : JwtToken δ) : Bytes :=
  base64UrlEncode (jsonStringify (headerJson token.header : JsonValue δ)) ++
    46 :: base64UrlEncode (jsonStringify (payloadJson token.payload))

/-- The token string that `jwt_encode` returns. -/
def jwtEncode (hmac : HmacSha256) (token : JwtToken δ) (secret : Bytes) : Option Bytes :=
  (jwtSign hmac (headerPayload token) secret token.header.alg).map fun signature =>
    headerPayload token ++ 46 :: signature

/-- `if (value && value->type == JSON_STRING)` replaces the field. -/
def stringField (value : Option (JsonValue δ)) (field : Option Bytes) : Option Bytes :=
  match value with
  | some (.string string) => some string
  | _ => field

def timeField (value : Option (JsonValue δ)) (field : Int64) : Int64 :=
  match value with
  | some (.integer integer) => integer
  | some (.number number) => CDouble.toInt64 number
  | _ => field

/-- The names that `jwt_decode` does not take as custom claims. -/
def standardClaimNames : List Bytes :=
  [ascii "iss", ascii "sub", ascii "aud", ascii "exp", ascii "nbf", ascii "iat", ascii "jti"]

/-- The header that `jwt_decode` builds. -/
def decodedHeader (header : List (Bytes × JsonValue δ)) : JwtHeader :=
  let created := (jwtCreate (δ := δ) 0).header
  { alg := (stringField (getEntry (ascii "alg") header) (some created.alg)).getD created.alg
    typ := (stringField (getEntry (ascii "typ") header) (some created.typ)).getD created.typ }

/-- The payload that `jwt_decode` builds. -/
def decodedPayload (now : Int64) (payload : List (Bytes × JsonValue δ)) : JwtPayload δ :=
  let created := (jwtCreate now).payload
  { iss := stringField (getEntry (ascii "iss") payload) created.iss
    sub := stringField (getEntry (ascii "sub") payload) created.sub
    aud := stringField (getEntry (ascii "aud") payload) created.aud
    exp := timeField (getEntry (ascii "exp") payload) created.exp
    nbf := timeField (getEntry (ascii "nbf") payload) created.nbf
    iat := timeField (getEntry (ascii "iat") payload) created.iat
    jti := stringField (getEntry (ascii "jti") payload) created.jti
    claims :=
      (payload.filter fun claim => claim.1 ∉ standardClaimNames).foldl copyClaim
        created.claims }

/-- A part of a token decoded and parsed, when it holds a JSON object. -/
def decodeObject (stale : Nat → UInt8) (part : Bytes) : Option (List (Bytes × JsonValue δ)) :=
  match base64UrlDecode stale part with
  | none => none
  | some json =>
      match jsonParse (cString json) with
      | some (.object entries) => some entries
      | _ => none

/-- The three parts that `strtok` finds in a token string. -/
def tokenParts (tokenStr : Bytes) : Option (Bytes × Bytes × Bytes) :=
  match strtok [46] tokenStr with
  | none => none
  | some (headerB64, rest) =>
      match strtok [46] rest with
      | none => none
      | some (payloadB64, rest) =>
          match strtok [46] rest with
          | none => none
          | some (signatureB64, _) => some (headerB64, payloadB64, signatureB64)

/-- `jwt_decode`.  The first argument holds the earlier contents of the blocks
for the header and for the payload. -/
def jwtDecode (stale : (Nat → UInt8) × (Nat → UInt8)) (now : Int64) (tokenStr : Bytes) :
    Option (JwtToken δ) :=
  if tokenStr.count 46 ≠ 2 then none
  else
    match tokenParts tokenStr with
    | none => none
    | some (headerB64, payloadB64, signatureB64) =>
        match decodeObject (δ := δ) stale.1 headerB64 with
        | none => none
        | some header =>
            match decodeObject stale.2 payloadB64 with
            | none => none
            | some payload =>
                some
                  { header := decodedHeader header
                    payload := decodedPayload now payload
                    signature := some signatureB64
                    tokenStr := some tokenStr }

def jwtVerify (δ : Type) [CDouble δ] (hmac : HmacSha256)
    (stale : (Nat → UInt8) × (Nat → UInt8)) (now : Int64) (tokenStr secret : Bytes) : Bool :=
  match (jwtDecode stale now tokenStr : Option (JwtToken δ)) with
  | none => false
  | some token =>
      if token.payload.exp > 0 && now > token.payload.exp then false
      else if token.payload.nbf > 0 && now < token.payload.nbf then false
      else
        match tokenParts tokenStr with
        | none => false
        | some (headerB64, payloadB64, signatureB64) =>
            match jwtSign hmac (headerB64 ++ 46 :: payloadB64) secret token.header.alg with
            | none => false
            | some signature =>
                if signature.length ≠ signatureB64.length then false
                else (List.zip signature signatureB64).all fun pair => pair.1 = pair.2

end Jwt

end Jdbx
