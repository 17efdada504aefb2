import Jdbx.Rbac.Jwt
import Jdbx.Utils.JsonRoundTrip

/-!
# What `jwt_verify` accepts, and what `jwt_decode` gives back

Acceptance is characterised on the token string alone, without the steps the
verifier takes.  For tokens that the JSON reader can read back, decoding
inverts encoding and verification accepts the encoded token inside its
validity window.
-/

namespace Jdbx

open Library

section Acceptance

variable {δ : Type} [CDouble δ]

def timeClaim (key : Bytes) (payload : List (Bytes × JsonValue δ)) : Option Int64 :=
  match getEntry key payload with
  | some (.integer integer) => some integer
  | some (.number number) => some (CDouble.toInt64 number)
  | _ => none

/-- A header that names an algorithm names the one `jwt_sign` implements.
Without a name the default header of `jwt_create` stands. -/
def SignedWithHs256 (header : List (Bytes × JsonValue δ)) : Prop :=
  ∀ alg, getEntry (ascii "alg") header = some (.string alg) → alg = ascii "HS256"

/-- The time claims that are set admit `now`; zero and negative times count as
not set. -/
def Admits (payload : List (Bytes × JsonValue δ)) (now : Int64) : Prop :=
  (∀ exp, timeClaim (ascii "exp") payload = some exp → exp > 0 → ¬ now > exp) ∧
    ∀ nbf, timeClaim (ascii "nbf") payload = some nbf → nbf > 0 → ¬ now < nbf

/-- A token string of three non-empty parts with the right signature, whose
header and payload are JSON objects that name HS256 and admit `now`. -/
def Accepted (δ : Type) [CDouble δ] (hmac : HmacSha256)
    (stale : (Nat → UInt8) × (Nat → UInt8)) (now : Int64) (tokenStr secret : Bytes) : Prop :=
  ∃ headerB64 payloadB64 signatureB64 : Bytes,
    tokenStr = headerB64 ++ 46 :: (payloadB64 ++ 46 :: signatureB64) ∧
      (∀ part ∈ [headerB64, payloadB64, signatureB64], part ≠ [] ∧ (46 : UInt8) ∉ part) ∧
      signatureB64 = base64UrlEncode (hmac.digest secret (headerB64 ++ 46 :: payloadB64)) ∧
      ∃ header payload : List (Bytes × JsonValue δ),
        decodeObject stale.1 headerB64 = some header ∧
          decodeObject stale.2 payloadB64 = some payload ∧
          SignedWithHs256 header ∧ Admits payload now

theorem tokenParts_iff {tokenStr headerB64 payloadB64 signatureB64 : Bytes} :
    tokenStr.count 46 = 2 ∧
        tokenParts tokenStr = some (headerB64, payloadB64, signatureB64) ↔
      tokenStr = headerB64 ++ 46 :: (payloadB64 ++ 46 :: signatureB64) ∧
        ∀ part ∈ [headerB64, payloadB64, signatureB64], part ≠ [] ∧ (46 : UInt8) ∉ part := by
  constructor
  · rintro ⟨two, parts⟩
    unfold tokenParts at parts
    split at parts
    · exact absurd parts (by simp)
    · rename_i first rest₁ firstCall
      split at parts
      · exact absurd parts (by simp)
      · rename_i second rest₂ secondCall
        split at parts
        · exact absurd parts (by simp)
        · rename_i third rest₃ thirdCall
          simp only [Option.some.injEq, Prod.mk.injEq] at parts
          obtain ⟨rfl, rfl, rfl⟩ := parts
          refine ⟨strtok_three two firstCall secondCall thirdCall, ?_⟩
          have proper : ∀ {text token rest : Bytes}, strtok [46] text = some (token, rest) →
              token ≠ [] ∧ (46 : UInt8) ∉ token := by
            intro text token rest call
            obtain ⟨_, _, nonempty, inside, _⟩ := strtok_layout call
            exact ⟨nonempty, fun member => inside 46 member (List.mem_singleton_self _)⟩
          intro part member
          simp only [List.mem_cons, List.not_mem_nil, or_false] at member
          rcases member with rfl | rfl | rfl
          · exact proper firstCall
          · exact proper secondCall
          · exact proper thirdCall
  · rintro ⟨rfl, proper⟩
    have inside : ∀ part ∈ [headerB64, payloadB64, signatureB64],
        ∀ byte ∈ part, byte ∉ [(46 : UInt8)] := by
      intro part member byte byteMember dot
      rw [List.mem_singleton.mp dot] at byteMember
      exact (proper part member).2 byteMember
    have header := proper headerB64 (by simp)
    have payload := proper payloadB64 (by simp)
    have signature := proper signatureB64 (by simp)
    constructor
    · simp [List.count_append, List.count_eq_zero.mpr header.2,
        List.count_eq_zero.mpr payload.2, List.count_eq_zero.mpr signature.2]
    · rw [tokenParts, strtok_cons (by simp) header.1 (inside headerB64 (by simp))]
      simp only
      rw [strtok_cons (by simp) payload.1 (inside payloadB64 (by simp))]
      simp only
      rw [strtok_last signature.1 (inside signatureB64 (by simp))]

theorem sameSignature_iff (signature other : Bytes) :
    (if signature.length ≠ other.length then false
      else (List.zip signature other).all fun pair => pair.1 = pair.2) = true ↔
      signature = other := by
  by_cases sameLength : signature.length = other.length
  · rw [if_neg (not_not_intro sameLength)]
    induction signature generalizing other with
    | nil =>
        have empty : other = [] := List.length_eq_zero_iff.mp sameLength.symm
        simp [empty]
    | cons byte signature ih =>
        cases other with
        | nil => exact absurd sameLength (by simp)
        | cons otherByte others =>
            have tail := ih others (Nat.succ.inj sameLength)
            rw [List.zip_cons_cons, List.all_cons, Bool.and_eq_true, tail, List.cons.injEq,
              decide_eq_true_eq]
  · rw [if_pos sameLength]
    constructor
    · intro impossible
      exact absurd impossible Bool.false_ne_true
    · rintro rfl
      exact absurd rfl sameLength

omit [CDouble δ] in
theorem decodedHeader_alg_eq_iff (header : List (Bytes × JsonValue δ)) :
    (decodedHeader header).alg = ascii "HS256" ↔ SignedWithHs256 header := by
  unfold SignedWithHs256 decodedHeader stringField
  simp only [jwtCreate]
  split
  · rename_i alg found
    simp [found]
  · rename_i other notString
    simp only [Option.getD_some, true_iff]
    intro alg found
    exact absurd found (notString alg)

theorem timeField_timeClaim (key : Bytes) (payload : List (Bytes × JsonValue δ)) :
    timeField (getEntry key payload) 0 = (timeClaim key payload).getD 0 := by
  cases found : getEntry key payload with
  | none => simp [timeField, timeClaim, found]
  | some value => cases value <;> simp [timeField, timeClaim, found]

private theorem set_iff {claim : Option Int64} {bad : Int64 → Prop} :
    ¬ (claim.getD 0 > 0 ∧ bad (claim.getD 0)) ↔
      ∀ time, claim = some time → time > 0 → ¬ bad time := by
  cases claim with
  | none => simp
  | some time => simp

theorem jwtDecode_eq_some_iff {stale : (Nat → UInt8) × (Nat → UInt8)} {now : Int64}
    {tokenStr : Bytes} {token : JwtToken δ} :
    jwtDecode stale now tokenStr = some token ↔
      ∃ (headerB64 payloadB64 signatureB64 : Bytes)
        (header payload : List (Bytes × JsonValue δ)),
        (tokenStr.count 46 = 2 ∧
          tokenParts tokenStr = some (headerB64, payloadB64, signatureB64)) ∧
          decodeObject stale.1 headerB64 = some header ∧
            decodeObject stale.2 payloadB64 = some payload ∧
              { header := decodedHeader header
                payload := decodedPayload now payload
                signature := some signatureB64
                tokenStr := some tokenStr } = token := by
  unfold jwtDecode
  by_cases two : tokenStr.count 46 = 2
  · rw [if_neg (not_not_intro two)]
    cases parts : tokenParts tokenStr with
    | none => simp
    | some found =>
        obtain ⟨headerB64, payloadB64, signatureB64⟩ := found
        cases headerFound : (decodeObject stale.1 headerB64 : Option (List (Bytes × JsonValue δ))) with
        | none => simp [headerFound]
        | some header =>
            cases payloadFound :
                (decodeObject stale.2 payloadB64 : Option (List (Bytes × JsonValue δ))) with
            | none => simp [headerFound, payloadFound]
            | some payload => simp [two, headerFound, payloadFound]
  · rw [if_pos two]
    simp [two]

theorem jwtSign_eq_some_iff {hmac : HmacSha256} {headerPayload secret alg signature : Bytes} :
    jwtSign hmac headerPayload secret alg = some signature ↔
      alg = ascii "HS256" ∧ base64UrlEncode (hmac.digest secret headerPayload) = signature := by
  unfold jwtSign
  by_cases supported : alg = ascii "HS256" <;> simp [supported]

/-- `jwt_verify` accepts exactly the accepted token strings. -/
theorem jwtVerify_iff_accepted (hmac : HmacSha256) (stale : (Nat → UInt8) × (Nat → UInt8))
    (now : Int64) (tokenStr secret : Bytes) :
    jwtVerify δ hmac stale now tokenStr secret = true ↔
      Accepted δ hmac stale now tokenStr secret := by
  constructor
  · intro verified
    unfold jwtVerify at verified
    split at verified
    · exact absurd verified Bool.false_ne_true
    · rename_i token decoded
      obtain ⟨headerB64, payloadB64, signatureB64, header, payload, parts, headerFound,
        payloadFound, rfl⟩ := jwtDecode_eq_some_iff.mp decoded
      split at verified
      · exact absurd verified Bool.false_ne_true
      · rename_i notExpired
        split at verified
        · exact absurd verified Bool.false_ne_true
        · rename_i notEarly
          rw [parts.2] at verified
          simp only at verified
          split at verified
          · exact absurd verified Bool.false_ne_true
          · rename_i signature signed
            obtain ⟨algorithm, digest⟩ := jwtSign_eq_some_iff.mp signed
            have same := (sameSignature_iff signature signatureB64).mp verified
            obtain ⟨layout, proper⟩ := tokenParts_iff.mp parts
            refine ⟨headerB64, payloadB64, signatureB64, layout, proper, ?_, header, payload,
              headerFound, payloadFound, (decodedHeader_alg_eq_iff header).mp algorithm, ?_, ?_⟩
            · rw [digest, same]
            · refine set_iff.mp ?_
              rw [← timeField_timeClaim]
              simpa [decodedPayload, jwtCreate] using notExpired
            · refine set_iff.mp ?_
              rw [← timeField_timeClaim]
              simpa [decodedPayload, jwtCreate] using notEarly
  · rintro ⟨headerB64, payloadB64, signatureB64, layout, proper, signed, header, payload,
      headerFound, payloadFound, algorithm, inTime, notEarly⟩
    have parts := tokenParts_iff.mpr ⟨layout, proper⟩
    have decoded :
        jwtDecode stale now tokenStr =
          some
            { header := decodedHeader header
              payload := decodedPayload now payload
              signature := some signatureB64
              tokenStr := some tokenStr } :=
      jwtDecode_eq_some_iff.mpr
        ⟨headerB64, payloadB64, signatureB64, header, payload, parts, headerFound, payloadFound, rfl⟩
    have signature :=
      jwtSign_eq_some_iff.mpr ⟨(decodedHeader_alg_eq_iff header).mpr algorithm, signed.symm⟩
    have timely := set_iff.mpr inTime
    have early := set_iff.mpr notEarly
    rw [← timeField_timeClaim] at timely early
    rw [jwtVerify, decoded]
    simp only [parts.2, signature]
    rw [if_neg (by simpa [decodedPayload, jwtCreate] using timely),
      if_neg (by simpa [decodedPayload, jwtCreate] using early)]
    exact (sameSignature_iff _ _).mpr rfl

end Acceptance

/-! ## Encoding and decoding -/

section RoundTrip

variable {δ : Type} [CDouble δ] {token : JwtToken δ}

/-- The members of the payload object: the standard claims that are set, then
the custom claims. -/
def payloadMembers (payload : JwtPayload δ) : List (Bytes × JsonValue δ) :=
  standardClaims payload ++ payload.claims

/-- A token whose header and payload the JSON reader can read back: no escaped
characters and within the limits, with an algorithm that can be signed, times
that are set or zero, and custom claims under other names. -/
structure Encodable (token : JwtToken δ) : Prop where
  algorithm : token.header.alg = ascii "HS256"
  expiration : token.payload.exp = 0 ∨ token.payload.exp > 0
  notBefore : token.payload.nbf = 0 ∨ token.payload.nbf > 0
  issuedAt : token.payload.iat > 0
  customNames : ∀ claim ∈ token.payload.claims, claim.1 ∉ standardClaimNames
  headerReadable : Readable (headerJson token.header : JsonValue δ)
  headerPlain : EveryString Plain (headerJson token.header : JsonValue δ)
  payloadReadable : Readable (.object (payloadMembers token.payload))
  payloadPlain : EveryString Plain (.object (payloadMembers token.payload))

omit [CDouble δ] in
theorem getEntry_setString (key tested : Bytes) (field : Option Bytes)
    (entries : List (Bytes × JsonValue δ)) :
    getEntry tested (setString key field entries) =
      if tested = key then (field.map JsonValue.string).or (getEntry tested entries)
      else getEntry tested entries := by
  cases field with
  | none => simp [setString]
  | some string =>
      rw [setString, getEntry_setEntry]
      rfl

omit [CDouble δ] in
theorem getEntry_setTime (key tested : Bytes) (time : Int64)
    (entries : List (Bytes × JsonValue δ)) :
    getEntry tested (setTime key time entries) =
      if tested = key then
        (if time > 0 then some (JsonValue.integer time) else none).or (getEntry tested entries)
      else getEntry tested entries := by
  unfold setTime
  by_cases positive : time > 0
  · rw [if_pos positive, if_pos positive, getEntry_setEntry]
    rfl
  · simp [positive]

omit [CDouble δ] in
theorem standardClaims_names (payload : JwtPayload δ) :
    ∀ key ∈ entryKeys (standardClaims payload), key ∈ standardClaimNames := by
  intro key member
  by_contra other
  have absent : getEntry key (standardClaims payload) = none := by
    simp only [standardClaimNames, List.mem_cons, List.not_mem_nil, or_false, not_or] at other
    simp only [standardClaims, getEntry_setString, getEntry_setTime, other, ↓reduceIte,
      getEntry_nil]
  exact getEntry_eq_none_iff.mp absent member

theorem foldl_copyClaim {claims : List (Bytes × JsonValue δ)}
    (readBack : ∀ claim ∈ claims, jsonParse (jsonStringify claim.2) = some claim.2) :
    ∀ entries, (entryKeys (entries ++ claims)).Nodup →
      claims.foldl copyClaim entries = entries ++ claims := by
  intro entries nodup
  have sameLoop :
      claims.foldl copyClaim entries =
        claims.foldl (fun entries claim => setEntry claim.1 claim.2 entries) entries := by
    refine List.foldl_ext _ _ _ fun entries claim member => ?_
    rw [copyClaim, readBack claim member]
  rw [sameLoop, foldl_setEntry_of_nodup claims entries nodup]

theorem claims_readBack (encodable : Encodable token) :
    ∀ claim ∈ token.payload.claims, jsonParse (jsonStringify claim.2) = some claim.2 := by
  intro claim member
  have inMembers : claim ∈ payloadMembers token.payload := List.mem_append_right _ member
  exact
    jsonParse_jsonStringify_of_plain (encodable.payloadReadable.entry inMembers)
      (everyStringEntries_iff.mp encodable.payloadPlain claim inMembers).2

theorem payloadJson_eq (encodable : Encodable token) :
    payloadJson token.payload = .object (payloadMembers token.payload) := by
  rw [payloadJson, foldl_copyClaim (claims_readBack encodable) _
    encodable.payloadReadable.wellFormed.1, payloadMembers]

theorem decodeObject_base64UrlEncode (stale : Nat → UInt8)
    {entries : List (Bytes × JsonValue δ)} (readable : Readable (.object entries))
    (plain : EveryString Plain (.object entries)) :
    decodeObject stale (base64UrlEncode (jsonStringify (.object entries))) = some entries := by
  have whole :
      cString (jsonStringify (.object entries)) = jsonStringify (.object entries) :=
    cString_eq_self
      (nulFree_stringifyValue (.object entries) readable.wellFormed readable.numberFree)
  rw [decodeObject, base64UrlDecode_base64UrlEncode]
  simp only [whole, jsonParse_jsonStringify_of_plain readable plain]

theorem getEntry_payloadMembers (encodable : Encodable token) {key : Bytes}
    (standard : key ∈ standardClaimNames) :
    getEntry key (payloadMembers token.payload) = getEntry key (standardClaims token.payload) := by
  have customNone : getEntry key token.payload.claims = none := by
    refine getEntry_eq_none_iff.mpr fun member => ?_
    obtain ⟨claim, claimMember, rfl⟩ := List.mem_map.mp member
    exact encodable.customNames claim claimMember standard
  rw [payloadMembers, getEntry_append, customNone, Option.or_none]

omit [CDouble δ] in
theorem stringField_map (field : Option Bytes) :
    stringField (field.map (JsonValue.string (δ := δ))) none = field := by
  cases field <;> rfl

theorem timeField_positive {time : Int64} (set : time = 0 ∨ time > 0) :
    timeField (if time > 0 then some (JsonValue.integer (δ := δ) time) else none) 0 = time := by
  rcases set with rfl | positive
  · rfl
  · rw [if_pos positive]
    rfl

theorem customClaims_payloadMembers (encodable : Encodable token) :
    (payloadMembers token.payload).filter (fun claim => claim.1 ∉ standardClaimNames) =
      token.payload.claims := by
  have noStandard :
      (standardClaims token.payload).filter (fun claim => claim.1 ∉ standardClaimNames) = [] := by
    rw [List.filter_eq_nil_iff]
    intro claim member
    have named := standardClaims_names token.payload claim.1 (List.mem_map_of_mem member)
    simpa using named
  have allCustom :
      token.payload.claims.filter (fun claim => claim.1 ∉ standardClaimNames) =
        token.payload.claims := by
    rw [List.filter_eq_self]
    intro claim member
    simpa using encodable.customNames claim member
  rw [payloadMembers, List.filter_append, noStandard, allCustom, List.nil_append]

theorem decodedPayload_payloadMembers (encodable : Encodable token) (now : Int64) :
    decodedPayload now (payloadMembers token.payload) = token.payload := by
  have lookup : ∀ key ∈ standardClaimNames,
      getEntry key (payloadMembers token.payload) = getEntry key (standardClaims token.payload) :=
    fun key standard => getEntry_payloadMembers encodable standard
  have distinct : (entryKeys token.payload.claims).Nodup := by
    have whole := encodable.payloadReadable.wellFormed.1
    rw [payloadMembers, entryKeys, List.map_append] at whole
    exact (List.nodup_append.mp whole).2.1
  have issuedAt :
      timeField (if token.payload.iat > 0 then
        some (JsonValue.integer (δ := δ) token.payload.iat) else none) now = token.payload.iat := by
    rw [if_pos encodable.issuedAt]
    rfl
  unfold decodedPayload
  simp only [customClaims_payloadMembers encodable, lookup _ (by decide : ascii "iss" ∈ _),
    lookup _ (by decide : ascii "sub" ∈ _), lookup _ (by decide : ascii "aud" ∈ _),
    lookup _ (by decide : ascii "exp" ∈ _), lookup _ (by decide : ascii "nbf" ∈ _),
    lookup _ (by decide : ascii "iat" ∈ _), lookup _ (by decide : ascii "jti" ∈ _)]
  simp +decide only [standardClaims, getEntry_setString, getEntry_setTime, getEntry_nil,
    Option.or_none, ↓reduceIte, jwtCreate, stringField_map,
    timeField_positive encodable.expiration, timeField_positive encodable.notBefore, issuedAt]
  rw [foldl_copyClaim (claims_readBack encodable) [] distinct, List.nil_append]

omit [CDouble δ] in
theorem headerJson_eq (header : JwtHeader) :
    (headerJson header : JsonValue δ) =
      .object [(ascii "alg", .string header.alg), (ascii "typ", .string header.typ)] :=
  rfl

omit [CDouble δ] in
theorem decodedHeader_headerJson (header : JwtHeader) :
    decodedHeader (δ := δ)
        [(ascii "alg", .string header.alg), (ascii "typ", .string header.typ)] = header :=
  rfl

def InWindow (payload : JwtPayload δ) (now : Int64) : Prop :=
  (payload.exp > 0 → ¬ now > payload.exp) ∧ (payload.nbf > 0 → ¬ now < payload.nbf)

theorem admits_payloadMembers (encodable : Encodable token) {now : Int64}
    (inWindow : InWindow token.payload now) : Admits (payloadMembers token.payload) now := by
  have times := decodedPayload_payloadMembers encodable 0
  have exp : timeField (getEntry (ascii "exp") (payloadMembers token.payload)) 0 =
      token.payload.exp := congrArg JwtPayload.exp times
  have nbf : timeField (getEntry (ascii "nbf") (payloadMembers token.payload)) 0 =
      token.payload.nbf := congrArg JwtPayload.nbf times
  rw [timeField_timeClaim] at exp nbf
  constructor
  · refine set_iff.mp ?_
    rw [exp]
    exact fun expired => inWindow.1 expired.1 expired.2
  · refine set_iff.mp ?_
    rw [nbf]
    exact fun early => inWindow.2 early.1 early.2

private theorem encodedPart_proper {input : Bytes} (nonempty : input ≠ []) :
    base64UrlEncode input ≠ [] ∧ (46 : UInt8) ∉ base64UrlEncode input :=
  ⟨base64UrlEncode_ne_nil nonempty, fun dot => (base64UrlEncode_dotFree input 46 dot).1 rfl⟩

theorem jwtDecode_jwtEncode (hmac : HmacSha256) (secret : Bytes) (encodable : Encodable token) :
    ∃ tokenStr, jwtEncode hmac token secret = some tokenStr ∧
      ∀ (stale : (Nat → UInt8) × (Nat → UInt8)) (now : Int64),
        (∃ decoded, jwtDecode stale now tokenStr = some decoded ∧
          decoded.header = token.header ∧ decoded.payload = token.payload) ∧
        (InWindow token.payload now → jwtVerify δ hmac stale now tokenStr secret = true) := by
  let members := payloadMembers token.payload
  let headerB64 := base64UrlEncode (jsonStringify (headerJson token.header : JsonValue δ))
  let payloadB64 := base64UrlEncode (jsonStringify (.object members : JsonValue δ))
  let signatureB64 := base64UrlEncode (hmac.digest secret (headerB64 ++ 46 :: payloadB64))
  have signedText : headerPayload token = headerB64 ++ 46 :: payloadB64 := by
    rw [headerPayload, payloadJson_eq encodable]
  have digestNonempty : hmac.digest secret (headerB64 ++ 46 :: payloadB64) ≠ [] := by
    refine List.ne_nil_of_length_pos ?_
    rw [hmac.digest_length]
    decide
  have proper : ∀ part ∈ [headerB64, payloadB64, signatureB64],
      part ≠ [] ∧ (46 : UInt8) ∉ part := by
    intro part member
    simp only [List.mem_cons, List.not_mem_nil, or_false] at member
    rcases member with rfl | rfl | rfl
    · exact encodedPart_proper (List.cons_ne_nil _ _)
    · exact encodedPart_proper (List.cons_ne_nil _ _)
    · exact encodedPart_proper digestNonempty
  have headerReadable := encodable.headerReadable
  have headerPlain := encodable.headerPlain
  rw [headerJson_eq] at headerReadable headerPlain
  have headerFound : ∀ stale, decodeObject stale headerB64 =
      some [(ascii "alg", JsonValue.string (δ := δ) token.header.alg),
        (ascii "typ", .string token.header.typ)] :=
    fun stale => decodeObject_base64UrlEncode stale headerReadable headerPlain
  have payloadFound : ∀ stale, decodeObject stale payloadB64 = some members :=
    fun stale =>
      decodeObject_base64UrlEncode stale encodable.payloadReadable encodable.payloadPlain
  refine ⟨headerB64 ++ 46 :: (payloadB64 ++ 46 :: signatureB64), ?_, ?_⟩
  · rw [jwtEncode, signedText, jwtSign_eq_some_iff.mpr ⟨encodable.algorithm, rfl⟩]
    simp [signatureB64]
  intro stale now
  constructor
  · refine ⟨_, jwtDecode_eq_some_iff.mpr ⟨headerB64, payloadB64, signatureB64, _, members,
      tokenParts_iff.mpr ⟨rfl, proper⟩, headerFound stale.1, payloadFound stale.2, rfl⟩,
      decodedHeader_headerJson token.header, decodedPayload_payloadMembers encodable now⟩
  · intro inWindow
    refine (jwtVerify_iff_accepted hmac stale now _ secret).mpr
      ⟨headerB64, payloadB64, signatureB64, rfl, proper, rfl, _, members, headerFound stale.1,
        payloadFound stale.2, ?_, admits_payloadMembers encodable inWindow⟩
    rw [← decodedHeader_alg_eq_iff, decodedHeader_headerJson]
    exact encodable.algorithm

/-- Verification accepts exactly the accepted token strings, and encoding is
inverted by decoding and accepted by verification for every encodable token. -/
theorem jwtVerify_and_jwtDecode_correct (hmac : HmacSha256) (secret : Bytes) :
    (∀ (stale : (Nat → UInt8) × (Nat → UInt8)) (now : Int64) (tokenStr : Bytes),
      jwtVerify δ hmac stale now tokenStr secret = true ↔
        Accepted δ hmac stale now tokenStr secret) ∧
    ∀ token : JwtToken δ, Encodable token →
      ∃ tokenStr, jwtEncode hmac token secret = some tokenStr ∧
        ∀ (stale : (Nat → UInt8) × (Nat → UInt8)) (now : Int64),
          (∃ decoded, jwtDecode stale now tokenStr = some decoded ∧
            decoded.header = token.header ∧ decoded.payload = token.payload) ∧
          (InWindow token.payload now → jwtVerify δ hmac stale now tokenStr secret = true) :=
  ⟨fun stale now tokenStr => jwtVerify_iff_accepted hmac stale now tokenStr secret,
    fun _ encodable => jwtDecode_jwtEncode hmac secret encodable⟩

end RoundTrip

def zeroHmac : HmacSha256 where
  digest _ _ := List.replicate 32 0
  digest_length _ _ := List.length_replicate

/-- A token with a subject, an expiry time and one custom claim. -/
def adaToken : JwtToken Rat where
  header := { alg := ascii "HS256", typ := ascii "JWT" }
  payload :=
    { iss := none, sub := some (ascii "ada"), aud := none, exp := 100, nbf := 0, iat := 1,
      jti := none, claims := [(ascii "role", .string (ascii "admin"))] }
  signature := none
  tokenStr := none

theorem encodable_adaToken : Encodable adaToken where
  algorithm := rfl
  expiration := Or.inr (by decide)
  notBefore := Or.inl rfl
  issuedAt := by decide
  customNames := by
    intro claim member
    obtain rfl := List.mem_singleton.mp member
    decide
  headerReadable := by decide +kernel
  headerPlain := by decide +kernel
  payloadReadable := by decide +kernel
  payloadPlain := by decide +kernel

theorem jwtVerify_and_jwtDecode_correct_adaToken :
    ∃ tokenStr, jwtEncode zeroHmac adaToken (ascii "secret") = some tokenStr ∧
      ∀ (stale : (Nat → UInt8) × (Nat → UInt8)) (now : Int64),
        (∃ decoded, jwtDecode stale now tokenStr = some decoded ∧
          decoded.header = adaToken.header ∧ decoded.payload = adaToken.payload) ∧
        (InWindow adaToken.payload now →
          jwtVerify Rat zeroHmac stale now tokenStr (ascii "secret") = true) :=
  (jwtVerify_and_jwtDecode_correct zeroHmac (ascii "secret")).2 adaToken encodable_adaToken

/-- Every time claim of the payload admits `now`, whatever its value. -/
def StrictlyAdmits {δ : Type} [CDouble δ] (payload : List (Bytes × JsonValue δ))
    (now : Int64) : Prop :=
  (∀ exp, timeClaim (ascii "exp") payload = some exp → now ≤ exp) ∧
    ∀ nbf, timeClaim (ascii "nbf") payload = some nbf → nbf ≤ now

/-- The payload `{"exp":0}`. -/
def epochPayload : List (Bytes × JsonValue Rat) :=
  [(ascii "exp", .integer 0)]

/-- The header `{"alg":"HS256"}` and the payload `{"exp":0}`, encoded. -/
def epochParts : Bytes × Bytes :=
  (base64UrlEncode (jsonStringify (.object [(ascii "alg", .string (ascii "HS256"))] :
      JsonValue Rat)),
    base64UrlEncode (jsonStringify (.object epochPayload)))

/-- A correctly signed token whose payload holds `exp` zero. -/
def epochToken : Bytes :=
  epochParts.1 ++ 46 :: (epochParts.2 ++
    46 :: base64UrlEncode (zeroHmac.digest (ascii "secret") (epochParts.1 ++ 46 :: epochParts.2)))

/-- At time 5 the token with `exp` zero is accepted, although its payload does
not admit that time. -/
theorem jwtVerify_epochToken :
    jwtVerify Rat zeroHmac (fun _ => 0, fun _ => 0) 5 epochToken (ascii "secret") = true ∧
      ¬ ∃ (headerB64 payloadB64 signatureB64 : Bytes) (payload : List (Bytes × JsonValue Rat)),
        epochToken = headerB64 ++ 46 :: (payloadB64 ++ 46 :: signatureB64) ∧
          (∀ part ∈ [headerB64, payloadB64, signatureB64], part ≠ [] ∧ (46 : UInt8) ∉ part) ∧
          decodeObject (fun _ => 0) payloadB64 = some payload ∧ StrictlyAdmits payload 5 := by
  have proper : ∀ part ∈ [epochParts.1, epochParts.2,
      base64UrlEncode (zeroHmac.digest (ascii "secret") (epochParts.1 ++ 46 :: epochParts.2))],
      part ≠ [] ∧ (46 : UInt8) ∉ part := by
    decide +kernel
  have payloadFound : decodeObject (fun _ => 0) epochParts.2 = some epochPayload :=
    decodeObject_base64UrlEncode _ (by decide +kernel) (by decide +kernel)
  have headerFound :
      decodeObject (fun _ => 0) epochParts.1 =
        some [(ascii "alg", JsonValue.string (δ := Rat) (ascii "HS256"))] :=
    decodeObject_base64UrlEncode _ (by decide +kernel) (by decide +kernel)
  constructor
  · refine (jwtVerify_iff_accepted _ _ _ _ _).mpr
      ⟨_, _, _, rfl, proper, rfl, _, _, headerFound, payloadFound, ?_, ?_, ?_⟩
    · intro alg found
      exact (JsonValue.string.inj (Option.some.inj found)).symm
    · intro exp found positive
      cases found
      exact absurd positive (by decide)
    · intro nbf found
      exact absurd found (by simp +decide [timeClaim, epochPayload, getEntry])
  · rintro ⟨headerB64, payloadB64, signatureB64, payload, layout, otherProper, decoded, admits⟩
    have parts := (tokenParts_iff.mpr ⟨layout, otherProper⟩).2
    rw [epochToken, (tokenParts_iff.mpr ⟨rfl, proper⟩).2] at parts
    simp only [Option.some.injEq, Prod.mk.injEq] at parts
    obtain ⟨_, rfl, _⟩ := parts
    rw [payloadFound] at decoded
    cases decoded
    exact absurd (admits.1 0 rfl) (by decide)

end Jdbx
