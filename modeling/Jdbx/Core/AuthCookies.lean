import Jdbx.Core.HeaderLines
import Jdbx.Core.HttpResponse

/-!
# The cookie of a login

`create_auth_response` prints the cookie into a buffer of 512 bytes and does not look at the
length that `snprintf` returns.  What a client sends back is read whole.
-/

namespace Jdbx

open Library

def adminAuthCookieName : Bytes :=
  ascii "jdbx_static_auth"

/-- What the format of `create_auth_response` stands for, with `ADMIN_AUTH_COOKIE_TTL`. -/
def setCookieText (token : Bytes) : Bytes :=
  ascii "Set-Cookie: " ++ adminAuthCookieName ++ [61] ++ token ++
    ascii "; Path=/; Max-Age=3600; HttpOnly; SameSite=Lax"

/-- `grown` is the answer to the allocation of the array, `copied` that to the copy of the
line. -/
def addResponseHeader (response : HttpResponse) (header : Bytes) (grown copied : Bool) :
    HttpResponse :=
  if response.headers.length > 1000 then response
  else if grown then
    { response with headers := response.headers ++ [if copied then some header else none] }
  else response

/-- `char cookie_header[512]` has room for 511 bytes and the `NUL`. -/
def createAuthResponse (response : HttpResponse) (token : Bytes) (grown copied : Bool) :
    HttpResponse :=
  addResponseHeader response ((setCookieText token).take 511) grown copied

def getCookieValue (request : HttpRequest) (name : Bytes) : Option Bytes :=
  (request.cookies.find? (·.name = name)).map Cookie.value

def tokenBytes : Bytes :=
  ascii "ABCDEFGHIJKLMNOPQRSTUVWXYZabcdefghijklmnopqrstuvwxyz0123456789-_."

namespace Cookie

def pair (cookie : Cookie) : Bytes :=
  cookie.name ++ 61 :: cookie.value

/-- No white space, no `NUL` and no semicolon, and in the name no `=`. -/
structure Plain (cookie : Cookie) : Prop where
  name : ∀ byte ∈ cookie.name, isspace byte = false ∧ byte ∉ ([0, 59, 61] : Bytes)
  value : ∀ byte ∈ cookie.value, isspace byte = false ∧ byte ∉ ([0, 59] : Bytes)

end Cookie

/-- The value of a `Cookie` header. -/
def cookieLine (cookies : List Cookie) : Bytes :=
  [59, 32].intercalate (cookies.map Cookie.pair)

/-- The request has one `Cookie` header, which lists the cookies. -/
structure SendsCookies (message : RequestMessage) (cookies : List Cookie) : Prop where
  framed : WellFramed message
  header : ∃ header front back, message.headers = front ++ header :: back ∧
    header.field = some .cookie ∧ trim header.text = cookieLine cookies ∧
      ∀ other ∈ front ++ back, other.field ≠ some .cookie

/-- The header that is added is the whole text, and from a request with the cookie among others
the token is read again. -/
structure TokenKept (token : Bytes) : Prop where
  carried : ∀ response grown copied header,
    (createAuthResponse response token grown copied).headers = response.headers ++ [some header] →
      header = setCookieText token
  returned : ∀ message behind before after,
    SendsCookies message (before ++ { name := adminAuthCookieName, value := token } :: after) →
      (∀ cookie ∈ before ++ after, cookie.Plain ∧ cookie.name ≠ adminAuthCookieName) →
        getCookieValue (parseHttpRequest message.text behind) adminAuthCookieName = some token

theorem Cookie.Plain.pair_free {cookie : Cookie} (plain : cookie.Plain) :
    ∀ byte ∈ cookie.pair, isspace byte = false ∧ byte ∉ ([0, 59] : Bytes) := by
  intro byte member
  rcases List.mem_append.mp member with inName | inValue
  · have free := plain.name byte inName
    exact ⟨free.1, fun ending => free.2 (by simp at ending ⊢; tauto)⟩
  · rcases List.mem_cons.mp inValue with rfl | inValue
    · decide
    · exact plain.value byte inValue

theorem pair_ne_nil (cookie : Cookie) : cookie.pair ≠ [] :=
  List.append_ne_nil_of_right_ne_nil _ (List.cons_ne_nil _ _)

theorem dropWhile_spaces {spaces text : Bytes} (blank : ∀ byte ∈ spaces, byte = 32)
    (visible : ∀ byte ∈ text, isspace byte = false) :
    (spaces ++ text).dropWhile (· = 32) = text := by
  rw [List.dropWhile_append_of_pos (by simpa using blank)]
  cases text with
  | nil => rfl
  | cons first text =>
      have free := visible first List.mem_cons_self
      exact List.dropWhile_cons_of_neg fun same => by
        rw [of_decide_eq_true same] at free
        exact absurd free (by decide)

theorem parseCookiePair_pair {cookie : Cookie} (plain : cookie.Plain) {spaces : Bytes}
    (blank : ∀ byte ∈ spaces, byte = 32) :
    parseCookiePair (spaces ++ cookie.pair) = some cookie := by
  have noEquals : ∀ byte ∈ cookie.name, decide (byte ≠ 61) = true := fun byte member =>
    decide_eq_true fun same => (plain.name byte member).2 (by simp [same])
  rw [parseCookiePair, dropWhile_spaces blank fun byte member => (plain.pair_free byte member).1,
    splitAtByte, Cookie.pair, List.dropWhile_append_of_pos noEquals,
    List.takeWhile_append_of_pos noEquals, List.dropWhile_cons_of_neg (by decide),
    List.takeWhile_cons_of_neg (by decide), List.append_nil]
  rfl

theorem parseCookiePairs_line : ∀ {cookies : List Cookie} {fuel : Nat} {spaces : Bytes},
    cookies ≠ [] → (∀ cookie ∈ cookies, cookie.Plain) → (∀ byte ∈ spaces, byte = 32) →
      (cookieLine cookies).length < fuel →
        parseCookiePairs fuel (spaces ++ cookieLine cookies) = cookies := by
  intro cookies
  induction cookies with
  | nil => exact fun nonempty => absurd rfl nonempty
  | cons cookie cookies ih =>
      intro fuel spaces _ plain blank enough
      have first := plain cookie List.mem_cons_self
      have inside : ∀ byte ∈ spaces ++ cookie.pair, byte ∉ ascii ";" := by
        refine List.forall_mem_append.mpr ⟨fun byte member => ?_, fun byte member ending => ?_⟩
        · rw [blank byte member]
          decide
        · exact (first.pair_free byte member).2 (List.mem_cons_of_mem 0 ending)
      have nonempty : spaces ++ cookie.pair ≠ [] :=
        List.append_ne_nil_of_right_ne_nil _ (pair_ne_nil cookie)
      cases fuel with
      | zero => exact absurd enough (Nat.not_lt_zero _)
      | succ fuel =>
          cases cookies with
          | nil =>
              have last : cookieLine [cookie] = cookie.pair := List.intercalate_singleton
              rw [last, parseCookiePairs, strtok_last nonempty inside]
              change (parseCookiePair (spaces ++ cookie.pair)).toList ++
                parseCookiePairs fuel [] = _
              rw [parseCookiePair_pair first blank]
              cases fuel <;> rfl
          | cons next cookies =>
              have layout : cookieLine (cookie :: next :: cookies) =
                  cookie.pair ++ 59 :: ([32] ++ cookieLine (next :: cookies)) := by
                simp [cookieLine]
              rw [layout, List.length_append, List.length_cons, List.length_append] at enough
              rw [layout, ← List.append_assoc, parseCookiePairs,
                strtok_cons (by decide) nonempty inside]
              change (parseCookiePair (spaces ++ cookie.pair)).toList ++
                parseCookiePairs fuel ([32] ++ cookieLine (next :: cookies)) = _
              rw [parseCookiePair_pair first blank, ih (List.cons_ne_nil _ _)
                (fun other member => plain other (List.mem_cons_of_mem cookie member))
                (by simp) (by omega)]
              rfl

/-! ## The round trip -/

theorem store_cookieHeader (header : HeaderLine) (request : HttpRequest) :
    (header.store request).cookies = request.cookies ∧
      (header.store request).cookieHeader =
        if header.field = some .cookie then some (trim header.text)
        else request.cookieHeader := by
  rw [HeaderLine.store]
  cases header.field with
  | none => exact ⟨rfl, rfl⟩
  | some field => cases field <;> exact ⟨rfl, rfl⟩

theorem foldl_store_cookies (headers : List HeaderLine) : ∀ request : HttpRequest,
    (headers.foldl (fun request header => header.store request) request).cookies =
        request.cookies ∧
      ((∀ other ∈ headers, other.field ≠ some .cookie) →
        (headers.foldl (fun request header => header.store request) request).cookieHeader =
          request.cookieHeader) := by
  induction headers with
  | nil => exact fun request => ⟨rfl, fun _ => rfl⟩
  | cons header headers ih =>
      intro request
      have first := store_cookieHeader header request
      refine ⟨(ih _).1.trans first.1, fun others => ?_⟩
      have later := (ih (header.store request)).2 fun other member =>
        others other (List.mem_cons_of_mem header member)
      rw [List.foldl_cons, later, first.2, if_neg (others header List.mem_cons_self)]

theorem SendsCookies.cookies_eq {message : RequestMessage} {cookies : List Cookie}
    (sends : SendsCookies message cookies) (some : cookies ≠ [])
    (plain : ∀ cookie ∈ cookies, cookie.Plain) (behind : Bytes) :
    (parseHttpRequest message.text behind).cookies = cookies := by
  obtain ⟨header, front, back, layout, isCookie, value, others⟩ := sends.header
  have start : (applyRequestLine emptyHttpRequest message.requestLine).cookies = [] := by
    rw [applyRequestLine]
    dsimp only
    split <;> rfl
  have fields := congrArg HttpRequest.cookies
    ((parsedRight_iff message behind).mpr sends.framed).fields
  change _ = message.expected.cookies at fields
  refine Eq.trans fields ?_
  have behindFree := fun other member => others other (List.mem_append_right front member)
  rw [RequestMessage.expected, parseCookies, layout, List.foldl_append, List.foldl_cons,
    (foldl_store_cookies back _).2 behindFree, (store_cookieHeader header _).2, if_pos isCookie,
    value]
  dsimp only
  rw [(foldl_store_cookies back _).1, (store_cookieHeader header _).1,
    (foldl_store_cookies front _).1, start, List.nil_append]
  exact @parseCookiePairs_line _ _ [] some plain (fun _ member => absurd member List.not_mem_nil)
    (Nat.lt_succ_self _)

theorem addResponseHeader_added {response : HttpResponse} {header added : Bytes}
    {grown copied : Bool}
    (result : (addResponseHeader response header grown copied).headers =
      response.headers ++ [some added]) : added = header := by
  have notSame : response.headers ≠ response.headers ++ [some added] := by simp
  rw [addResponseHeader] at result
  split_ifs at result with full copies
  · exact absurd result notSame
  · exact (Option.some.inj (List.singleton_inj.mp (List.append_cancel_left result))).symm
  · simp at result
  · exact absurd result notSame

theorem length_setCookieText (token : Bytes) :
    (setCookieText token).length = 75 + token.length := by
  have before : (ascii "Set-Cookie: " ++ adminAuthCookieName ++ [61]).length = 29 := by decide
  have behind : (ascii "; Path=/; Max-Age=3600; HttpOnly; SameSite=Lax").length = 46 := by decide
  rw [setCookieText, List.length_append, List.length_append, before, behind]
  omega

theorem tokenBytes_plain :
    ∀ byte ∈ tokenBytes, isspace byte = false ∧ byte ∉ ([0, 59] : Bytes) := by
  decide +kernel

theorem authCookie_plain {token : Bytes} (bytes : ∀ byte ∈ token, byte ∈ tokenBytes) :
    Cookie.Plain { name := adminAuthCookieName, value := token } where
  name := by
    change ∀ byte ∈ adminAuthCookieName, _
    decide +kernel
  value byte member := tokenBytes_plain byte (bytes byte member)

theorem length_le_of_carried {token : Bytes} (kept : TokenKept token) : token.length ≤ 436 := by
  let response : HttpResponse :=
    { status := 200, body := none, contentType := [], headers := [], keepAlive := false }
  have whole := congrArg List.length (kept.carried response true true _ rfl)
  rw [List.length_take, length_setCookieText] at whole
  omega

/-- A token is kept exactly when the `Set-Cookie` header has room for it and its attributes. -/
theorem tokenKept_iff {token : Bytes} (bytes : ∀ byte ∈ token, byte ∈ tokenBytes) :
    TokenKept token ↔ token.length ≤ 436 := by
  refine ⟨length_le_of_carried, fun short => ⟨?_, ?_⟩⟩
  · intro response grown copied header added
    have same := addResponseHeader_added added
    rwa [List.take_of_length_le (by rw [length_setCookieText]; omega)] at same
  · intro message behind before after sends others
    have plain : ∀ cookie ∈ before ++ { name := adminAuthCookieName, value := token } :: after,
        cookie.Plain := by
      intro cookie member
      rcases List.mem_append.mp member with inBefore | inRest
      · exact (others cookie (List.mem_append_left _ inBefore)).1
      · rcases List.mem_cons.mp inRest with rfl | inAfter
        · exact authCookie_plain bytes
        · exact (others cookie (List.mem_append_right _ inAfter)).1
    have none : before.find? (·.name = adminAuthCookieName) = none :=
      List.find?_eq_none.mpr fun cookie member found =>
        (others cookie (List.mem_append_left _ member)).2 (of_decide_eq_true found)
    rw [getCookieValue, sends.cookies_eq (by simp) plain, List.find?_append, none, Option.none_or]
    simp

theorem tokenKept_short : TokenKept (ascii "eyJ0.eyJz_-9.c2ln") :=
  (tokenKept_iff (by decide +kernel)).mpr (by decide)

/-- Of a token of 437 bytes the header loses the end of `SameSite=Lax`. -/
theorem not_tokenKept_long : ¬TokenKept (List.replicate 437 97) := fun kept =>
  absurd (length_le_of_carried kept) (by rw [List.length_replicate]; decide)

example : getCookieValue (parseHttpRequest
    (ascii "GET / HTTP/1.1\r\nCookie: a=b; jdbx_static_auth=x.y.z; c=d\r\n\r\n") [])
      adminAuthCookieName = some (ascii "x.y.z") := by
  decide +kernel

end Jdbx
