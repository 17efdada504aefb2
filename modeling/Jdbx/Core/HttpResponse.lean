import Jdbx.Library.BlockWrites
import Jdbx.Library.CString
import Jdbx.Library.IntRange

/-!
# Writing a response

The size of the block is estimated from the body and the number of header lines, and every part
of the head is printed into what is left of it.  The function that returns a string needs one
byte more behind the body than the ones that return a length.
-/

namespace Jdbx

open Library Writer

/-- `http_response_t`.  Without a body its length is 0, and a header line is `NULL` where its copy
failed. -/
structure HttpResponse where
  status : Nat
  body : Option Bytes
  contentType : Bytes
  headers : List (Option Bytes)
  keepAlive : Bool

def httpStatusString (status : Nat) : Bytes :=
  if status = 200 then ascii "200 OK"
  else if status = 201 then ascii "201 Created"
  else if status = 204 then ascii "204 No Content"
  else if status = 302 then ascii "302 Found"
  else if status = 400 then ascii "400 Bad Request"
  else if status = 401 then ascii "401 Unauthorized"
  else if status = 403 then ascii "403 Forbidden"
  else if status = 404 then ascii "404 Not Found"
  else if status = 405 then ascii "405 Method Not Allowed"
  else if status = 409 then ascii "409 Conflict"
  else if status = 429 then ascii "429 Too Many Requests"
  else if status = 500 then ascii "500 Internal Server Error"
  else if status = 503 then ascii "503 Service Unavailable"
  else ascii "500 Internal Server Error"

namespace HttpResponse

/-- The bytes of the body, `content_length` of them. -/
def content (response : HttpResponse) : Bytes :=
  response.body.getD []

/-- `response_size`, an `int`. -/
def size (response : HttpResponse) : Option Int :=
  (asInt (1024 + response.content.length)).bind fun size =>
    (asInt (size + response.headers.length * 256)).bind fun size => asInt (size + 1024)

/-- The line that respects the `keep_alive` of the response. -/
def connectionLine (response : HttpResponse) : List Bytes :=
  [if response.keepAlive then ascii "Connection: keep-alive\r\n" else ascii "Connection: close\r\n"]

def headParts (response : HttpResponse) (connection : List Bytes) : List Bytes :=
  [ascii "HTTP/1.1 " ++ httpStatusString response.status ++ [13, 10],
    ascii "Content-Type: " ++ response.contentType ++ [13, 10],
    ascii "Content-Length: " ++ decimal response.content.length ++ [13, 10]] ++
  connection ++ response.headers.filterMap (Option.map (· ++ [13, 10])) ++ [[13, 10]]

def text (response : HttpResponse) (connection : List Bytes) : Bytes :=
  (response.headParts connection).flatten ++ response.content

end HttpResponse

/-- The lines of `serialize_http_response_keep_alive_with_length`. -/
def keepAliveLines (keepAlive : Bool) : List Bytes :=
  if keepAlive then
    [ascii "Connection: keep-alive\r\n", ascii "Keep-Alive: timeout=15, max=100\r\n"]
  else [ascii "Connection: close\r\n"]

/-- `snprintf(response_str + written, remaining, ...)` and the check behind it, where the block of
`size` bytes holds `written` bytes. -/
def printPart (size : Nat) (written part : Bytes) : Writer Bytes := do
  let remaining := size - written.length
  put size (written.length + min (part.length + 1) remaining)
  if part.length ≥ remaining then fail else pure (written ++ part)

/-- What all three functions do in front of the body: the size of the block, and its text. -/
def serializeHead (response : HttpResponse) (connection : List Bytes) : Writer (Nat × Bytes) :=
  match response.size with
  | none => fail
  | some size => do
      allocate
      let written ← (response.headParts connection).foldlM (printPart size.toNat) []
      pure (size.toNat, written)

/-- The body and the `NUL` behind it. -/
def putBodyString (content : Bytes) (head : Nat × Bytes) : Writer Bytes := do
  let (size, written) := head
  let remaining := size - written.length
  if content.length > 0 then
    if content.length + 1 > remaining then fail
    else do
      put size (written.length + content.length)
      put size (written.length + content.length + 1)
      pure (written ++ content)
  else if remaining > 0 then do
    put size (written.length + 1)
    pure written
  else fail

/-- The body without a `NUL`. -/
def putBody (content : Bytes) (head : Nat × Bytes) : Writer Bytes := do
  let (size, written) := head
  let remaining := size - written.length
  if content.length > 0 then
    if content.length > remaining then fail
    else do
      put size (written.length + content.length)
      pure (written ++ content)
  else pure written

def serializeHttpResponse (response : HttpResponse) : Writer Bytes :=
  serializeHead response response.connectionLine >>= putBodyString response.content

def serializeHttpResponseWithLength (response : HttpResponse) : Writer Bytes :=
  serializeHead response response.connectionLine >>= putBody response.content

def serializeHttpResponseKeepAliveWithLength (response : HttpResponse) (keepAlive : Bool) :
    Writer Bytes :=
  serializeHead response (keepAliveLines keepAlive) >>= putBody response.content

variable {response : HttpResponse} {connection : List Bytes} {size : Nat} {written content : Bytes}

theorem ensures_printPart {part : Bytes} (room : written.length ≤ size) :
    Ensures (printPart size written part) fun printed =>
      printed = written ++ part ∧ printed.length < size := by
  refine (ensures_put (by omega)).bind fun _ _ => ?_
  by_cases full : part.length ≥ size - written.length
  · rw [if_pos full]
    exact ensures_fail
  · rw [if_neg full]
    exact ensures_pure ⟨rfl, by rw [List.length_append]; omega⟩

theorem size_eq {size : Int} (sized : response.size = some size) :
    size.toNat = 2048 + response.content.length + response.headers.length * 256 := by
  obtain ⟨first, base, sized⟩ := Option.bind_eq_some_iff.mp sized
  obtain ⟨second, headers, margin⟩ := Option.bind_eq_some_iff.mp sized
  have base := (asInt_eq_some base).1
  have headers := (asInt_eq_some headers).1
  have margin := (asInt_eq_some margin).1
  omega

/-- The head was printed into a block with the estimated size, and has left room. -/
structure HeadPrinted (response : HttpResponse) (connection : List Bytes) (head : Nat × Bytes) :
    Prop where
  size : head.1 = 2048 + response.content.length + response.headers.length * 256
  text : head.2 = (response.headParts connection).flatten
  room : head.2.length < head.1

theorem ensures_serializeHead :
    Ensures (serializeHead response connection) (HeadPrinted response connection) := by
  rw [serializeHead]
  cases sized : response.size with
  | none => exact ensures_fail
  | some size =>
      refine ensures_allocate.bind fun _ _ => ?_
      -- What is printed and what is left are the head, and a part that was printed has left room.
      have printed : Ensures ((response.headParts connection).foldlM (printPart size.toNat) []) _ :=
        ensures_foldlM
          (fun written parts => written ++ parts.flatten = (response.headParts connection).flatten ∧
            written.length ≤ size.toNat ∧ (parts = [] → written.length < size.toNat))
          (fun written part parts kept => (ensures_printPart kept.2.1).mono fun printed same =>
            ⟨by rw [same.1, List.append_assoc, ← List.flatten_cons, kept.1], same.2.le,
              fun _ => same.2⟩)
          ⟨List.nil_append _, Nat.zero_le _, fun none => by simp [HttpResponse.headParts] at none⟩
      refine printed.bind fun written kept => ensures_pure ⟨size_eq sized, ?_, kept.2.2 rfl⟩
      rw [← kept.1, List.flatten_nil, List.append_nil]

theorem ensures_putBodyString (room : written.length < size) :
    Ensures (putBodyString content (size, written)) (· = written ++ content) := by
  rw [putBodyString]
  split_ifs with some full free
  · exact ensures_fail
  · exact (ensures_put (by omega)).bind fun _ _ => (ensures_put (by omega)).bind fun _ _ =>
      ensures_pure rfl
  · have empty : content = [] := List.length_eq_zero_iff.mp (by omega)
    exact (ensures_put room).bind fun _ _ => ensures_pure (by rw [empty, List.append_nil])
  · exact ensures_fail

theorem ensures_putBody (room : written.length < size) :
    Ensures (putBody content (size, written)) (· = written ++ content) := by
  rw [putBody]
  split_ifs with some full
  · exact ensures_fail
  · exact (ensures_put (by omega)).bind fun _ _ => ensures_pure rfl
  · have empty : content = [] := List.length_eq_zero_iff.mp (by omega)
    exact ensures_pure (by rw [empty, List.append_nil])

def HttpResponse.JustFills (response : HttpResponse) : Prop :=
  response.content ≠ [] ∧
    (response.headParts response.connectionLine).flatten.length =
      2048 + response.headers.length * 256

instance (response : HttpResponse) : Decidable response.JustFills :=
  inferInstanceAs (Decidable (_ ∧ _))

theorem ensures_text {ending : Nat × Bytes → Writer Bytes}
    (ends : ∀ {size written}, written.length < size →
      Ensures (ending (size, written)) (· = written ++ response.content)) :
    Ensures (serializeHead response connection >>= ending) (· = response.text connection) := by
  refine ensures_serializeHead.bind fun head printed => ?_
  rw [HttpResponse.text, ← printed.text]
  exact ends printed.room

/-- A head of 2048 bytes: one byte of a body is refused as a string and returned with a length. -/
def fullResponse : HttpResponse where
  status := 200
  body := some [65]
  contentType := List.replicate 1975 97
  headers := []
  keepAlive := false

end Jdbx
