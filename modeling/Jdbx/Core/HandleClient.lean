import Jdbx.Core.HttpRequest
import Jdbx.Library.Memory

/-!
# Reading requests from a client

The two reading loops of `handle_client`, with what lies between them.  A turn
of a loop is one step; what the socket, the clock and the allocator give it are
its inputs.  Every write into the request buffer is recorded with the size that
the buffer has at that moment.
-/

namespace Jdbx

open Library

/-- What `client_read_data` returns. -/
inductive ReadResult where
  | bytes (bytes : Bytes)
  | wouldBlock
  | endOfStream
  | error
  deriving DecidableEq, Repr

/-- What `select` returns: a positive number, zero or -1. -/
inductive SelectResult where
  | ready
  | timeout
  | error
  deriving DecidableEq, Repr

/-- The inputs of one turn of a reading loop: the time at its start and after a
`select`, and the block that an allocation returns. -/
structure Turn where
  time : Int
  read : ReadResult
  select : SelectResult
  later : Int
  block : Option Memory

def Turn.bytes (turn : Turn) : Bytes :=
  match turn.read with
  | .bytes bytes => bytes
  | .wouldBlock | .endOfStream | .error => []

/-! ## The connection -/

/-- A write of `length` bytes at `offset` into a buffer of `bufferSize` bytes. -/
structure BufferWrite where
  offset : Nat
  length : Nat
  bufferSize : Nat
  deriving DecidableEq, Repr

/-- Where `handle_client` stands. -/
inductive Phase where
  /-- The first request's loop over the head. -/
  | head
  /-- The first request's loop over the body. -/
  | body
  /-- The loop for the last bytes of a body. -/
  | recovery (recoveryAttempts recoveredBytes bytesMissing : Nat)
  /-- A request is read. -/
  | handling
  | keepAliveHead
  | keepAliveBody
  | closed
  deriving DecidableEq, Repr

/-- The local variables of `handle_client`, the requests it has dispatched as
the text it has parsed and the request it got, and the writes so far. -/
structure Connection where
  phase : Phase
  buffer : Memory
  bufferSize : Nat
  totalBytesRead : Nat
  contentLength : Nat
  bodyReceived : Nat
  requestStartTime : Int
  requestsProcessed : Nat
  dispatched : List (Bytes × HttpRequest)
  writes : List BufferWrite

def maxRequestTime : Int := 5

def maxRequestSize : Nat := 10 * 1024 * 1024

def sslMaxRead : Nat := 16384

def maxKeepAliveRequests : Nat := 10

namespace Connection

/-- Before the first byte is read. -/
def start (requestStartTime : Int) : Connection where
  phase := .head
  buffer := fun _ => 0
  bufferSize := 4096
  totalBytesRead := 0
  contentLength := 0
  bodyReceived := 0
  requestStartTime
  requestsProcessed := 0
  dispatched := []
  writes := []

variable (connection : Connection)

def close : Connection :=
  { connection with phase := .closed }

def write (offset : Nat) (bytes : Bytes) : Connection :=
  { connection with
    buffer := writeBytes connection.buffer offset bytes
    writes := connection.writes ++ [⟨offset, bytes.length, connection.bufferSize⟩] }

def moveTo (block : Memory) (size : Nat) : Connection :=
  { connection with
    buffer := writeBytes block 0 (readBytes connection.buffer 0 connection.totalBytesRead)
    bufferSize := size
    writes := connection.writes ++ [⟨0, connection.totalBytesRead, size⟩] }

def text : Bytes :=
  cString (readBytes connection.buffer 0 connection.bufferSize)

/-- The bytes that a read stored behind the others, and their `NUL`. -/
def receive (bytes : Bytes) : Connection :=
  let totalBytesRead := connection.totalBytesRead + bytes.length
  { connection.write connection.totalBytesRead bytes with totalBytesRead }.write totalBytesRead [0]

/-- The guarded `NUL` of the recovery. -/
def terminate : Connection :=
  if connection.totalBytesRead < connection.bufferSize - 1 then
    connection.write connection.totalBytesRead [0]
  else connection

end Connection

/-- `(size_t)atoi(text)`. -/
def atoiSize (text : Bytes) : Nat :=
  ((atoi text).toInt % 2 ^ 64).toNat

/-- The size of the head and the content length, searched in the text that was
read so far. -/
def findHead (text : Bytes) : Option (Nat × Nat) :=
  (findText [13, 10, 13, 10] text).map fun headerEnd =>
    let contentLengthHeader :=
      (findText (ascii "Content-Length:") text).or (findText (ascii "content-length:") text)
    (text.length - headerEnd.length + 4,
      match contentLengthHeader with
      | some header => atoiSize (header.drop 15)
      | none => 0)

namespace Connection

variable (connection : Connection)

/-- What both loops do once the head is complete: they make room for the rest
of the body. -/
def afterHead (next : Phase) (block : Option Memory) (headersSize contentLength : Nat) :
    Connection :=
  let bodyReceived := connection.totalBytesRead - headersSize
  let connection := { connection with contentLength, bodyReceived }
  if contentLength > 0 ∧ bodyReceived < contentLength then
    let requiredSize := (contentLength + headersSize + 1) % 2 ^ 64
    if requiredSize > maxRequestSize then connection.close
    else if requiredSize > connection.bufferSize then
      match block with
      | none => connection.close
      | some block => { connection.moveTo block requiredSize with phase := next }
    else { connection with phase := next }
  else { connection with phase := .handling }

def receiveHead (next : Phase) (block : Option Memory) (bytes : Bytes) : Connection :=
  let connection := connection.receive bytes
  match findHead connection.text with
  | none => connection
  | some (headersSize, contentLength) => connection.afterHead next block headersSize contentLength

def receiveBody (bytes : Bytes) : Connection :=
  let connection := connection.receive bytes
  { connection with bodyReceived := connection.bodyReceived + bytes.length }

/-! ## The turns of the loops -/

def readSize : Nat :=
  let room := connection.bufferSize - connection.totalBytesRead
  match connection.phase with
  | .head => min room sslMaxRead
  | .body => min (min room (connection.contentLength - connection.bodyReceived)) sslMaxRead
  | .recovery _ recoveredBytes bytesMissing => min (bytesMissing - recoveredBytes) 8
  | .keepAliveHead | .keepAliveBody => room
  | .handling | .closed => 0

/-- `client_read_data` returns at least one byte and no more than it is asked
for. -/
def Delivers (bytes : Bytes) : Prop :=
  bytes ≠ [] ∧ bytes.length ≤ connection.readSize

instance (bytes : Bytes) : Decidable (connection.Delivers bytes) :=
  inferInstanceAs (Decidable (_ ∧ _))

/-- A `select` that reports no data: the time limit is checked. -/
def checkTime (later : Int) : Connection :=
  if later - connection.requestStartTime > maxRequestTime then connection.close else connection

def headTurn (turn : Turn) : Option Connection :=
  if connection.totalBytesRead < connection.bufferSize then
    if turn.time - connection.requestStartTime > maxRequestTime then some connection.close
    else
      match turn.read with
      | .bytes bytes =>
          if connection.Delivers bytes then some (connection.receiveHead .body turn.block bytes)
          else none
      | .wouldBlock =>
          match turn.select with
          | .ready => some connection
          | .timeout => some (connection.checkTime turn.later)
          | .error => some connection.close
      | .endOfStream | .error => some connection.close
  else some connection.close

def missBody : Connection :=
  let bytesMissing := connection.contentLength - connection.bodyReceived
  if bytesMissing ≤ 16 then { connection with phase := .recovery 0 0 bytesMissing }
  else connection.close

def growBuffer (block : Option Memory) : Option Connection :=
  let bytesRemaining := connection.contentLength - connection.bodyReceived
  if (connection.totalBytesRead + bytesRemaining + 1) % 2 ^ 64 > connection.bufferSize then
    let newSize := min (connection.bufferSize * 2) maxRequestSize
    if newSize ≤ connection.bufferSize then none
    else block.map fun block => connection.moveTo block newSize
  else some connection

def bodyTurn (turn : Turn) : Option Connection :=
  if connection.bodyReceived < connection.contentLength then
    match connection.growBuffer turn.block with
    | none => some connection.close
    | some connection =>
        if connection.bufferSize - connection.totalBytesRead = 0 then some connection
        else
          match turn.read with
          | .bytes bytes =>
              if connection.Delivers bytes then some (connection.receiveBody bytes) else none
          | .wouldBlock =>
              match turn.select with
              | .ready => some connection
              | .timeout => some (connection.checkTime turn.later)
              | .error => some connection.missBody
          | .endOfStream | .error => some connection.missBody
  else some { connection with phase := .handling }

def countRecovered (recoveredBytes : Nat) : Connection :=
  { connection with
    totalBytesRead := connection.totalBytesRead + recoveredBytes
    bodyReceived := connection.bodyReceived + recoveredBytes }.terminate

def leaveRecovery (recoveredBytes : Nat) : Connection :=
  let connection :=
    if recoveredBytes > 0 then connection.countRecovered recoveredBytes else connection
  if connection.bodyReceived < connection.contentLength then connection.close
  else { connection with phase := .handling }

/-- A turn of the recovery loop.  Bytes that complete the body are counted here,
and once more when the loop is left. -/
def recoveryTurn (recoveryAttempts recoveredBytes bytesMissing : Nat) (turn : Turn) :
    Option Connection :=
  if recoveryAttempts < 10 ∧ recoveredBytes < bytesMissing then
    match turn.read with
    | .bytes bytes =>
        if connection.Delivers bytes then
          let connection := connection.write (connection.totalBytesRead + recoveredBytes) bytes
          let recoveredBytes := recoveredBytes + bytes.length
          if recoveredBytes ≥ bytesMissing then
            some
              { connection.countRecovered recoveredBytes with
                phase := .recovery recoveryAttempts recoveredBytes bytesMissing }
          else
            some
              { connection with
                phase := .recovery (recoveryAttempts + 1) recoveredBytes bytesMissing }
        else none
    | .endOfStream => some (connection.leaveRecovery recoveredBytes)
    | .wouldBlock | .error =>
        some
          { connection with phase := .recovery (recoveryAttempts + 2) recoveredBytes bytesMissing }
  else some (connection.leaveRecovery recoveredBytes)

def keepAliveHeadTurn (turn : Turn) : Option Connection :=
  if connection.totalBytesRead < connection.bufferSize then
    match turn.read with
    | .bytes bytes =>
        if connection.Delivers bytes then
          some (connection.receiveHead .keepAliveBody turn.block bytes)
        else none
    | .wouldBlock | .endOfStream | .error => some connection.close
  else some connection.close

def keepAliveBodyTurn (turn : Turn) : Option Connection :=
  if connection.bodyReceived < connection.contentLength ∧
      connection.totalBytesRead < connection.bufferSize then
    match turn.read with
    | .bytes bytes =>
        if connection.Delivers bytes then some (connection.receiveBody bytes) else none
    | .wouldBlock | .endOfStream | .error => some connection.close
  else some { connection with phase := .handling }

def readTurn (turn : Turn) : Option Connection :=
  match connection.phase with
  | .head => connection.headTurn turn
  | .body => connection.bodyTurn turn
  | .recovery recoveryAttempts recoveredBytes bytesMissing =>
      connection.recoveryTurn recoveryAttempts recoveredBytes bytesMissing turn
  | .keepAliveHead => connection.keepAliveHeadTurn turn
  | .keepAliveBody => connection.keepAliveBodyTurn turn
  | .handling | .closed => none

end Connection

def isAdminRoute (path : Bytes) : Bool :=
  if (ascii "/api/").isPrefixOf path then false
  else if path = ascii "/" then true
  else if path = ascii "/login" ∨ path = ascii "/login.html" then true
  else if (ascii "/admin").isPrefixOf path ∨ (ascii "/css/").isPrefixOf path ∨
      (ascii "/js/").isPrefixOf path then true
  else (path.drop 1).contains 46

/-- The first request is answered before the keep-alive loop: a preflight
request, or one for a file of the admin interface. -/
def answeredFirst (text : Bytes) (request : HttpRequest) : Bool :=
  (request.method = .unknown && startsWithIgnoringCase (ascii "OPTIONS") text) ||
    ((request.method = .get || request.method = .head) &&
      match request.path with
      | some path => isAdminRoute path
      | none => false)

namespace Connection

variable (connection : Connection)

/-- A turn of the keep-alive loop up to the next read.  `goOn` tells whether the
response was sent and the time-out set. -/
def dispatch (request : HttpRequest) (goOn : Bool) : Connection :=
  let keepAliveEnabled :=
    request.keepAlive && connection.requestsProcessed < maxKeepAliveRequests && goOn
  let connection :=
    { connection with
      requestsProcessed := connection.requestsProcessed + 1
      dispatched := connection.dispatched ++ [(connection.text, request)] }
  if keepAliveEnabled then
    { connection with
      phase := .keepAliveHead
      buffer := writeBytes connection.buffer 0 (List.replicate connection.bufferSize 0)
      totalBytesRead := 0
      contentLength := 0 }
  else connection.close

def handle (behind : Bytes) (goOn : Bool) : Connection :=
  let request := parseHttpRequest connection.text behind
  if connection.requestsProcessed = 0 then
    if answeredFirst connection.text request then
      { connection with
        dispatched := connection.dispatched ++ [(connection.text, request)] }.close
    else connection.dispatch request goOn
  else if request.path = none then connection.close
  else if connection.requestsProcessed < maxKeepAliveRequests then
    connection.dispatch request goOn
  else connection.close

end Connection

/-- A step of `handle_client`. -/
inductive ClientEvent where
  | read (turn : Turn)
  | handle (behind : Bytes) (goOn : Bool)

def clientStep (connection : Connection) : ClientEvent → Option Connection
  | .read turn => connection.readTurn turn
  | .handle behind goOn =>
      if connection.phase = .handling then some (connection.handle behind goOn) else none

end Jdbx
