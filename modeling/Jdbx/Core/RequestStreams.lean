import Jdbx.Core.ClientStream

/-!
# Dispatching a stream of requests

Along steady steps the connection follows the stream: the buffer holds what is
read of one request, and every request is dispatched as it was sent.  Two ways
of cutting one stream into pieces then lead to the same requests.
-/

namespace Jdbx

open Library

namespace Connection

variable {connection next : Connection}

/-- The buffer holds these bytes, and they are all that is counted. -/
structure Holding (connection : Connection) (read : Bytes) : Prop where
  counted : connection.totalBytesRead = read.length
  contents : readBytes connection.buffer 0 read.length = read

/-- Behind a `NUL`, the rest of the buffer is not part of its text. -/
theorem text_eq {read : Bytes} (contents : readBytes connection.buffer 0 read.length = read)
    (inside : read.length < connection.bufferSize) (nul : connection.buffer read.length = 0)
    (nulFree : NulFree read) : connection.text = read := by
  obtain ⟨behind, size⟩ := Nat.exists_eq_add_of_lt inside
  have layout : readBytes connection.buffer 0 connection.bufferSize =
      read ++ 0 :: readBytes connection.buffer (read.length + 1) behind := by
    rw [show connection.bufferSize = read.length + (behind + 1) by omega, readBytes_add,
      readBytes_succ, Nat.zero_add, nul, contents]
  rw [text, layout]
  exact cString_append_nul nulFree _

theorem receive_holding {read bytes : Bytes} (holding : connection.Holding read)
    (room : connection.totalBytesRead + bytes.length < connection.bufferSize)
    (nulFree : NulFree (read ++ bytes)) :
    (connection.receive bytes).Holding (read ++ bytes) ∧
      (connection.receive bytes).text = read ++ bytes := by
  have counted := holding.counted
  have total : connection.totalBytesRead + bytes.length = (read ++ bytes).length := by
    rw [List.length_append, counted]
  have contents :
      readBytes (connection.receive bytes).buffer 0 (read ++ bytes).length = read ++ bytes := by
    have front : readBytes (connection.receive bytes).buffer 0 read.length = read := by
      rw [← holding.contents]
      simp only [receive, write, length_readBytes]
      rw [readBytes_writeBytes_of_disjoint (Or.inl (by omega)),
        readBytes_writeBytes_of_disjoint (Or.inl (by omega))]
    have back : readBytes (connection.receive bytes).buffer read.length bytes.length = bytes := by
      simp only [receive, write]
      rw [readBytes_writeBytes_of_disjoint (Or.inl (by omega)), counted,
        readBytes_writeBytes_self]
    rw [List.length_append, readBytes_add, Nat.zero_add, front, back]
  have nul : (connection.receive bytes).buffer (read ++ bytes).length = 0 := by
    have stored :
        writeBytes (writeBytes connection.buffer connection.totalBytesRead bytes)
            (connection.totalBytesRead + bytes.length) [0]
              (connection.totalBytesRead + bytes.length + 0) = [(0 : UInt8)][0] :=
      writeBytes_of_inside (by simp)
    rw [← total]
    exact stored
  exact ⟨⟨total, contents⟩, text_eq contents (by rw [← total]; exact room) nul nulFree⟩

theorem moveTo_holding {read : Bytes} (holding : connection.Holding read) (block : Memory)
    (size : Nat) : (connection.moveTo block size).Holding read := by
  refine ⟨holding.counted, ?_⟩
  have copied := readBytes_writeBytes_self block 0
    (readBytes connection.buffer 0 connection.totalBytesRead)
  rw [length_readBytes, holding.counted, holding.contents] at copied
  simpa only [moveTo, holding.counted, holding.contents] using copied

end Connection

/-! ## Following the stream -/

section Following

variable {requests handled rest : List ClientRequest} {read : Bytes}

def PartOfHead (rest : List ClientRequest) (read : Bytes) : Prop :=
  match rest with
  | [] => read = []
  | request :: _ => read <+: request.head ∧ read.length < request.head.length

/-- Behind the head, the buffer has room for the rest of the body, which is
counted. -/
structure InBody (connection : Connection) (request : ClientRequest) (read received : Bytes) :
    Prop where
  read_eq : read = request.head ++ received
  isPart : received <+: request.body
  holding : connection.Holding read
  contentLength : connection.contentLength = request.body.length
  bodyReceived : connection.bodyReceived = received.length
  room : request.text.length < connection.bufferSize
  complete : received = request.body → connection.text = request.text

/-- What is read of the stream, phase by phase. -/
def PhaseFollows (connection : Connection) (handled rest : List ClientRequest) (read : Bytes) :
    Prop :=
  match connection.phase with
  | .head =>
      handled = [] ∧ PartOfHead rest read ∧ connection.Holding read ∧
        read.length < connection.bufferSize
  | .keepAliveHead =>
      handled.length ≤ maxKeepAliveRequests ∧ PartOfHead rest read ∧ connection.Holding read ∧
        read.length < connection.bufferSize
  | .body | .keepAliveBody =>
      handled.length < maxKeepAliveRequests ∧
        ∃ request later received, rest = request :: later ∧
          InBody connection request read received
  | .handling =>
      handled.length < maxKeepAliveRequests ∧
        ∃ request later, rest = request :: later ∧ read = request.text ∧
          connection.text = request.text
  | .recovery _ _ _ => False
  | .closed => read = []

/-- The connection has dispatched the first requests and read a part of the
next one. -/
structure Follows (requests handled rest : List ClientRequest) (read : Bytes) (run : ClientRun) :
    Prop where
  split : requests = handled ++ rest
  dispatched : run.connection.dispatched = handled.map ClientRequest.sent
  consumed : run.consumed = (streamText handled).length + read.length
  phase : PhaseFollows run.connection handled rest read
  processed : run.connection.phase ≠ .closed →
    run.connection.requestsProcessed = handled.length ∧
      answered 0 requests = handled ++ answered handled.length rest
  closed : run.connection.phase = .closed → handled = answered 0 requests

theorem start_follows (requests : List ClientRequest) (requestStartTime : Int) :
    Follows requests [] requests [] (ClientRun.start requestStartTime) := by
  have nonempty : ∀ request : ClientRequest, 0 < request.head.length := by
    intro request
    simp [ClientRequest.head, headText]
  refine ⟨rfl, rfl, rfl, ⟨rfl, ?_, ⟨rfl, rfl⟩, ?_⟩, fun _ => ⟨rfl, rfl⟩, ?_⟩
  · cases requests with
    | nil => rfl
    | cons request later => exact ⟨List.nil_prefix, nonempty request⟩
  · simp [ClientRun.start, Connection.start]
  · simp [ClientRun.start, Connection.start]

theorem streamText_append (requests others : List ClientRequest) :
    streamText (requests ++ others) = streamText requests ++ streamText others :=
  List.flatMap_append

theorem Follows.piece {run : ClientRun} {bytes : Bytes} (follows : Follows requests handled rest read run)
    (isPart : read <+: streamText (rest.take 1))
    (fromStream : bytes <+: (streamText requests).drop run.consumed)
    (within : run.consumed + bytes.length ≤
      (streamText (requests.take (run.connection.dispatched.length + 1))).length) :
    read ++ bytes <+: streamText (rest.take 1) := by
  have current : requests.take (run.connection.dispatched.length + 1) =
      handled ++ rest.take 1 := by
    rw [follows.dispatched, List.length_map, follows.split, List.take_length_add_append]
  rw [current, streamText_append, List.length_append, follows.consumed] at within
  obtain ⟨more, whole⟩ := isPart
  have ahead : (streamText requests).drop run.consumed = more ++ streamText (rest.drop 1) := by
    rw [follows.split, streamText_append, follows.consumed, List.drop_length_add_append,
      ← List.take_append_drop 1 rest, streamText_append, List.take_append_drop, ← whole,
      List.append_assoc, List.drop_left]
  rw [ahead] at fromStream
  rw [← whole, List.length_append] at within
  have piece : bytes <+: more :=
    List.prefix_of_prefix_length_le fromStream (List.prefix_append _ _) (by omega)
  rw [← whole]
  exact (List.prefix_append_right_inj read).mpr piece

theorem head_text (request : ClientRequest) (later : List ClientRequest) :
    streamText ((request :: later).take 1) = request.text := by
  simp [streamText]

theorem ClientRequest.text_nulFree {request : ClientRequest} (readable : request.Readable) :
    NulFree request.text := by
  have line : ∀ line ∈ request.requestLine :: request.headerLines, (0 : UInt8) ∉ line :=
    fun line member => (request.plain line member).2 0 (by decide)
  intro nul
  rcases List.mem_append.mp nul with inHead | inBody
  · rcases List.mem_append.mp inHead with inLines | inBlank
    · obtain ⟨text, textMember, inText⟩ := List.mem_flatMap.mp inLines
      rcases List.mem_append.mp inText with inLine | inEnd
      · exact line text textMember inLine
      · exact absurd inEnd (by decide)
    · exact absurd inBlank (by decide)
  · exact readable.bodyText inBody

theorem nulFree_of_prefix {part text : Bytes} (isPart : part <+: text) (nulFree : NulFree text) :
    NulFree part :=
  fun nul => nulFree (isPart.subset nul)

section Receiving

variable {connection : Connection} {request : ClientRequest} {later : List ClientRequest}
  {bytes : Bytes}

theorem afterHead_follows {received : Bytes} {next : Phase} {block : Option Memory}
    (hasBlock : block.isSome) (nextPhase : next = .body ∨ next = .keepAliveBody)
    (count : handled.length < maxKeepAliveRequests)
    (isPart : received <+: request.body)
    (holding : connection.Holding (request.head ++ received))
    (text : connection.text = request.head ++ received) :
    PhaseFollows
      (connection.afterHead next block request.head.length request.body.length) handled
      (request :: later) (request.head ++ received) := by
  have small : request.head.length + request.body.length < maxRequestSize := request.small
  have partLength := isPart.length_le
  have counted := holding.counted
  have textLength : request.text.length = request.head.length + request.body.length := by
    rw [ClientRequest.text, List.length_append]
  rw [List.length_append] at counted
  rw [Connection.afterHead]
  dsimp only
  rw [show connection.totalBytesRead - request.head.length = received.length by omega]
  have required : (request.body.length + request.head.length + 1) % 2 ^ 64 =
      request.text.length + 1 := by
    rw [maxRequestSize] at small
    omega
  rw [required]
  split_ifs with wanted large grows
  · omega
  · obtain ⟨memory, rfl⟩ := Option.isSome_iff_exists.mp hasBlock
    have body : InBody
        { { connection with
              contentLength := request.body.length, bodyReceived := received.length }.moveTo memory
              (request.text.length + 1) with phase := next }
        request (request.head ++ received) received := by
      have moved := Connection.moveTo_holding holding memory (request.text.length + 1)
      refine ⟨rfl, isPart, ⟨moved.counted, moved.contents⟩, rfl, rfl, Nat.lt_succ_self _, ?_⟩
      rintro rfl
      exact absurd wanted.2 (Nat.lt_irrefl _)
    rcases nextPhase with rfl | rfl <;> exact ⟨count, request, later, received, rfl, body⟩
  · have body : InBody
        { connection with
          contentLength := request.body.length, bodyReceived := received.length, phase := next }
        request (request.head ++ received) received := by
      refine ⟨rfl, isPart, ⟨holding.counted, holding.contents⟩, rfl, rfl, by dsimp only; omega, ?_⟩
      rintro rfl
      exact absurd wanted.2 (Nat.lt_irrefl _)
    rcases nextPhase with rfl | rfl <;> exact ⟨count, request, later, received, rfl, body⟩
  · have whole : received = request.body := isPart.eq_of_length (by omega)
    subst whole
    exact ⟨count, request, later, rfl, rfl, text⟩

theorem receiveHead_follows {next : Phase} {block : Option Memory} (later : List ClientRequest)
    (readable : request.Readable) (hasBlock : block.isSome)
    (phase : connection.phase = .head ∧ handled = [] ∧ next = .body ∨
      connection.phase = .keepAliveHead ∧ next = .keepAliveBody)
    (count : handled.length < maxKeepAliveRequests)
    (holding : connection.Holding read) (isPart : read ++ bytes <+: request.text)
    (room : connection.totalBytesRead + bytes.length < connection.bufferSize) :
    PhaseFollows (connection.receiveHead next block bytes) handled (request :: later)
      (read ++ bytes) := by
  have nulFree := nulFree_of_prefix isPart (ClientRequest.text_nulFree readable)
  obtain ⟨received, text⟩ := Connection.receive_holding holding room nulFree
  have counted := holding.counted
  rw [Connection.receiveHead, text]
  by_cases proper : (read ++ bytes).length < request.head.length
  · have inHead : read ++ bytes <+: request.head :=
      List.prefix_of_prefix_length_le isPart (List.prefix_append _ _) (Nat.le_of_lt proper)
    rw [request.findHead_part inHead proper]
    have roomLeft : (read ++ bytes).length < (connection.receive bytes).bufferSize := by
      rw [List.length_append, ← counted]
      exact room
    have samePhase : (connection.receive bytes).phase = connection.phase := rfl
    rcases phase with ⟨phase, none, -⟩ | ⟨phase, -⟩
    · simp only [PhaseFollows, samePhase, phase]
      exact ⟨none, ⟨inHead, proper⟩, received, roomLeft⟩
    · simp only [PhaseFollows, samePhase, phase]
      exact ⟨Nat.le_of_lt count, ⟨inHead, proper⟩, received, roomLeft⟩
  · obtain ⟨partialBody, split⟩ : ∃ partialBody, read ++ bytes = request.head ++ partialBody := by
      have headFirst : request.head <+: read ++ bytes :=
        List.prefix_of_prefix_length_le (List.prefix_append _ _) isPart (Nat.le_of_not_lt proper)
      obtain ⟨partialBody, split⟩ := headFirst
      exact ⟨partialBody, split.symm⟩
    rw [split] at isPart received text ⊢
    have partOfBody : partialBody <+: request.body :=
      (List.prefix_append_right_inj request.head).mp isPart
    rw [readable.search partialBody partOfBody]
    apply afterHead_follows hasBlock _ count partOfBody received text
    rcases phase with ⟨-, -, isBody⟩ | ⟨-, isBody⟩
    · exact Or.inl isBody
    · exact Or.inr isBody

theorem receiveBody_follows {received : Bytes} (readable : request.Readable)
    (body : InBody connection request read received) (isPart : read ++ bytes <+: request.text)
    (room : connection.totalBytesRead + bytes.length < connection.bufferSize) :
    InBody (connection.receiveBody bytes) request (read ++ bytes) (received ++ bytes) := by
  have nulFree := nulFree_of_prefix isPart (ClientRequest.text_nulFree readable)
  obtain ⟨holding, text⟩ := Connection.receive_holding body.holding room nulFree
  have split : read ++ bytes = request.head ++ (received ++ bytes) := by
    rw [body.read_eq, List.append_assoc]
  refine ⟨split, ?_, ⟨holding.counted, holding.contents⟩, body.contentLength, ?_, body.room, ?_⟩
  · rw [split] at isPart
    exact (List.prefix_append_right_inj request.head).mp isPart
  · rw [List.length_append, ← body.bodyReceived]
    rfl
  · intro whole
    rw [ClientRequest.text, ← whole, ← split]
    exact text

end Receiving

/-! ## One step -/

section Steps

variable {run next : ClientRun} {request : ClientRequest} {received : Bytes}
  {later : List ClientRequest} {connection : Connection}

theorem InBody.complete_of_not_lt (body : InBody connection request read received)
    (atEnd : ¬ connection.bodyReceived < connection.contentLength) :
    read = request.text ∧ connection.text = request.text := by
  have whole : received = request.body := by
    apply body.isPart.eq_of_length
    have atMost := body.isPart.length_le
    rw [body.bodyReceived, body.contentLength] at atEnd
    omega
  exact ⟨by rw [body.read_eq, whole]; rfl, body.complete whole⟩

/-- In the loop over the first body there is room for what is missing. -/
theorem InBody.growBuffer_eq (body : InBody connection request read received)
    (block : Option Memory) : connection.growBuffer block = some connection ∧
      connection.totalBytesRead < connection.bufferSize := by
  have small : request.head.length + request.body.length < maxRequestSize := request.small
  have room := body.room
  have counted := body.holding.counted
  have partLength := body.isPart.length_le
  rw [maxRequestSize] at small
  rw [body.read_eq, List.length_append] at counted
  rw [ClientRequest.text, List.length_append] at room
  rw [Connection.growBuffer]
  dsimp only
  rw [body.bodyReceived, body.contentLength, if_neg (by omega)]
  exact ⟨rfl, by omega⟩

theorem PartOfHead.isPart (part : PartOfHead rest read) : read <+: streamText (rest.take 1) := by
  cases rest with
  | nil =>
      rw [show read = [] from part]
      exact List.nil_prefix
  | cons request later =>
      rw [head_text]
      exact part.1.trans (List.prefix_append _ _)

theorem PartOfHead.exhausted (follows : Follows requests handled rest read run)
    (part : PartOfHead rest read) (allRead : run.consumed = (streamText requests).length) :
    rest = [] ∧ read = [] := by
  cases rest with
  | nil => exact ⟨rfl, part⟩
  | cons request later =>
      rw [follows.consumed, follows.split, streamText_append, List.length_append] at allRead
      have longer : request.head.length ≤ (streamText (request :: later)).length := by
        simp only [streamText, List.flatMap_cons, ClientRequest.text, List.length_append]
        omega
      have proper := part.2
      omega

theorem Follows.closed_of_exhausted (follows : Follows requests handled rest read run)
    (isOpen : run.connection.phase ≠ .closed) (none : rest = []) :
    handled = answered 0 requests := by
  have all := (follows.processed isOpen).2
  rw [none, answered, List.append_nil] at all
  exact all.symm

theorem headBytes_follows {bytes : Bytes} {nextPhase : Phase} {block : Option Memory}
    (readable : ∀ request ∈ requests, request.Readable)
    (follows : Follows requests handled rest read run)
    (phase : run.connection.phase = .head ∧ handled = [] ∧ nextPhase = .body ∨
      run.connection.phase = .keepAliveHead ∧ nextPhase = .keepAliveBody)
    (count : rest ≠ [] → handled.length < maxKeepAliveRequests)
    (hasBlock : block.isSome) (holding : run.connection.Holding read) (nonempty : bytes ≠ [])
    (whole : read ++ bytes <+: streamText (rest.take 1))
    (room : run.connection.totalBytesRead + bytes.length < run.connection.bufferSize) :
    PhaseFollows (run.connection.receiveHead nextPhase block bytes) handled rest (read ++ bytes) ∧
      ((run.connection.receiveHead nextPhase block bytes).phase = .closed →
        handled = answered 0 requests) := by
  cases rest with
  | nil =>
      have nothing : read ++ bytes = [] := List.prefix_nil.mp whole
      exact absurd (List.append_eq_nil_iff.mp nothing).2 nonempty
  | cons request later =>
      rw [head_text] at whole
      have member : request ∈ requests := by simp [follows.split]
      have law := receiveHead_follows later (readable request member) hasBlock phase
        (count (List.cons_ne_nil _ _)) holding whole room
      refine ⟨law, fun closed => ?_⟩
      simp only [PhaseFollows, closed] at law
      exact absurd (List.append_eq_nil_iff.mp law).2 nonempty

theorem InBody.isPart_text (body : InBody connection request read received) :
    read <+: request.text := by
  rw [body.read_eq]
  exact (List.prefix_append_right_inj request.head).mpr body.isPart

theorem InBody.not_allRead (follows : Follows requests handled rest read run)
    (isNext : rest = request :: later) (body : InBody run.connection request read received)
    (missing : run.connection.bodyReceived < run.connection.contentLength) :
    run.consumed ≠ (streamText requests).length := by
  intro allRead
  rw [follows.consumed, follows.split, streamText_append, List.length_append, isNext] at allRead
  have longer : request.text.length ≤ (streamText (request :: later)).length := by
    simp only [streamText, List.flatMap_cons, List.length_append]
    omega
  rw [body.bodyReceived, body.contentLength] at missing
  rw [body.read_eq, List.length_append] at allRead
  rw [ClientRequest.text, List.length_append] at longer
  omega

theorem bodyBytes_follows {bytes received : Bytes}
    (readable : ∀ request ∈ requests, request.Readable)
    (follows : Follows requests handled rest read run) (isNext : rest = request :: later)
    (body : InBody run.connection request read received)
    (piece : bytes <+: (streamText requests).drop run.consumed)
    (within : run.consumed + bytes.length ≤
      (streamText (requests.take (run.connection.dispatched.length + 1))).length) :
    InBody (run.connection.receiveBody bytes) request (read ++ bytes) (received ++ bytes) := by
  have isPart : read <+: streamText (rest.take 1) := by
    rw [isNext, head_text]
    exact body.isPart_text
  have whole := follows.piece isPart piece within
  rw [isNext, head_text] at whole
  have short := whole.length_le
  have bufferRoom := body.room
  rw [List.length_append, ← body.holding.counted] at short
  exact receiveBody_follows (readable request (by simp [follows.split, isNext])) body whole
    (by omega)

theorem bodyEnd_follows (count : handled.length < maxKeepAliveRequests)
    (isNext : rest = request :: later) (body : InBody run.connection request read received)
    (atEnd : ¬ run.connection.bodyReceived < run.connection.contentLength) :
    PhaseFollows { run.connection with phase := .handling } handled rest (read ++ []) := by
  obtain ⟨whole, text⟩ := body.complete_of_not_lt atEnd
  rw [List.append_nil]
  exact ⟨count, request, later, isNext, whole, text⟩

section Turns

variable {connection : Connection} {turn : Turn}
  (readable : ∀ request ∈ requests, request.Readable)
  (follows : Follows requests handled rest read run)
  (steady : Steady requests run (.read turn))
  (piece : run.connection.taken turn <+: (streamText requests).drop run.consumed)
  (noError : turn.read ≠ .error)
  (atEnd : turn.read = .endOfStream → run.consumed = (streamText requests).length)

include readable follows steady piece noError atEnd

theorem headTurn_follows (phase : run.connection.phase = .head)
    (taken : run.connection.headTurn turn = some connection) :
    PhaseFollows connection handled rest (read ++ run.connection.taken turn) ∧
      (connection.phase = .closed → handled = answered 0 requests) := by
  obtain ⟨within, roomy, hasBlock, inTime, -⟩ := steady
  obtain ⟨selectFine, early, laterEarly⟩ := inTime (Or.inl phase)
  have law := follows.phase
  simp only [PhaseFollows, phase] at law
  obtain ⟨none, part, holding, below⟩ := law
  have counted := holding.counted
  have notLate : ¬ turn.time - run.connection.requestStartTime > maxRequestTime := by omega
  have inRoom : run.connection.totalBytesRead < run.connection.bufferSize := by omega
  have reads : run.connection.reads turn = true := by
    simp only [Connection.reads, phase, Bool.and_eq_true, decide_eq_true_eq, Bool.not_eq_true',
      decide_eq_false_iff_not]
    exact ⟨inRoom, notLate⟩
  have takenBytes : run.connection.taken turn = turn.bytes := if_pos reads
  have stays : ∀ same : Connection, same = run.connection →
      PhaseFollows same handled rest (read ++ []) ∧
        (same.phase = .closed → handled = answered 0 requests) := by
    rintro same rfl
    simp only [PhaseFollows, phase, List.append_nil, reduceCtorEq, false_implies, and_true]
    exact ⟨none, part, holding, below⟩
  rw [Connection.headTurn, if_pos inRoom, if_neg notLate] at taken
  rw [takenBytes] at piece within ⊢
  cases turnRead : turn.read with
  | bytes bytes =>
      simp only [Turn.bytes, turnRead] at taken piece within ⊢
      split_ifs at taken with delivers
      cases taken
      refine headBytes_follows readable follows (Or.inl ⟨phase, none, rfl⟩) ?_ hasBlock holding
        delivers.1 (follows.piece part.isPart piece within) ?_
      · exact fun _ => by rw [none]; decide
      · apply Connection.room_of_leavesRoom roomy _ turnRead delivers.1
        simp [Connection.readsAllRoom, phase, inRoom, notLate]
  | wouldBlock =>
      simp only [Turn.bytes, turnRead] at taken ⊢
      apply stays
      cases select : turn.select with
      | ready =>
          simp only [select] at taken
          exact (Option.some.inj taken).symm
      | timeout =>
          simp only [select, Connection.checkTime] at taken
          rw [if_neg (by omega)] at taken
          exact (Option.some.inj taken).symm
      | error => exact absurd select selectFine
  | endOfStream =>
      simp only [Turn.bytes, turnRead] at taken ⊢
      cases taken
      obtain ⟨noRest, noRead⟩ := part.exhausted follows (atEnd turnRead)
      rw [noRead]
      exact ⟨rfl, fun _ => follows.closed_of_exhausted (by rw [phase]; decide) noRest⟩
  | error => exact absurd turnRead noError

theorem bodyTurn_follows (phase : run.connection.phase = .body)
    (taken : run.connection.bodyTurn turn = some connection) :
    PhaseFollows connection handled rest (read ++ run.connection.taken turn) ∧
      connection.phase ≠ .closed := by
  obtain ⟨within, -, -, inTime, -⟩ := steady
  obtain ⟨selectFine, -, laterEarly⟩ := inTime (Or.inr phase)
  have law := follows.phase
  simp only [PhaseFollows, phase] at law
  obtain ⟨count, request, later, received, isNext, body⟩ := law
  obtain ⟨grown, inRoom⟩ := body.growBuffer_eq turn.block
  have hasRoom : ¬ run.connection.bufferSize - run.connection.totalBytesRead = 0 := by omega
  rw [Connection.bodyTurn] at taken
  by_cases missing : run.connection.bodyReceived < run.connection.contentLength
  · have reads : run.connection.reads turn = true := by
      simp [Connection.reads, phase, missing, grown, hasRoom]
    have takenBytes : run.connection.taken turn = turn.bytes := if_pos reads
    have stays : ∀ same : Connection, same = run.connection →
        PhaseFollows same handled rest (read ++ []) ∧ same.phase ≠ .closed := by
      rintro same rfl
      simp only [PhaseFollows, phase, List.append_nil, ne_eq, reduceCtorEq, not_false_eq_true,
        and_true]
      exact ⟨count, request, later, received, isNext, body⟩
    rw [if_pos missing, grown] at taken
    simp only [if_neg hasRoom] at taken
    rw [takenBytes] at piece within ⊢
    cases turnRead : turn.read with
    | bytes bytes =>
        simp only [Turn.bytes, turnRead] at taken piece within ⊢
        split_ifs at taken
        cases taken
        have more := bodyBytes_follows readable follows isNext body piece within
        have samePhase : (run.connection.receiveBody bytes).phase = .body := phase
        simp only [PhaseFollows, samePhase, ne_eq, reduceCtorEq, not_false_eq_true, and_true]
        exact ⟨count, request, later, received ++ bytes, isNext, more⟩
    | wouldBlock =>
        simp only [Turn.bytes, turnRead] at taken ⊢
        apply stays
        cases select : turn.select with
        | ready =>
            simp only [select] at taken
            exact (Option.some.inj taken).symm
        | timeout =>
            simp only [select, Connection.checkTime] at taken
            rw [if_neg (by omega)] at taken
            exact (Option.some.inj taken).symm
        | error => exact absurd select selectFine
    | endOfStream => exact absurd (atEnd turnRead) (InBody.not_allRead follows isNext body missing)
    | error => exact absurd turnRead noError
  · rw [if_neg missing] at taken
    cases taken
    have takenBytes : run.connection.taken turn = [] := by
      simp [Connection.taken, Connection.reads, phase, missing]
    rw [takenBytes]
    exact ⟨bodyEnd_follows count isNext body missing, by simp⟩

theorem keepAliveHeadTurn_follows (phase : run.connection.phase = .keepAliveHead)
    (taken : run.connection.keepAliveHeadTurn turn = some connection) :
    PhaseFollows connection handled rest (read ++ run.connection.taken turn) ∧
      (connection.phase = .closed → handled = answered 0 requests) := by
  obtain ⟨within, roomy, hasBlock, -, noWait⟩ := steady
  have law := follows.phase
  simp only [PhaseFollows, phase] at law
  obtain ⟨atMost, part, holding, below⟩ := law
  have counted := holding.counted
  have processed := (follows.processed (by rw [phase]; decide)).1
  have inRoom : run.connection.totalBytesRead < run.connection.bufferSize := by omega
  have reads : run.connection.reads turn = true := by
    simpa only [Connection.reads, phase, decide_eq_true_eq] using inRoom
  have takenBytes : run.connection.taken turn = turn.bytes := if_pos reads
  have exhausted := noWait (Or.inl phase) reads
  have closes : connection = run.connection.close →
      run.consumed = (streamText requests).length →
        PhaseFollows connection handled rest (read ++ []) ∧
          (connection.phase = .closed → handled = answered 0 requests) := by
    rintro rfl allRead
    obtain ⟨noRest, noRead⟩ := part.exhausted follows allRead
    rw [noRead]
    exact ⟨rfl, fun _ => follows.closed_of_exhausted (by rw [phase]; decide) noRest⟩
  rw [Connection.keepAliveHeadTurn, if_pos inRoom] at taken
  rw [takenBytes] at piece within ⊢
  cases turnRead : turn.read with
  | bytes bytes =>
      simp only [Turn.bytes, turnRead] at taken piece within ⊢
      split_ifs at taken with delivers
      cases taken
      refine headBytes_follows readable follows (Or.inr ⟨phase, rfl⟩) ?_ hasBlock holding
        delivers.1 (follows.piece part.isPart piece within) ?_
      · intro isNext
        apply Nat.lt_of_le_of_ne atMost
        intro full
        exact isNext (part.exhausted follows (exhausted (Or.inr (processed.trans full)))).1
      · apply Connection.room_of_leavesRoom roomy _ turnRead delivers.1
        simp [Connection.readsAllRoom, phase, inRoom]
  | wouldBlock =>
      simp only [Turn.bytes, turnRead] at taken ⊢
      exact closes (Option.some.inj taken).symm (exhausted (Or.inl turnRead))
  | endOfStream =>
      simp only [Turn.bytes, turnRead] at taken ⊢
      exact closes (Option.some.inj taken).symm (atEnd turnRead)
  | error => exact absurd turnRead noError

theorem keepAliveBodyTurn_follows (phase : run.connection.phase = .keepAliveBody)
    (taken : run.connection.keepAliveBodyTurn turn = some connection) :
    PhaseFollows connection handled rest (read ++ run.connection.taken turn) ∧
      connection.phase ≠ .closed := by
  obtain ⟨within, -, -, -, noWait⟩ := steady
  have law := follows.phase
  simp only [PhaseFollows, phase] at law
  obtain ⟨count, request, later, received, isNext, body⟩ := law
  obtain ⟨-, inRoom⟩ := body.growBuffer_eq turn.block
  rw [Connection.keepAliveBodyTurn] at taken
  by_cases missing : run.connection.bodyReceived < run.connection.contentLength
  · have reads : run.connection.reads turn = true := by
      simp [Connection.reads, phase, missing, inRoom]
    have takenBytes : run.connection.taken turn = turn.bytes := if_pos reads
    have goesOn := InBody.not_allRead follows isNext body missing
    rw [if_pos ⟨missing, inRoom⟩] at taken
    rw [takenBytes] at piece within ⊢
    cases turnRead : turn.read with
    | bytes bytes =>
        simp only [Turn.bytes, turnRead] at taken piece within ⊢
        split_ifs at taken
        cases taken
        have more := bodyBytes_follows readable follows isNext body piece within
        have samePhase : (run.connection.receiveBody bytes).phase = .keepAliveBody := phase
        simp only [PhaseFollows, samePhase, ne_eq, reduceCtorEq, not_false_eq_true, and_true]
        exact ⟨count, request, later, received ++ bytes, isNext, more⟩
    | wouldBlock => exact absurd (noWait (Or.inr phase) reads (Or.inl turnRead)) goesOn
    | endOfStream => exact absurd (atEnd turnRead) goesOn
    | error => exact absurd turnRead noError
  · rw [if_neg (fun both => missing both.1)] at taken
    cases taken
    have takenBytes : run.connection.taken turn = [] := by
      simp [Connection.taken, Connection.reads, phase, missing]
    rw [takenBytes]
    exact ⟨bodyEnd_follows count isNext body missing, by simp⟩

theorem readTurn_follows (taken : run.connection.readTurn turn = some connection) :
    PhaseFollows connection handled rest (read ++ run.connection.taken turn) ∧
      (connection.phase = .closed → handled = answered 0 requests) := by
  rw [Connection.readTurn] at taken
  cases phase : run.connection.phase <;> simp only [phase, reduceCtorEq] at taken
  · exact headTurn_follows readable follows steady piece noError atEnd phase taken
  · have body := bodyTurn_follows readable follows steady piece noError atEnd phase taken
    exact ⟨body.1, fun closed => absurd closed body.2⟩
  · have law := follows.phase
    simp only [PhaseFollows, phase] at law
  · exact keepAliveHeadTurn_follows readable follows steady piece noError atEnd phase taken
  · have body := keepAliveBodyTurn_follows readable follows steady piece noError atEnd phase taken
    exact ⟨body.1, fun closed => absurd closed body.2⟩

end Turns

/-- A request that is read is dispatched, and the next one is begun or the
connection closed. -/
theorem handle_follows {behind : Bytes}
    (readable : ∀ request ∈ requests, request.Readable)
    (follows : Follows requests handled rest read run) (phase : run.connection.phase = .handling) :
    ∃ handled rest read,
      Follows requests handled rest read
        { run with connection := run.connection.handle behind true } := by
  have law := follows.phase
  simp only [PhaseFollows, phase] at law
  obtain ⟨count, request, later, rfl, rfl, text⟩ := law
  obtain ⟨processed, answers⟩ := follows.processed (by rw [phase]; decide)
  have isReadable := readable request (by simp [follows.split])
  have split : requests = (handled ++ [request]) ++ later := by
    rw [follows.split]
    simp
  have consumed : run.consumed = (streamText (handled ++ [request])).length + ([] : Bytes).length := by
    rw [follows.consumed, streamText_append, List.length_append]
    simp [streamText]
  have nextDispatched : run.connection.dispatched ++ [(request.text, request.parsed)] =
      (handled ++ [request]).map ClientRequest.sent := by
    rw [follows.dispatched, List.map_append]
    rfl
  have inBuffer : 0 < run.connection.bufferSize := by
    apply Nat.pos_of_ne_zero
    intro none
    have nothing : run.connection.text = [] := by
      simp [Connection.text, none, cString]
    rw [text, ClientRequest.text, ClientRequest.head, headText] at nothing
    simp at nothing
  have closes : request.isLast handled.length = true → handled ++ [request] = answered 0 requests := by
    intro isLast
    rw [answers, answered, if_pos isLast]
  have dispatched : answeredFirst request.text request.parsed = false ∨ handled.length ≠ 0 →
      ∃ handled rest read,
        Follows requests handled rest read
          { run with connection := run.connection.dispatch request.parsed true } := by
    intro notFirst
    refine ⟨handled ++ [request], later, [], split, ?_, consumed, ?_, ?_, ?_⟩
    all_goals rw [Connection.dispatch, processed, text]
    all_goals by_cases keepAlive : request.parsed.keepAlive = true
    all_goals simp only [keepAlive, count, decide_true, Bool.and_self, if_true, Bool.false_eq_true,
      if_false, Bool.and_true, Connection.close]
    · exact nextDispatched
    · exact nextDispatched
    · refine ⟨by rw [List.length_append]; exact count, ?_, ⟨rfl, rfl⟩, inBuffer⟩
      cases later with
      | nil => rfl
      | cons next others => exact ⟨List.nil_prefix, by simp [ClientRequest.head, headText]⟩
    · rfl
    · intro _
      have notLast : request.isLast handled.length = false := by
        rw [ClientRequest.isLast, keepAlive]
        rcases notFirst with no | later
        · simp [no]
        · simp [later]
      refine ⟨by simp, ?_⟩
      rw [answers, answered, notLast]
      simp
    · intro isOpen
      exact absurd rfl isOpen
    · intro closed
      cases closed
    · intro _
      apply closes
      simp [ClientRequest.isLast, keepAlive]
  simp only [Connection.handle, text, isReadable.parsed_eq, processed]
  by_cases first : handled.length = 0
  · rw [if_pos first]
    by_cases isAnswered : answeredFirst request.text request.parsed = true
    · rw [if_pos isAnswered]
      refine ⟨handled ++ [request], later, [], split, nextDispatched, consumed, rfl,
        fun isOpen => absurd rfl isOpen, fun _ => closes ?_⟩
      simp [ClientRequest.isLast, first, isAnswered]
    · rw [if_neg isAnswered]
      exact dispatched (Or.inl (by simpa using isAnswered))
  · rw [if_neg first, if_neg request.parsed_path, if_pos count]
    exact dispatched (Or.inr first)

theorem streamStep_follows (readable : ∀ request ∈ requests, request.Readable) :
    Keeps (streamStep (streamText requests)) (Steady requests) fun run =>
      ∃ handled rest read, Follows requests handled rest read run := by
  rintro run event next ⟨handled, rest, read, follows⟩ steady taken
  cases event with
  | read turn =>
      simp only [streamStep, Option.mem_def] at taken
      split_ifs at taken with fromStream
      obtain ⟨connection, turned, rfl⟩ := Option.map_eq_some_iff.mp taken
      obtain ⟨piece, noError, atEnd⟩ := fromStream
      obtain ⟨phase, closed⟩ := readTurn_follows readable follows steady piece noError atEnd turned
      have continues := Connection.readTurn_continues turned
      have wasOpen : run.connection.phase ≠ .closed := by
        intro wasClosed
        simp [Connection.readTurn, wasClosed] at turned
      obtain ⟨processed, answers⟩ := follows.processed wasOpen
      refine ⟨handled, rest, read ++ run.connection.taken turn, follows.split,
        continues.dispatched.trans follows.dispatched, ?_, phase,
        fun _ => ⟨continues.requestsProcessed.trans processed, answers⟩, closed⟩
      rw [List.length_append, ← Nat.add_assoc, ← follows.consumed]
  | handle behind goOn =>
      obtain ⟨connection, handled, rfl⟩ := Option.map_eq_some_iff.mp taken
      rw [clientStep] at handled
      split_ifs at handled with phase
      cases handled
      obtain rfl : goOn = true := steady
      exact handle_follows readable follows phase

theorem Follows.delivered (follows : Follows requests handled rest read run) :
    Delivered requests run := by
  have isPart : read <+: streamText (rest.take 1) := by
    have law := follows.phase
    rw [PhaseFollows] at law
    split at law
    · exact law.2.1.isPart
    · exact law.2.1.isPart
    · obtain ⟨-, request, later, received, rfl, body⟩ := law
      rw [head_text]
      exact body.isPart_text
    · obtain ⟨-, request, later, received, rfl, body⟩ := law
      rw [head_text]
      exact body.isPart_text
    · obtain ⟨-, request, later, rfl, rfl, -⟩ := law
      exact head_text request later ▸ List.prefix_refl _
    · exact absurd law id
    · rw [show read = [] from law]
      exact List.nil_prefix
  refine ⟨handled, rest, read, follows.split, follows.dispatched, ?_, isPart, fun closed => ?_⟩
  · obtain ⟨more, whole⟩ := isPart
    rw [follows.split, streamText_append, follows.consumed, List.take_length_add_append,
      ← List.take_append_drop 1 rest, streamText_append, ← whole, List.append_assoc,
      List.take_left]
  · have law := follows.phase
    simp only [PhaseFollows, closed] at law
    exact ⟨follows.closed closed, law⟩

end Steps

end Following

/-! ## Two ways of cutting a stream -/

/-- Steady runs over one stream, however it is cut into pieces, dispatch its
requests whole and once, and the same ones if they come to an end. -/
theorem chunkings_dispatch_alike (requests : List ClientRequest)
    (readable : ∀ request ∈ requests, request.Readable) (firstTime secondTime : Int)
    (firstEvents secondEvents : List ClientEvent) (first second : ClientRun)
    (firstReached : runFrom (streamStep (streamText requests)) (.start firstTime) firstEvents =
      some first)
    (secondReached : runFrom (streamStep (streamText requests)) (.start secondTime) secondEvents =
      some second)
    (firstSteady : EveryStep (streamStep (streamText requests)) (Steady requests)
      (.start firstTime) firstEvents)
    (secondSteady : EveryStep (streamStep (streamText requests)) (Steady requests)
      (.start secondTime) secondEvents) :
    Delivered requests first ∧ Delivered requests second ∧
      (∀ request ∈ requests, request.parsed.body.getD [] = request.body) ∧
        (first.connection.phase = .closed → second.connection.phase = .closed →
          first.connection.dispatched = second.connection.dispatched) := by
  have follow : ∀ {time : Int} {events : List ClientEvent} {run : ClientRun},
      runFrom (streamStep (streamText requests)) (.start time) events = some run →
        EveryStep (streamStep (streamText requests)) (Steady requests) (.start time) events →
          ∃ handled rest read, Follows requests handled rest read run := by
    intro time events run reached steady
    exact invariant_runFrom (streamStep_follows readable)
      ⟨[], requests, [], start_follows requests time⟩ steady reached
  obtain ⟨firstHandled, _, _, firstFollows⟩ := follow firstReached firstSteady
  obtain ⟨secondHandled, _, _, secondFollows⟩ := follow secondReached secondSteady
  refine ⟨firstFollows.delivered, secondFollows.delivered,
    fun request member => (readable request member).body_eq, fun firstClosed secondClosed => ?_⟩
  rw [firstFollows.dispatched, secondFollows.dispatched, firstFollows.closed firstClosed,
    secondFollows.closed secondClosed]

/-- A request that asks for the connection to be kept. -/
def keptRequest : ClientRequest where
  requestLine := ascii "GET /api/a HTTP/1.1"
  headerLines := [ascii "Connection: keep-alive"]
  body := []
  plain := by
    simp only [List.forall_mem_cons, List.not_mem_nil, false_implies, implies_true, and_true]
    decide
  framed := Or.inr (by decide)
  small := by decide

/-- A request with a body. -/
def bodyRequest : ClientRequest where
  requestLine := ascii "POST /api/a HTTP/1.1"
  headerLines := [ascii "Content-Length: 2"]
  body := ascii "{}"
  plain := by
    simp only [List.forall_mem_cons, List.not_mem_nil, false_implies, implies_true, and_true]
    decide
  framed := Or.inl (by decide)
  small := by decide

def Turn.waiting : Turn where
  time := 0
  read := .wouldBlock
  select := .timeout
  later := 0
  block := some fun _ => 0

def Turn.steady (bytes : Bytes) : Turn :=
  { Turn.reading bytes with block := some fun _ => 0 }

def wholePieces : List ClientEvent :=
  [.read (.steady keptRequest.text), .handle [] true, .read (.steady bodyRequest.text),
    .handle [] true]

def smallPieces : List ClientEvent :=
  [.read (.steady (keptRequest.text.take 5)), .read .waiting,
    .read (.steady (keptRequest.text.drop 5)), .handle [] true,
    .read (.steady bodyRequest.head), .read (.steady bodyRequest.body), .read .waiting,
    .handle [] true]

theorem readable_requests : ∀ request ∈ [keptRequest, bodyRequest], request.Readable := by
  have parts : ∀ request ∈ [keptRequest, bodyRequest], ∀ size < request.body.length + 1,
      findHead (request.head ++ request.body.take size) =
        some (request.head.length, request.body.length) := by
    decide +kernel
  have noBare : ∀ request ∈ [keptRequest, bodyRequest],
      NulFree request.text ∧ ∀ parts ∈ strtok [13, 10] request.text,
        noBareHeader (request.text.length + 1) parts.2 = true := by
    decide +kernel
  intro request member
  refine ⟨?_, fun received isPart => ?_, fun behind => ?_, ?_⟩
  · revert request
    decide
  · rw [List.prefix_iff_eq_take.mp isPart]
    exact parts request member received.length (Nat.lt_succ_of_le isPart.length_le)
  · exact parseHttpRequest_behind (noBare request member).1 (noBare request member).2 behind
  · revert request
    decide +kernel

theorem chunkings_dispatch_alike_pieces :
    ∃ first second,
      runFrom (streamStep (streamText [keptRequest, bodyRequest])) (.start 0) wholePieces =
          some first ∧
        runFrom (streamStep (streamText [keptRequest, bodyRequest])) (.start 0) smallPieces =
            some second ∧
          Delivered [keptRequest, bodyRequest] first ∧
            Delivered [keptRequest, bodyRequest] second ∧
              (∀ request ∈ [keptRequest, bodyRequest],
                request.parsed.body.getD [] = request.body) ∧
                (first.connection.phase = .closed → second.connection.phase = .closed →
                  first.connection.dispatched = second.connection.dispatched) := by
  have whole : (runFrom (streamStep (streamText [keptRequest, bodyRequest])) (.start 0)
      wholePieces).isSome = true := by
    decide +kernel
  have small : (runFrom (streamStep (streamText [keptRequest, bodyRequest])) (.start 0)
      smallPieces).isSome = true := by
    decide +kernel
  obtain ⟨first, firstReached⟩ := Option.isSome_iff_exists.mp whole
  obtain ⟨second, secondReached⟩ := Option.isSome_iff_exists.mp small
  exact ⟨first, second, firstReached, secondReached,
    chunkings_dispatch_alike [keptRequest, bodyRequest] readable_requests 0 0 wholePieces
      smallPieces first second firstReached secondReached (by decide +kernel) (by decide +kernel)⟩

def oneRead : List ClientEvent :=
  [.read (.steady (keptRequest.text ++ keptRequest.text)), .handle [] true, .read .waiting]

def twoReads : List ClientEvent :=
  [.read (.steady keptRequest.text), .handle [] true, .read (.steady keptRequest.text),
    .handle [] true, .read .waiting]

theorem not_alike_oneRead :
    ∃ first second,
      runFrom (streamStep (streamText [keptRequest, keptRequest])) (.start 0) oneRead =
          some first ∧
        runFrom (streamStep (streamText [keptRequest, keptRequest])) (.start 0) twoReads =
            some second ∧
          first.consumed = second.consumed ∧ first.connection.phase = .closed ∧
            second.connection.phase = .closed ∧
              first.connection.dispatched ≠ second.connection.dispatched := by
  have one : ((runFrom (streamStep (streamText [keptRequest, keptRequest])) (.start 0)
      oneRead).map fun run => (run.consumed, decide (run.connection.phase = .closed),
        run.connection.dispatched.length)) = some (2 * keptRequest.text.length, true, 1) := by
    decide +kernel
  have two : ((runFrom (streamStep (streamText [keptRequest, keptRequest])) (.start 0)
      twoReads).map fun run => (run.consumed, decide (run.connection.phase = .closed),
        run.connection.dispatched.length)) = some (2 * keptRequest.text.length, true, 2) := by
    decide +kernel
  obtain ⟨first, firstReached, firstValues⟩ := Option.map_eq_some_iff.mp one
  obtain ⟨second, secondReached, secondValues⟩ := Option.map_eq_some_iff.mp two
  simp only [Prod.mk.injEq, decide_eq_true_eq] at firstValues secondValues
  refine ⟨first, second, firstReached, secondReached,
    firstValues.1.trans secondValues.1.symm, firstValues.2.1, secondValues.2.1, fun same => ?_⟩
  have lengths := congrArg List.length same
  rw [firstValues.2.2, secondValues.2.2] at lengths
  cases lengths

end Jdbx
