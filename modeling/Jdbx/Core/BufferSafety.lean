import Jdbx.Core.HandleClient
import Jdbx.Library.GuardedRun

/-!
# The request buffer

Every write of the reading loops lies in the buffer as long as no read that is
bounded by nothing but the buffer's room fills the buffer.  Such a read leaves
no place for the terminating `NUL`, and in the loop over the first request's
body it leaves the loop without an end.
-/

namespace Jdbx

open Library

def BufferWrite.InBounds (write : BufferWrite) : Prop :=
  write.offset + write.length ≤ write.bufferSize

instance : DecidablePred BufferWrite.InBounds :=
  fun _ => inferInstanceAs (Decidable (_ ≤ _))

def Turn.Quiet (requestStartTime : Int) (turn : Turn) : Prop :=
  turn.read = .endOfStream ∨
    turn.read = .wouldBlock ∧ turn.select ≠ .ready ∧
      turn.time - requestStartTime > maxRequestTime ∧
        turn.later - requestStartTime > maxRequestTime

namespace Connection

def Terminates (connection : Connection) : Prop :=
  ∃ bound, ∀ turns : List Turn,
    (∀ turn ∈ turns, turn.Quiet connection.requestStartTime) →
      (runFrom readTurn connection turns).isSome → turns.length ≤ bound

/-- All writes so far lie in the buffer, and the loops end when the stream does. -/
structure Sound (connection : Connection) : Prop where
  inBounds : ∀ write ∈ connection.writes, write.InBounds
  terminates : connection.Terminates

/-- The turn reads as much as the buffer has room for: over a head, over the
body of a later request, or over a first body of a negative length. -/
def readsAllRoom (connection : Connection) (turn : Turn) : Bool :=
  match connection.phase with
  | .head =>
    connection.totalBytesRead < connection.bufferSize &&
      !(turn.time - connection.requestStartTime > maxRequestTime)
  | .body => connection.bodyReceived < connection.contentLength && 2 ^ 63 ≤ connection.contentLength
  | .keepAliveHead => connection.totalBytesRead < connection.bufferSize
  | .keepAliveBody =>
    connection.bodyReceived < connection.contentLength &&
      connection.totalBytesRead < connection.bufferSize
  | .recovery _ _ _ | .handling | .closed => false

def LeavesRoom (connection : Connection) : ClientEvent → Prop
  | .read turn =>
    connection.readsAllRoom turn = true → turn.bytes ≠ [] →
      connection.totalBytesRead + turn.bytes.length < connection.bufferSize
  | .handle _ _ => True

instance (connection : Connection) : DecidablePred connection.LeavesRoom
  | .read _ => inferInstanceAs (Decidable (_ = true → _ → _ < _))
  | .handle _ _ => inferInstanceAs (Decidable True)

end Connection

theorem findText_spec {pattern found : Bytes} :
    ∀ {text : Bytes}, findText pattern text = some found →
      pattern <+: found ∧ found <:+ text := by
  intro text
  induction text with
  | nil =>
    intro search
    rw [findText] at search
    split_ifs at search with empty
    cases search
    exact ⟨by simp [empty], List.suffix_refl _⟩
  | cons byte text ih =>
    intro search
    rw [findText] at search
    split_ifs at search with isPrefix
    · cases search
      exact ⟨List.isPrefixOf_iff_prefix.mp isPrefix, List.suffix_refl _⟩
    · have deeper := ih search
      exact ⟨deeper.1, deeper.2.trans (List.suffix_cons byte text)⟩

theorem findHead_bounds {text : Bytes} {headersSize contentLength : Nat}
    (found : findHead text = some (headersSize, contentLength)) :
    headersSize ≤ text.length ∧ contentLength < 2 ^ 64 := by
  obtain ⟨headerEnd, search, parts⟩ := Option.map_eq_some_iff.mp found
  obtain ⟨sizeEqual, lengthEqual⟩ := Prod.mk.inj parts
  have spec := findText_spec search
  have atLeast := spec.1.length_le
  have atMost := spec.2.length_le
  simp only [List.length_cons, List.length_nil] at atLeast
  constructor
  · omega
  · rw [← lengthEqual]
    split
    · rw [atoiSize]
      omega
    · decide

theorem cString_length_le (front back : Bytes) : (cString (front ++ 0 :: back)).length ≤
    front.length := by
  induction front with
  | nil => simp [cString]
  | cons byte front ih =>
    rw [cString] at ih ⊢
    rw [List.cons_append, List.takeWhile_cons]
    split_ifs
    · simpa using ih
    · simp

namespace Connection

variable {connection next : Connection} {turn : Turn} {bytes : Bytes}

theorem text_length_le {position : Nat} (inside : position < connection.bufferSize)
    (nul : connection.buffer position = 0) : connection.text.length ≤ position := by
  obtain ⟨behind, size⟩ := Nat.exists_eq_add_of_lt inside
  have layout : readBytes connection.buffer 0 connection.bufferSize =
      readBytes connection.buffer 0 position ++
        0 :: readBytes connection.buffer (position + 1) behind := by
    rw [show connection.bufferSize = position + (behind + 1) by omega, readBytes_add,
      readBytes_succ, Nat.zero_add, nul]
  have shorter := cString_length_le (readBytes connection.buffer 0 position)
    (readBytes connection.buffer (position + 1) behind)
  rw [text, layout]
  simpa using shorter

theorem receive_writes (bytes : Bytes) :
    (connection.receive bytes).writes = connection.writes ++
      [⟨connection.totalBytesRead, bytes.length, connection.bufferSize⟩,
        ⟨connection.totalBytesRead + bytes.length, 1, connection.bufferSize⟩] := by
  simp [receive, write]

theorem receive_text_length_le
    (room : connection.totalBytesRead + bytes.length < connection.bufferSize) :
    (connection.receive bytes).text.length ≤ connection.totalBytesRead + bytes.length := by
  apply text_length_le
  · exact room
  · have stored :
        writeBytes (writeBytes connection.buffer connection.totalBytesRead bytes)
            (connection.totalBytesRead + bytes.length) [0]
              (connection.totalBytesRead + bytes.length + 0) = [(0 : UInt8)][0] :=
      writeBytes_of_inside (by simp)
    exact stored

/-! ## The invariant -/

/-- The first body either fits into the buffer with its `NUL`, or its length is
negative and wraps around. -/
def BodyFits (connection : Connection) (headersSize : Nat) : Prop :=
  headersSize + connection.contentLength < connection.bufferSize ∨
    connection.contentLength < 2 ^ 64 ∧ 2 ^ 64 ≤ headersSize + connection.contentLength + 1

def PhaseLaw (connection : Connection) : Prop :=
  match connection.phase with
  | .head | .keepAliveHead | .keepAliveBody => connection.totalBytesRead < connection.bufferSize
  | .body =>
    connection.totalBytesRead < connection.bufferSize ∧
      ∃ headersSize, headersSize + connection.bodyReceived = connection.totalBytesRead ∧
        connection.BodyFits headersSize
  | .recovery _ recoveredBytes bytesMissing =>
    recoveredBytes < bytesMissing →
      connection.totalBytesRead + bytesMissing < connection.bufferSize
  | .handling | .closed => True

structure Lawful (connection : Connection) : Prop where
  inBounds : ∀ write ∈ connection.writes, write.InBounds
  positive : 0 < connection.bufferSize
  small : connection.bufferSize ≤ maxRequestSize
  phaseLaw : connection.PhaseLaw

theorem start_lawful (requestStartTime : Int) : (start requestStartTime).Lawful :=
  ⟨by simp [start], by simp [start], by simp [start, maxRequestSize], by simp [start, PhaseLaw]⟩

theorem Lawful.body (lawful : connection.Lawful) (phase : connection.phase = .body) :
    connection.totalBytesRead < connection.bufferSize ∧
      ∃ headersSize, headersSize + connection.bodyReceived = connection.totalBytesRead ∧
        connection.BodyFits headersSize := by
  simpa only [PhaseLaw, phase] using lawful.phaseLaw

theorem Lawful.leave {phase : Phase} (lawful : connection.Lawful)
    (left : phase = .handling ∨ phase = .closed) :
    { connection with phase := phase }.Lawful := by
  refine ⟨lawful.inBounds, lawful.positive, lawful.small, ?_⟩
  rcases left with rfl | rfl <;> trivial

theorem Lawful.close (lawful : connection.Lawful) : connection.close.Lawful :=
  lawful.leave (Or.inr rfl)

theorem Lawful.checkTime (lawful : connection.Lawful) (later : Int) :
    (connection.checkTime later).Lawful := by
  rw [Connection.checkTime]
  split_ifs
  · exact lawful.close
  · exact lawful

theorem receive_inBounds (lawful : connection.Lawful)
    (room : connection.totalBytesRead + bytes.length < connection.bufferSize) :
    ∀ write ∈ (connection.receive bytes).writes, write.InBounds := by
  intro write member
  rw [receive_writes, List.mem_append] at member
  rcases member with old | new
  · exact lawful.inBounds write old
  · simp only [List.mem_cons, List.not_mem_nil, or_false] at new
    rcases new with rfl | rfl <;> rw [BufferWrite.InBounds] <;> dsimp only <;> omega

theorem moveTo_lawful {block : Memory} {size : Nat} {phase : Phase}
    (inBounds : ∀ write ∈ connection.writes, write.InBounds)
    (room : connection.totalBytesRead < connection.bufferSize)
    (grows : connection.bufferSize < size) (small : size ≤ maxRequestSize)
    (law : { connection.moveTo block size with phase }.PhaseLaw) :
    { connection.moveTo block size with phase }.Lawful := by
  refine ⟨?_, Nat.zero_lt_of_lt grows, small, law⟩
  intro write member
  rcases List.mem_append.mp member with old | new
  · exact inBounds write old
  · obtain rfl := List.mem_singleton.mp new
    rw [BufferWrite.InBounds]
    dsimp only
    omega

theorem afterHead_lawful {headersSize contentLength : Nat} {next : Phase}
    (block : Option Memory) (lawful : connection.Lawful)
    (nextPhase : next = .body ∨ next = .keepAliveBody)
    (room : connection.totalBytesRead < connection.bufferSize)
    (inside : headersSize ≤ connection.totalBytesRead) (isSize : contentLength < 2 ^ 64) :
    (connection.afterHead next block headersSize contentLength).Lawful := by
  have small := lawful.small
  rw [maxRequestSize] at small
  rw [afterHead]
  dsimp only
  have set : ∀ phase : Phase, PhaseLaw
      { connection with
        contentLength, bodyReceived := connection.totalBytesRead - headersSize, phase } →
      Lawful
        { connection with
          contentLength, bodyReceived := connection.totalBytesRead - headersSize, phase } :=
    fun _ law => ⟨lawful.inBounds, lawful.positive, lawful.small, law⟩
  split_ifs with wanted large grows
  · exact set .closed trivial
  · rw [maxRequestSize] at large
    cases block with
    | none => exact set .closed trivial
    | some block =>
      refine moveTo_lawful lawful.inBounds room grows (by rw [maxRequestSize]; omega) ?_
      rcases nextPhase with rfl | rfl
      · refine ⟨by dsimp only [moveTo]; omega, headersSize, by dsimp only [moveTo]; omega,
          Or.inl ?_⟩
        dsimp only [moveTo]
        omega
      · dsimp only [PhaseLaw, moveTo]
        omega
  · rw [maxRequestSize] at large
    rcases nextPhase with rfl | rfl
    · refine set .body ⟨room, headersSize, by dsimp only; omega, ?_⟩
      dsimp only [BodyFits]
      omega
    · exact set .keepAliveBody room
  · exact set .handling trivial

theorem receiveHead_lawful {next : Phase} (block : Option Memory) (lawful : connection.Lawful)
    (phase : connection.phase = .head ∨ connection.phase = .keepAliveHead)
    (nextPhase : next = .body ∨ next = .keepAliveBody)
    (room : connection.totalBytesRead + bytes.length < connection.bufferSize) :
    (connection.receiveHead next block bytes).Lawful := by
  have received : (connection.receive bytes).Lawful := by
    refine ⟨receive_inBounds lawful room, lawful.positive, lawful.small, ?_⟩
    rcases phase with phase | phase <;> simp only [PhaseLaw, receive, write, phase] <;> exact room
  have textLength := receive_text_length_le room
  rw [receiveHead]
  cases found : findHead (connection.receive bytes).text with
  | none => exact received
  | some parts =>
    obtain ⟨headersSize, contentLength⟩ := parts
    obtain ⟨inText, isSize⟩ := findHead_bounds found
    exact afterHead_lawful block received nextPhase room (inText.trans textLength) isSize

theorem growBuffer_eq (block : Option Memory) (lawful : connection.Lawful)
    (phase : connection.phase = .body) :
    connection.growBuffer block = some connection := by
  obtain ⟨room, headersSize, total, fits⟩ := lawful.body phase
  have small := lawful.small
  rw [maxRequestSize] at small
  rw [growBuffer]
  dsimp only
  rw [BodyFits] at fits
  rw [if_neg (by omega)]

theorem receiveBody_lawful (lawful : connection.Lawful)
    (phase : connection.phase = .body ∨ connection.phase = .keepAliveBody)
    (room : connection.totalBytesRead + bytes.length < connection.bufferSize) :
    (connection.receiveBody bytes).Lawful := by
  refine ⟨receive_inBounds lawful room, lawful.positive, lawful.small, ?_⟩
  rcases phase with phase | phase
  · obtain ⟨-, headersSize, total, fits⟩ := lawful.body phase
    simp only [PhaseLaw, receiveBody, receive, write, phase]
    exact ⟨room, headersSize, by omega, fits⟩
  · simp only [PhaseLaw, receiveBody, receive, write, phase]
    exact room

theorem missBody_lawful (lawful : connection.Lawful) (phase : connection.phase = .body)
    (missing : connection.bodyReceived < connection.contentLength) :
    connection.missBody.Lawful := by
  obtain ⟨room, headersSize, total, fits⟩ := lawful.body phase
  have small := lawful.small
  rw [maxRequestSize] at small
  rw [missBody]
  split_ifs with few
  · refine ⟨lawful.inBounds, lawful.positive, lawful.small, fun _ => ?_⟩
    rw [BodyFits] at fits
    dsimp only
    omega
  · exact lawful.close

theorem countRecovered_lawful {recoveredBytes : Nat} {phase : Phase} (lawful : connection.Lawful)
    (law : { connection.countRecovered recoveredBytes with phase }.PhaseLaw) :
    { connection.countRecovered recoveredBytes with phase }.Lawful := by
  have size : (connection.countRecovered recoveredBytes).bufferSize = connection.bufferSize := by
    rw [countRecovered, terminate]
    split_ifs <;> rfl
  refine ⟨?_, ?_, ?_, law⟩
  · intro write member
    rw [countRecovered, terminate] at member
    split_ifs at member with guard
    · rcases List.mem_append.mp member with old | new
      · exact lawful.inBounds write old
      · obtain rfl := List.mem_singleton.mp new
        rw [BufferWrite.InBounds]
        dsimp only [List.length_singleton] at guard ⊢
        omega
    · exact lawful.inBounds write member
  · dsimp only
    rw [size]
    exact lawful.positive
  · dsimp only
    rw [size]
    exact lawful.small

theorem leaveRecovery_lawful (lawful : connection.Lawful) (recoveredBytes : Nat) :
    (connection.leaveRecovery recoveredBytes).Lawful := by
  rw [leaveRecovery]
  split_ifs
  · exact countRecovered_lawful lawful trivial
  · exact countRecovered_lawful lawful trivial
  · exact lawful.close
  · exact lawful.leave (Or.inl rfl)

theorem room_of_leavesRoom (roomy : connection.LeavesRoom (.read turn))
    (reads : connection.readsAllRoom turn = true) (read : turn.read = .bytes bytes)
    (nonempty : bytes ≠ []) :
    connection.totalBytesRead + bytes.length < connection.bufferSize := by
  have returned : turn.bytes = bytes := by
    rw [Turn.bytes, read]
  rw [← returned]
  exact roomy reads (returned ▸ nonempty)

theorem headTurn_lawful (lawful : connection.Lawful) (phase : connection.phase = .head)
    (roomy : connection.LeavesRoom (.read turn)) (taken : connection.headTurn turn = some next) :
    next.Lawful := by
  rw [headTurn] at taken
  split_ifs at taken with below late
  · cases taken
    exact lawful.close
  · have reads : connection.readsAllRoom turn = true := by
      simp [readsAllRoom, phase, below, late]
    cases read : turn.read with
    | bytes bytes =>
      simp only [read] at taken
      split_ifs at taken with delivers
      cases taken
      exact receiveHead_lawful turn.block lawful (Or.inl phase) (Or.inl rfl)
        (room_of_leavesRoom roomy reads read delivers.1)
    | wouldBlock =>
      simp only [read] at taken
      cases select : turn.select <;> simp only [select, Option.some.injEq] at taken <;>
        subst taken
      · exact lawful
      · exact lawful.checkTime turn.later
      · exact lawful.close
    | endOfStream | error =>
      simp only [read, Option.some.injEq] at taken
      subst taken
      exact lawful.close
  · cases taken
    exact lawful.close

theorem bodyTurn_lawful (lawful : connection.Lawful) (phase : connection.phase = .body)
    (roomy : connection.LeavesRoom (.read turn)) (taken : connection.bodyTurn turn = some next) :
    next.Lawful := by
  obtain ⟨room, headersSize, total, fits⟩ := lawful.body phase
  rw [bodyTurn] at taken
  split_ifs at taken with missing
  · rw [growBuffer_eq turn.block lawful phase] at taken
    simp only [if_neg (show ¬ connection.bufferSize - connection.totalBytesRead = 0 by omega)]
      at taken
    cases read : turn.read with
    | bytes bytes =>
      simp only [read] at taken
      split_ifs at taken with delivers
      cases taken
      apply receiveBody_lawful lawful (Or.inl phase)
      by_cases negative : 2 ^ 63 ≤ connection.contentLength
      · have reads : connection.readsAllRoom turn = true := by
          simpa [readsAllRoom, phase, missing] using negative
        exact room_of_leavesRoom roomy reads read delivers.1
      · have atMost := delivers.2
        simp only [readSize, phase] at atMost
        have small := lawful.small
        rw [maxRequestSize] at small
        rw [BodyFits] at fits
        omega
    | wouldBlock =>
      simp only [read] at taken
      cases select : turn.select <;> simp only [select, Option.some.injEq] at taken <;>
        subst taken
      · exact lawful
      · exact lawful.checkTime turn.later
      · exact missBody_lawful lawful phase missing
    | endOfStream | error =>
      simp only [read, Option.some.injEq] at taken
      subst taken
      exact missBody_lawful lawful phase missing
  · cases taken
    exact lawful.leave (Or.inl rfl)

theorem recoveryTurn_lawful {recoveryAttempts recoveredBytes bytesMissing : Nat}
    (lawful : connection.Lawful)
    (phase : connection.phase = .recovery recoveryAttempts recoveredBytes bytesMissing)
    (taken : connection.recoveryTurn recoveryAttempts recoveredBytes bytesMissing turn =
      some next) : next.Lawful := by
  have law : recoveredBytes < bytesMissing →
      connection.totalBytesRead + bytesMissing < connection.bufferSize := by
    simpa only [PhaseLaw, phase] using lawful.phaseLaw
  rw [recoveryTurn] at taken
  split_ifs at taken with more
  · have room := law more.2
    cases read : turn.read with
    | bytes bytes =>
      simp only [read] at taken
      have stored : bytes.length ≤ bytesMissing - recoveredBytes →
          (connection.write (connection.totalBytesRead + recoveredBytes) bytes).Lawful := by
        intro atMost
        refine ⟨?_, lawful.positive, lawful.small, lawful.phaseLaw⟩
        intro write member
        rcases List.mem_append.mp member with old | new
        · exact lawful.inBounds write old
        · obtain rfl := List.mem_singleton.mp new
          rw [BufferWrite.InBounds]
          dsimp only
          omega
      split_ifs at taken with delivers complete <;> cases taken <;>
        have atMost := delivers.2 <;> simp only [readSize, phase] at atMost <;>
        have kept := stored (by omega)
      · apply countRecovered_lawful kept
        intro more
        omega
      · refine ⟨kept.inBounds, kept.positive, kept.small, fun _ => ?_⟩
        dsimp only [write]
        omega
    | endOfStream =>
      simp only [read, Option.some.injEq] at taken
      subst taken
      exact leaveRecovery_lawful lawful recoveredBytes
    | wouldBlock | error =>
      simp only [read, Option.some.injEq] at taken
      subst taken
      exact ⟨lawful.inBounds, lawful.positive, lawful.small, law⟩
  · cases taken
    exact leaveRecovery_lawful lawful recoveredBytes

theorem keepAliveHeadTurn_lawful (lawful : connection.Lawful)
    (phase : connection.phase = .keepAliveHead) (roomy : connection.LeavesRoom (.read turn))
    (taken : connection.keepAliveHeadTurn turn = some next) : next.Lawful := by
  rw [keepAliveHeadTurn] at taken
  split_ifs at taken with below
  · have reads : connection.readsAllRoom turn = true := by
      simp [readsAllRoom, phase, below]
    cases read : turn.read with
    | bytes bytes =>
      simp only [read] at taken
      split_ifs at taken with delivers
      cases taken
      exact receiveHead_lawful turn.block lawful (Or.inr phase) (Or.inr rfl)
        (room_of_leavesRoom roomy reads read delivers.1)
    | wouldBlock | endOfStream | error =>
      simp only [read, Option.some.injEq] at taken
      subst taken
      exact lawful.close
  · cases taken
    exact lawful.close

theorem keepAliveBodyTurn_lawful (lawful : connection.Lawful)
    (phase : connection.phase = .keepAliveBody) (roomy : connection.LeavesRoom (.read turn))
    (taken : connection.keepAliveBodyTurn turn = some next) : next.Lawful := by
  rw [keepAliveBodyTurn] at taken
  split_ifs at taken with more
  · have reads : connection.readsAllRoom turn = true := by
      simp [readsAllRoom, phase, more]
    cases read : turn.read with
    | bytes bytes =>
      simp only [read] at taken
      split_ifs at taken with delivers
      cases taken
      exact receiveBody_lawful lawful (Or.inr phase)
        (room_of_leavesRoom roomy reads read delivers.1)
    | wouldBlock | endOfStream | error =>
      simp only [read, Option.some.injEq] at taken
      subst taken
      exact lawful.close
  · cases taken
    exact lawful.leave (Or.inl rfl)

theorem handle_lawful (lawful : connection.Lawful) (behind : Bytes) (goOn : Bool) :
    (connection.handle behind goOn).Lawful := by
  have dispatched : ∀ request : HttpRequest, (connection.dispatch request goOn).Lawful := by
    intro request
    rw [dispatch]
    dsimp only
    split_ifs
    · exact ⟨lawful.inBounds, lawful.positive, lawful.small, lawful.positive⟩
    · exact ⟨lawful.inBounds, lawful.positive, lawful.small, trivial⟩
  rw [handle]
  split_ifs
  · exact ⟨lawful.inBounds, lawful.positive, lawful.small, trivial⟩
  · exact dispatched _
  · exact lawful.close
  · exact dispatched _
  · exact lawful.close

theorem clientStep_lawful : Keeps clientStep LeavesRoom Lawful := by
  intro connection event next lawful roomy taken
  cases event with
  | read turn =>
    rw [clientStep, readTurn, Option.mem_def] at taken
    cases phase : connection.phase <;> simp only [phase, reduceCtorEq] at taken
    · exact headTurn_lawful lawful phase roomy taken
    · exact bodyTurn_lawful lawful phase roomy taken
    · exact recoveryTurn_lawful lawful phase taken
    · exact keepAliveHeadTurn_lawful lawful phase roomy taken
    · exact keepAliveBodyTurn_lawful lawful phase roomy taken
  | handle behind goOn =>
    rw [clientStep, Option.mem_def] at taken
    split_ifs at taken
    cases taken
    exact handle_lawful lawful behind goOn

/-! ## What no turn changes -/

/-- Writes are added only, and nothing is dispatched. -/
structure Continues (connection next : Connection) : Prop where
  writes : connection.writes ⊆ next.writes
  dispatched : next.dispatched = connection.dispatched
  requestsProcessed : next.requestsProcessed = connection.requestsProcessed
  requestStartTime : next.requestStartTime = connection.requestStartTime

@[refl]
theorem Continues.refl (connection : Connection) : Continues connection connection :=
  ⟨List.Subset.refl _, rfl, rfl, rfl⟩

theorem Continues.trans {later : Connection} (first : Continues connection next)
    (second : Continues next later) : Continues connection later :=
  ⟨List.Subset.trans first.writes second.writes, second.dispatched.trans first.dispatched,
    second.requestsProcessed.trans first.requestsProcessed,
    second.requestStartTime.trans first.requestStartTime⟩

theorem Continues.set (continues : Continues connection next) (phase : Phase)
    (totalBytesRead contentLength bodyReceived : Nat) :
    Continues connection { next with phase, totalBytesRead, contentLength, bodyReceived } :=
  ⟨continues.writes, continues.dispatched, continues.requestsProcessed,
    continues.requestStartTime⟩

theorem write_continues (offset : Nat) (bytes : Bytes) :
    Continues connection (connection.write offset bytes) :=
  ⟨List.subset_append_left _ _, rfl, rfl, rfl⟩

theorem moveTo_continues (block : Memory) (size : Nat) :
    Continues connection (connection.moveTo block size) :=
  ⟨List.subset_append_left _ _, rfl, rfl, rfl⟩

theorem receive_continues (bytes : Bytes) : Continues connection (connection.receive bytes) := by
  refine ⟨?_, rfl, rfl, rfl⟩
  rw [receive_writes]
  exact List.subset_append_left _ _

theorem afterHead_continues (phase : Phase) (block : Option Memory)
    (headersSize contentLength : Nat) :
    Continues connection (connection.afterHead phase block headersSize contentLength) := by
  have same := Continues.refl connection
  rw [afterHead]
  dsimp only
  split_ifs
  · exact same.set _ _ _ _
  · cases block with
    | none => exact same.set _ _ _ _
    | some block => exact ((same.set _ _ _ _).trans (moveTo_continues block _)).set _ _ _ _
  · exact same.set _ _ _ _
  · exact same.set _ _ _ _

theorem receiveHead_continues (phase : Phase) (block : Option Memory) (bytes : Bytes) :
    Continues (connection.receive bytes) (connection.receiveHead phase block bytes) := by
  rw [receiveHead]
  cases findHead (connection.receive bytes).text with
  | none => exact Continues.refl _
  | some parts => exact afterHead_continues _ _ _ _

theorem receiveBody_continues (bytes : Bytes) :
    Continues connection (connection.receiveBody bytes) :=
  (receive_continues bytes).set _ _ _ _

theorem checkTime_continues (later : Int) : Continues connection (connection.checkTime later) := by
  rw [checkTime]
  split_ifs
  · exact (Continues.refl connection).set _ _ _ _
  · exact Continues.refl connection

theorem missBody_continues : Continues connection connection.missBody := by
  rw [missBody]
  split_ifs <;> exact (Continues.refl connection).set _ _ _ _

theorem growBuffer_continues {block : Option Memory}
    (grown : connection.growBuffer block = some next) : Continues connection next := by
  rw [growBuffer] at grown
  dsimp only at grown
  split_ifs at grown
  · obtain ⟨memory, -, rfl⟩ := Option.map_eq_some_iff.mp grown
    exact moveTo_continues memory _
  · cases grown
    exact Continues.refl _

theorem countRecovered_continues (recoveredBytes : Nat) :
    Continues connection (connection.countRecovered recoveredBytes) := by
  have counted := (Continues.refl connection).set connection.phase
    (connection.totalBytesRead + recoveredBytes) connection.contentLength
    (connection.bodyReceived + recoveredBytes)
  rw [countRecovered, terminate]
  split_ifs
  · exact counted.trans (write_continues _ _)
  · exact counted

theorem leaveRecovery_continues (recoveredBytes : Nat) :
    Continues connection (connection.leaveRecovery recoveredBytes) := by
  rw [leaveRecovery]
  split_ifs
  · exact (countRecovered_continues recoveredBytes).set _ _ _ _
  · exact (countRecovered_continues recoveredBytes).set _ _ _ _
  · exact (Continues.refl connection).set _ _ _ _
  · exact (Continues.refl connection).set _ _ _ _

theorem readTurn_continues (taken : connection.readTurn turn = some next) :
    Continues connection next := by
  have same := Continues.refl connection
  have head : ∀ phase bytes,
      Continues connection (connection.receiveHead phase turn.block bytes) :=
    fun phase bytes => (receive_continues bytes).trans (receiveHead_continues phase _ bytes)
  rw [readTurn] at taken
  split at taken
  · rw [headTurn] at taken
    (repeat' split at taken) <;> cases taken <;>
      first | exact same.set _ _ _ _ | exact same | exact checkTime_continues _ | exact head _ _
  · rw [bodyTurn] at taken
    split_ifs at taken
    · cases grown : connection.growBuffer turn.block with
      | none =>
        rw [grown] at taken
        cases taken
        exact same.set _ _ _ _
      | some roomy =>
        apply (growBuffer_continues grown).trans
        rw [grown] at taken
        dsimp only at taken
        (repeat' split at taken) <;> cases taken <;>
          first
            | exact Continues.refl _
            | exact receiveBody_continues _
            | exact checkTime_continues _
            | exact missBody_continues
    · cases taken
      exact same.set _ _ _ _
  · rw [recoveryTurn] at taken
    dsimp only at taken
    (repeat' split at taken) <;> cases taken <;>
      first
        | exact leaveRecovery_continues _
        | exact ((write_continues _ _).trans (countRecovered_continues _)).set _ _ _ _
        | exact (write_continues _ _).set _ _ _ _
        | exact same.set _ _ _ _
  · rw [keepAliveHeadTurn] at taken
    (repeat' split at taken) <;> cases taken <;>
      first | exact same.set _ _ _ _ | exact head _ _
  · rw [keepAliveBodyTurn] at taken
    (repeat' split at taken) <;> cases taken <;>
      first | exact same.set _ _ _ _ | exact receiveBody_continues _
  · cases taken
  · cases taken

theorem handle_writes (behind : Bytes) (goOn : Bool) :
    (connection.handle behind goOn).writes = connection.writes := by
  have dispatched : ∀ request : HttpRequest,
      (connection.dispatch request goOn).writes = connection.writes := by
    intro request
    rw [dispatch]
    dsimp only
    split_ifs <;> rfl
  rw [handle]
  split_ifs <;> first | rfl | exact dispatched _

theorem clientStep_writes {event : ClientEvent} (taken : next ∈ clientStep connection event) :
    connection.writes ⊆ next.writes := by
  cases event with
  | read turn => exact (readTurn_continues taken).writes
  | handle behind goOn =>
    rw [clientStep, Option.mem_def] at taken
    split_ifs at taken
    cases taken
    rw [handle_writes]
    exact List.Subset.refl _

def Overflown (connection : Connection) : Prop :=
  ∃ write ∈ connection.writes, ¬ write.InBounds

theorem receive_overflown
    (fills : connection.bufferSize ≤ connection.totalBytesRead + bytes.length) :
    (connection.receive bytes).Overflown := by
  refine ⟨⟨connection.totalBytesRead + bytes.length, 1, connection.bufferSize⟩, ?_, ?_⟩
  · rw [receive_writes]
    simp
  · rw [BufferWrite.InBounds]
    dsimp only
    omega

theorem Overflown.mono (overflown : connection.Overflown)
    (stay : connection.writes ⊆ next.writes) : next.Overflown := by
  obtain ⟨write, member, outside⟩ := overflown
  exact ⟨write, stay member, outside⟩

theorem clientStep_overflown {event : ClientEvent} (lawful : connection.Lawful)
    (full : ¬ connection.LeavesRoom event) (taken : next ∈ clientStep connection event) :
    next.Overflown := by
  cases event with
  | handle behind goOn => exact absurd trivial full
  | read turn =>
    simp only [LeavesRoom, not_forall, Nat.not_lt] at full
    obtain ⟨reads, nonempty, fills⟩ := full
    obtain ⟨bytes, read⟩ : ∃ bytes, turn.read = .bytes bytes := by
      cases read : turn.read <;> simp_all [Turn.bytes]
    rw [Turn.bytes, read] at fills
    have overflown := receive_overflown fills
    rw [clientStep, readTurn, Option.mem_def] at taken
    cases phase : connection.phase <;> simp only [phase, reduceCtorEq] at taken <;>
      simp only [readsAllRoom, phase, Bool.and_eq_true, Bool.not_eq_true', decide_eq_true_eq,
        decide_eq_false_iff_not, Bool.false_eq_true] at reads
    · rw [headTurn, if_pos reads.1, if_neg reads.2] at taken
      simp only [read] at taken
      split_ifs at taken
      cases taken
      exact overflown.mono (receiveHead_continues _ _ _).writes
    · obtain ⟨room, -⟩ := lawful.body phase
      rw [bodyTurn, if_pos reads.1, growBuffer_eq turn.block lawful phase] at taken
      simp only [if_neg (show ¬ connection.bufferSize - connection.totalBytesRead = 0 by omega),
        read] at taken
      split_ifs at taken
      cases taken
      exact overflown
    · rw [keepAliveHeadTurn, if_pos reads] at taken
      simp only [read] at taken
      split_ifs at taken
      cases taken
      exact overflown.mono (receiveHead_continues _ _ _).writes
    · rw [keepAliveBodyTurn, if_pos reads] at taken
      simp only [read] at taken
      split_ifs at taken
      cases taken
      exact overflown

def quietTurns (connection : Connection) : Nat :=
  match connection.phase with
  | .recovery recoveryAttempts _ _ => 10 - recoveryAttempts + 1
  | .body => 12
  | .head | .keepAliveHead | .keepAliveBody => 1
  | .handling | .closed => 0

theorem quietTurns_leave (recoveredBytes : Nat) :
    (connection.leaveRecovery recoveredBytes).quietTurns = 0 := by
  rw [leaveRecovery]
  split_ifs <;> rfl

theorem missBody_quietTurns : connection.missBody.quietTurns < 12 := by
  rw [missBody]
  split_ifs <;> simp [quietTurns, close]

theorem readTurn_quiet (lawful : connection.Lawful)
    (quiet : turn.Quiet connection.requestStartTime)
    (taken : connection.readTurn turn = some next) :
    next.quietTurns < connection.quietTurns := by
  rw [readTurn] at taken
  cases phase : connection.phase with
  | head =>
    simp only [phase, headTurn] at taken
    have closed : next = connection.close := by
      rcases quiet with ended | ⟨blocked, notReady, late, later⟩
      · simp only [ended] at taken
        split_ifs at taken <;> exact (Option.some.inj taken).symm
      · rw [if_pos late] at taken
        split_ifs at taken <;> exact (Option.some.inj taken).symm
    rw [closed]
    simp [quietTurns, close, phase]
  | body =>
    obtain ⟨room, -⟩ := lawful.body phase
    simp only [phase, bodyTurn, growBuffer_eq turn.block lawful phase,
      if_neg (show ¬ connection.bufferSize - connection.totalBytesRead = 0 by omega)] at taken
    have turns : connection.quietTurns = 12 := by
      rw [quietTurns, phase]
    have results : next = connection.missBody ∨ next = connection.close ∨
        next = { connection with phase := .handling } := by
      rcases quiet with ended | ⟨blocked, notReady, late, later⟩
      · simp only [ended] at taken
        split_ifs at taken
        · exact Or.inl (Option.some.inj taken).symm
        · exact Or.inr (Or.inr (Option.some.inj taken).symm)
      · simp only [blocked, checkTime, if_pos later] at taken
        split_ifs at taken
        · cases select : turn.select with
          | ready => exact absurd select notReady
          | timeout =>
            simp only [select] at taken
            exact Or.inr (Or.inl (Option.some.inj taken).symm)
          | error =>
            simp only [select] at taken
            exact Or.inl (Option.some.inj taken).symm
        · exact Or.inr (Or.inr (Option.some.inj taken).symm)
    rw [turns]
    rcases results with rfl | rfl | rfl
    · exact missBody_quietTurns
    · exact Nat.zero_lt_succ _
    · exact Nat.zero_lt_succ _
  | recovery recoveryAttempts recoveredBytes bytesMissing =>
    simp only [phase, recoveryTurn] at taken
    have turns : connection.quietTurns = 10 - recoveryAttempts + 1 := by
      rw [quietTurns, phase]
    have results : next = connection.leaveRecovery recoveredBytes ∨
        recoveryAttempts < 10 ∧ next = { connection with
          phase := .recovery (recoveryAttempts + 2) recoveredBytes bytesMissing } := by
      rcases quiet with ended | ⟨blocked, -⟩
      · simp only [ended, ite_self] at taken
        exact Or.inl (Option.some.inj taken).symm
      · simp only [blocked] at taken
        split_ifs at taken with more
        · exact Or.inr ⟨more.1, (Option.some.inj taken).symm⟩
        · exact Or.inl (Option.some.inj taken).symm
    rw [turns]
    rcases results with rfl | ⟨more, rfl⟩
    · rw [quietTurns_leave]
      exact Nat.zero_lt_succ _
    · dsimp only [quietTurns]
      omega
  | keepAliveHead =>
    simp only [phase, keepAliveHeadTurn] at taken
    have closed : next = connection.close := by
      rcases quiet with ended | ⟨blocked, -⟩
      · simp only [ended] at taken
        split_ifs at taken <;> exact (Option.some.inj taken).symm
      · simp only [blocked] at taken
        split_ifs at taken <;> exact (Option.some.inj taken).symm
    rw [closed]
    simp [quietTurns, close, phase]
  | keepAliveBody =>
    simp only [phase, keepAliveBodyTurn] at taken
    rcases quiet with ended | ⟨blocked, -⟩
    · simp only [ended] at taken
      split_ifs at taken <;> cases taken <;>
        simp [quietTurns, close, phase]
    · simp only [blocked] at taken
      split_ifs at taken <;> cases taken <;>
        simp [quietTurns, close, phase]
  | handling | closed => simp [phase] at taken

theorem leavesRoom_of_quiet (quiet : turn.Quiet connection.requestStartTime) :
    connection.LeavesRoom (.read turn) := by
  intro _ nonempty
  rcases quiet with ended | ⟨blocked, -⟩
  · exact absurd (by rw [Turn.bytes, ended]) nonempty
  · exact absurd (by rw [Turn.bytes, blocked]) nonempty

theorem Lawful.terminates (lawful : connection.Lawful) : connection.Terminates := by
  refine ⟨connection.quietTurns, ?_⟩
  intro turns
  induction turns generalizing connection with
  | nil =>
    intro _ _
    exact Nat.zero_le _
  | cons turn turns ih =>
    intro quiet goesOn
    obtain ⟨last, reached⟩ := Option.isSome_iff_exists.mp goesOn
    obtain ⟨next, taken, rest⟩ := Option.bind_eq_some_iff.mp reached
    have first := quiet turn List.mem_cons_self
    have kept : next.Lawful :=
      clientStep_lawful connection (.read turn) next lawful (leavesRoom_of_quiet first) taken
    have fewer := readTurn_quiet lawful first taken
    have sameStart := (readTurn_continues taken).requestStartTime
    have others := ih kept
      (fun other member => sameStart ▸ quiet other (List.mem_cons_of_mem turn member))
      (by rw [rest]; rfl)
    rw [List.length_cons]
    omega

/-- A run is sound just where every step leaves room. -/
theorem readingLoops_sound_iff (requestStartTime : Int) (events : List ClientEvent)
    (connection : Connection)
    (reached : runFrom clientStep (start requestStartTime) events = some connection) :
    connection.Sound ↔ EveryStep clientStep LeavesRoom (start requestStartTime) events := by
  have notOverflown := runFrom_iff_of_invariant clientStep_lawful
    (fun _ _ _ lawful full taken => clientStep_overflown lawful full taken)
    (fun _ _ _ overflown taken => Overflown.mono overflown (clientStep_writes taken))
    (fun _ lawful ⟨write, member, outside⟩ => outside (lawful.inBounds write member))
    (start_lawful requestStartTime) reached
  rw [← notOverflown]
  constructor
  · rintro sound ⟨write, member, outside⟩
    exact outside (sound.inBounds write member)
  · intro inside
    have lawful : connection.Lawful :=
      invariant_runFrom clientStep_lawful (start_lawful requestStartTime)
        (notOverflown.mp inside) reached
    exact ⟨lawful.inBounds, lawful.terminates⟩

end Connection

def Turn.reading (bytes : Bytes) : Turn where
  time := 0
  read := .bytes bytes
  select := .ready
  later := 0
  block := none

def twoPieces : List ClientEvent :=
  [.read (.reading (ascii "GET /x HT")), .read (.reading (ascii "TP/1.1" ++ [13, 10, 13, 10])),
    .handle [] true]

theorem readingLoops_sound_iff_twoPieces :
    ∃ connection, runFrom clientStep (Connection.start 0) twoPieces = some connection ∧
      (connection.Sound ↔
        EveryStep clientStep Connection.LeavesRoom (Connection.start 0) twoPieces) := by
  have runs : (runFrom clientStep (Connection.start 0) twoPieces).isSome = true := by
    decide +kernel
  obtain ⟨connection, reached⟩ := Option.isSome_iff_exists.mp runs
  exact ⟨connection, reached,
    Connection.readingLoops_sound_iff 0 twoPieces connection reached⟩

theorem not_sound_of_full {bytes : Bytes} (full : bytes.length = 4096) :
    ∃ connection,
      runFrom clientStep (Connection.start 0) [.read (.reading bytes)] = some connection ∧
        ¬ connection.Sound := by
  have delivers : (Connection.start 0).Delivers bytes := by
    constructor
    · rintro rfl
      cases full
    · rw [full]
      decide
  have taken : (Connection.start 0).headTurn (.reading bytes) =
      some ((Connection.start 0).receiveHead .body none bytes) := by
    have room : (Connection.start 0).totalBytesRead < (Connection.start 0).bufferSize := by
      decide
    have inTime :
        ¬ (Turn.reading bytes).time - (Connection.start 0).requestStartTime > maxRequestTime := by
      change ¬ (0 : Int) - 0 > maxRequestTime
      decide
    rw [Connection.headTurn, if_pos room, if_neg inTime]
    exact if_pos delivers
  refine ⟨(Connection.start 0).receiveHead .body none bytes, ?_, ?_⟩
  · exact congrArg (fun step => Option.bind step some) taken
  · intro sound
    have overflown : ((Connection.start 0).receive bytes).Overflown := by
      apply Connection.receive_overflown
      rw [full]
      exact Nat.le_refl _
    obtain ⟨write, member, outside⟩ := overflown.mono (Connection.receiveHead_continues _ _ _).writes
    exact outside (sound.inBounds write member)

theorem not_sound_fullBuffer :
    ∃ connection,
      runFrom clientStep (Connection.start 0) [.read (.reading (List.replicate 4096 65))] =
          some connection ∧
        ¬ connection.Sound :=
  not_sound_of_full List.length_replicate

end Jdbx
