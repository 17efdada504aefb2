import Jdbx.Rbac.SessionDocuments

/-!
# Validations and invalidations

What a validation may return while others invalidate.  The invariant says of
every stored session which call created it and whether an invalidation has
written it, and of every thread what the text it is going to write would say.
-/

namespace Jdbx

open Library

variable {δ : Type}

/-- What a call of `rbac_db_validate_session` may return: the user of a session
that was created with the token and had not been invalidated when the call
queried the store. -/
structure Justified (past : List SessionEvent) (asked : Nat) (token userId uuid : Bytes) :
    Prop where
  earlier : asked ≤ past.length
  created : .created uuid token userId ∈ past
  valid : .invalidated uuid ∉ past.take asked

def SessionsSound (past : List SessionEvent) : Prop :=
  ∀ asked token userId session, .validated asked token userId session ∈ past →
    ∃ uuid, session = some uuid ∧ Justified past asked token userId uuid

/-- A `last_seen` update does not overwrite the first invalidation of its session:
that did not come behind its read. -/
def SessionPhase.Undisturbed (past : List SessionEvent) : SessionPhase → Prop
  | write (.lastSeen _ _ _ uuid) _ since =>
      .invalidated uuid ∈ past.drop since → .invalidated uuid ∈ past.take since
  | _ => True

instance (past : List SessionEvent) : DecidablePred (SessionPhase.Undisturbed past)
  | .write (.lastSeen _ _ _ _) _ _ => inferInstanceAs (Decidable (_ ∈ _ → _ ∈ _))
  | .write (.invalidation _ _) _ _ | .idle | .lookUser _ | .insert _ _ | .find _ | .findAll _
  | .read _ => inferInstanceAs (Decidable True)

def SessionCall.IsPlain : SessionCall → Prop
  | createSession request => Plain request.userId ∧ Plain request.token
  | validateSession _ | invalidateSession _ | invalidateSessionsByToken _ => True

instance : DecidablePred SessionCall.IsPlain
  | .createSession _ => inferInstanceAs (Decidable (_ ∧ _))
  | .validateSession _ | .invalidateSession _ | .invalidateSessionsByToken _ =>
      inferInstanceAs (Decidable True)

def SessionState.Undisturbed (state : SessionState δ) : SessionStep → Prop
  | .call _ call => call.IsPlain
  | .goOn thread _ _ => (state.threads thread).Undisturbed state.past

instance (state : SessionState δ) : DecidablePred state.Undisturbed
  | .call _ call => inferInstanceAs (Decidable call.IsPlain)
  | .goOn thread _ _ => inferInstanceAs (Decidable ((state.threads thread).Undisturbed state.past))

/-! ## The invariant -/

section Laws

variable {past events : List SessionEvent}

theorem Justified.append {asked : Nat} {token userId uuid : Bytes}
    (justified : Justified past asked token userId uuid) (events : List SessionEvent) :
    Justified (past ++ events) asked token userId uuid where
  earlier := by
    rw [List.length_append]
    exact justified.earlier.trans (Nat.le_add_right _ _)
  created := List.mem_append_left _ justified.created
  valid := by
    rw [List.take_append_of_le_length justified.earlier]
    exact justified.valid

def SessionUpdate.Law (past : List SessionEvent) : SessionUpdate → Prop
  | lastSeen asked token userId uuid => Justified past asked token userId uuid
  | invalidation _ _ => True

def SessionUpdate.Dead (past : List SessionEvent) (since : Nat) (update : SessionUpdate) : Prop :=
  update.deadAfter (.invalidated update.uuid ∈ past.take since)

variable [CDouble δ]

def SessionPhase.Law (δ : Type) [CDouble δ] (past : List SessionEvent) : SessionPhase → Prop
  | idle | find _ | findAll _ => True
  | lookUser request | insert request _ => Plain request.userId ∧ Plain request.token
  | read update => update.Law past
  | write update text since =>
      update.Law past ∧ since ≤ past.length ∧
        TextLaw δ past (update.Dead past since) update.uuid text

theorem SessionUpdate.Law.append {update : SessionUpdate} (law : update.Law past)
    (events : List SessionEvent) : update.Law (past ++ events) := by
  cases update with
  | lastSeen asked token userId uuid => exact Justified.append law events
  | invalidation uuid others => trivial

theorem SessionPhase.Law.append {phase : SessionPhase} (law : phase.Law δ past)
    (events : List SessionEvent) : phase.Law δ (past ++ events) := by
  cases phase with
  | idle | find _ | findAll _ => trivial
  | lookUser request | insert request _ => exact law
  | read update => exact SessionUpdate.Law.append law events
  | write update text since =>
      obtain ⟨updateLaw, earlier, textLaw⟩ := law
      refine ⟨updateLaw.append events, ?_, ?_⟩
      · rw [List.length_append]
        exact earlier.trans (Nat.le_add_right _ _)
      · refine textLaw.mono (List.subset_append_left _ _) ?_
        rw [SessionUpdate.Dead, SessionUpdate.Dead, List.take_append_of_le_length earlier]
        exact id

theorem next_law (update : SessionUpdate) : update.next.Law δ past := by
  cases update with
  | lastSeen => trivial
  | invalidation uuid others => cases others <;> trivial

/-- The documents obey the law, and so does what the threads know. -/
structure SessionState.Lawful (state : SessionState δ) : Prop where
  documents : ∀ uuid text, skiplistSearch state.db.documents uuid = some text →
    TextLaw δ state.past (.invalidated uuid ∈ state.past) uuid text
  present : ∀ uuid, .invalidated uuid ∈ state.past →
    (skiplistSearch state.db.documents uuid).isSome
  phases : ∀ thread, (state.threads thread).Law δ state.past
  sound : SessionsSound state.past

namespace SessionState

variable {state : SessionState δ} {update : SessionUpdate}

theorem Lawful.move (lawful : state.Lawful) (thread : Nat) {phase : SessionPhase}
    {events : List SessionEvent} (db : Database δ)
    (documents : ∀ uuid text, skiplistSearch db.documents uuid = some text →
      TextLaw δ (state.past ++ events) (.invalidated uuid ∈ state.past ++ events) uuid text)
    (present : ∀ uuid, .invalidated uuid ∈ state.past ++ events →
      (skiplistSearch db.documents uuid).isSome)
    (phaseLaw : phase.Law δ (state.past ++ events))
    (sound : ∀ asked token userId session, .validated asked token userId session ∈ events →
      ∃ uuid, session = some uuid ∧ Justified (state.past ++ events) asked token userId uuid) :
    Lawful { state.advance thread phase events with db } where
  documents := documents
  present := present
  phases := by
    intro other
    change (Function.update state.threads thread phase other).Law δ (state.past ++ events)
    by_cases same : other = thread
    · rw [same, Function.update_self]
      exact phaseLaw
    · rw [Function.update_of_ne same]
      exact (lawful.phases other).append events
  sound := by
    intro asked token userId session member
    rcases List.mem_append.mp member with old | new
    · obtain ⟨uuid, same, justified⟩ := lawful.sound asked token userId session old
      exact ⟨uuid, same, justified.append events⟩
    · exact sound asked token userId session new

theorem Lawful.documents_append (lawful : state.Lawful) {events : List SessionEvent}
    (valid : ∀ uuid, .invalidated uuid ∉ events) (uuid text : Bytes)
    (stored : skiplistSearch state.db.documents uuid = some text) :
    TextLaw δ (state.past ++ events) (.invalidated uuid ∈ state.past ++ events) uuid text := by
  refine (lawful.documents uuid text stored).mono (List.subset_append_left _ _) fun dead => ?_
  exact (List.mem_append.mp dead).resolve_right (valid uuid)

theorem Lawful.advance (lawful : state.Lawful) (thread : Nat) {phase : SessionPhase}
    (phaseLaw : phase.Law δ state.past) : (state.advance thread phase []).Lawful := by
  refine lawful.move thread state.db ?_ ?_ ?_ fun _ _ _ _ member => nomatch member
  · exact lawful.documents_append fun _ => List.not_mem_nil
  · rw [List.append_nil]
    exact lawful.present
  · rw [List.append_nil]
    exact phaseLaw

theorem start_lawful {documents : DocumentList}
    (initial : ∀ entry ∈ documents.entries, ∀ value : JsonValue δ, jsonParse entry.2 = some value →
      NumberFree value ∧ jsonObjectGet value (ascii "type") ≠ some (.string (ascii "session"))) :
    (start documents : SessionState δ).Lawful where
  documents := fun uuid text stored value read => by
    obtain ⟨numberFree, noSession⟩ := initial (uuid, text) (mem_of_getEntry_eq_some stored) value read
    exact ⟨numberFree, fun isSession => absurd isSession noSession⟩
  present := fun _ member => nomatch member
  phases := fun _ => trivial
  sound := fun _ _ _ _ member => nomatch member

theorem Lawful.call (lawful : state.Lawful) {call : SessionCall} (isPlain : call.IsPlain)
    (thread : Nat) : (state.advance thread call.phase []).Lawful := by
  apply lawful.advance thread
  cases call with
  | createSession request => exact isPlain
  | validateSession _ | invalidateSession _ | invalidateSessionsByToken _ => trivial

theorem Lawful.insertSession (lawful : state.Lawful) (calendar : Calendar) (moment : Moment)
    (thread : Nat) {request : SessionRequest} (username : Option Bytes)
    (plain : Plain request.userId ∧ Plain request.token) :
    (state.insertSession calendar moment thread request username).Lawful := by
  obtain ⟨stored, isNew, ownUuid, inserted⟩ := virtualInsert_stores (δ := δ)
    (sessionDocument_isNew calendar moment.now request username) moment state.db
    (ascii "session") (ascii "system") (ascii "sessions") (ascii "system")
  have valid : ∀ uuid, SessionEvent.invalidated uuid ∉
      if (skiplistSearch state.db.documents (documentUuid moment)).isNone then
        [SessionEvent.created (documentUuid moment) request.token request.userId] else [] := by
    intro uuid member
    split_ifs at member <;> simp at member
  refine lawful.move thread _ ?_ ?_ trivial fun _ _ _ _ member => ?_
  · intro uuid text found
    rw [inserted] at found
    cases held : skiplistSearch state.db.documents (documentUuid moment) with
    | some old =>
        rw [skiplistInsert_of_stored held] at found
        rw [held] at valid
        exact lawful.documents_append valid uuid text found
    | none =>
        rw [held] at valid
        by_cases same : uuid = documentUuid moment
        · subst same
          rw [skiplistSearch_insert_self held] at found
          cases found
          refine isNew.law plain ownUuid (by simp) fun dead => ?_
          have before := (List.mem_append.mp dead).resolve_right (valid _)
          have stays := lawful.present _ before
          rw [held] at stays
          cases stays
        · rw [skiplistSearch_insert_of_ne same] at found
          exact lawful.documents_append valid uuid text found
  · intro uuid dead
    obtain ⟨text, held⟩ := Option.isSome_iff_exists.mp
      (lawful.present uuid ((List.mem_append.mp dead).resolve_right (valid uuid)))
    rw [inserted, skiplistSearch_insert_of_stored held]
    rfl
  · split_ifs at member <;> simp at member

theorem Lawful.found (lawful : state.Lawful) {token userId : Bytes} {session : JsonValue δ}
    (found : session ∈ state.foundSessions token)
    (user : jsonObjectGet session (ascii "user_id") = some (.string userId)) :
    ∃ uuid, sessionId session = some uuid ∧
      Justified state.past state.past.length token userId uuid := by
  obtain ⟨uuid, text, stored, read, type, hasToken, active⟩ := foundSessions_spec found
  obtain ⟨createdToken, createdUser, created, _, _, _, ownUuid, ownToken, ownUser, dead⟩ :=
    (lawful.documents uuid text stored session read).session type
  rw [hasToken, Option.some.injEq, JsonValue.string.injEq] at ownToken
  rw [user, Option.some.injEq, JsonValue.string.injEq] at ownUser
  subst ownToken ownUser
  refine ⟨uuid, by rw [sessionId, ownUuid]; rfl, Nat.le_refl _, created, ?_⟩
  rw [List.take_length]
  exact fun isDead => dead isDead active

theorem Lawful.findSession (lawful : state.Lawful) (thread : Nat) (token : Bytes)
    (granted : Bool) : (state.findSession thread token granted).Lawful := by
  rw [SessionState.findSession]
  split
  · exact lawful.advance thread trivial
  · rename_i session others sessions
    split
    · rename_i userId user
      have member : session ∈ state.foundSessions token := by
        rw [sessions]
        exact List.mem_cons_self
      obtain ⟨uuid, own, justified⟩ := lawful.found member user
      simp only [own]
      exact lawful.advance thread justified
    · exact lawful.advance thread trivial

omit [CDouble δ] in
theorem happened_sound (law : update.Law state.past) (updated : Bool) (asked : Nat)
    (token userId : Bytes) (session : Option Bytes)
    (member : .validated asked token userId session ∈ update.happened updated) :
    ∃ uuid, session = some uuid ∧
      Justified (state.past ++ update.happened updated) asked token userId uuid := by
  cases update with
  | lastSeen seen seenToken seenUser uuid =>
      simp only [SessionUpdate.happened, List.mem_singleton, SessionEvent.validated.injEq] at member
      obtain ⟨rfl, rfl, rfl, rfl⟩ := member
      exact ⟨uuid, rfl, Justified.append law _⟩
  | invalidation uuid others => cases updated <;> simp [SessionUpdate.happened] at member

theorem Lawful.readForUpdate (lawful : state.Lawful) (calendar : Calendar) (moment : Moment)
    (thread : Nat) (law : update.Law state.past) (granted : Bool) :
    (state.readForUpdate calendar moment thread update granted).Lawful := by
  unfold SessionState.readForUpdate
  split
  · rename_i existing stored
    obtain ⟨text, held, read⟩ := Option.bind_eq_some_iff.mp stored
    apply lawful.advance thread
    refine ⟨law, Nat.le_refl _, ?_⟩
    rw [update.fields_document, SessionUpdate.Dead, List.take_length]
    exact (lawful.documents update.uuid text held).updated read calendar moment update
  · have valid : ∀ uuid, SessionEvent.invalidated uuid ∉ update.happened false := by
      intro uuid
      cases update <;> simp [SessionUpdate.happened]
    refine lawful.move thread state.db (lawful.documents_append valid) ?_ (next_law update)
      (happened_sound law false)
    exact fun uuid dead => lawful.present uuid ((List.mem_append.mp dead).resolve_right (valid uuid))

theorem Lawful.writeUpdate (lawful : state.Lawful) (thread : Nat) {text : Bytes} {since : Nat}
    (law : (SessionPhase.write update text since).Law δ state.past)
    (undisturbed : (SessionPhase.write update text since).Undisturbed state.past) :
    (state.writeUpdate thread update text).Lawful := by
  obtain ⟨updateLaw, earlier, textLaw⟩ := law
  have only : ∀ uuid, SessionEvent.invalidated uuid ∈ update.happened true → uuid = update.uuid := by
    intro uuid member
    cases update <;> simp_all [SessionUpdate.happened, SessionUpdate.uuid]
  refine lawful.move thread _ ?_ ?_ (next_law update) (happened_sound updateLaw true)
  · intro uuid stored found
    by_cases same : uuid = update.uuid
    · subst same
      rw [skiplistSearch_replace_self] at found
      cases found
      refine textLaw.mono (List.subset_append_left _ _) fun dead => ?_
      cases update with
      | invalidation => trivial
      | lastSeen asked token userId uuid =>
          rcases List.mem_append.mp dead with before | now
          · rw [← List.take_append_drop since state.past, List.mem_append] at before
            exact before.elim id undisturbed
          · simp [SessionUpdate.happened] at now
    · rw [skiplistSearch_replace_of_ne same] at found
      refine (lawful.documents uuid stored found).mono (List.subset_append_left _ _) fun dead => ?_
      exact (List.mem_append.mp dead).resolve_right fun now => same (only uuid now)
  · intro uuid dead
    by_cases same : uuid = update.uuid
    · subst same
      rw [skiplistSearch_replace_self]
      rfl
    · rw [skiplistSearch_replace_of_ne same]
      exact lawful.present uuid
        ((List.mem_append.mp dead).resolve_right fun now => same (only uuid now))

theorem step_lawful (calendar : Calendar) :
    Keeps (fun state event => SessionState.step state calendar event) Undisturbed
      (Lawful (δ := δ)) := by
  intro state event next lawful undisturbed taken
  cases event with
  | call thread call =>
      simp only [step, Option.mem_def] at taken
      split at taken
      · cases taken
        exact lawful.call undisturbed thread
      · cases taken
  | goOn thread moment granted =>
      have law := lawful.phases thread
      change (state.threads thread).Undisturbed state.past at undisturbed
      simp only [step, Option.mem_def] at taken
      split at taken
      · cases taken
      · rename_i request phase
        cases taken
        rw [phase] at law
        exact lawful.advance thread law
      · rename_i request username phase
        rw [phase] at law
        split_ifs at taken <;> cases taken
        · exact lawful.insertSession calendar moment thread username law
        · exact lawful.advance thread trivial
      · cases taken
        exact lawful.findSession thread _ granted
      · cases taken
        apply lawful.advance thread
        generalize List.filterMap sessionId _ = sessions
        cases sessions <;> trivial
      · rename_i update phase
        cases taken
        rw [phase] at law
        exact lawful.readForUpdate calendar moment thread law granted
      · rename_i update text since phase
        cases taken
        rw [phase] at law undisturbed
        exact lawful.writeUpdate thread law undisturbed

end SessionState

/-- In an undisturbed run every validation that returns a user id returned it
for a reason. -/
theorem sessions_sound (calendar : Calendar) (documents : DocumentList)
    (steps : List SessionStep) (last : SessionState δ)
    (initial : ∀ entry ∈ documents.entries, ∀ value : JsonValue δ, jsonParse entry.2 = some value →
      NumberFree value ∧ jsonObjectGet value (ascii "type") ≠ some (.string (ascii "session")))
    (undisturbed : EveryStep (fun (state : SessionState δ) event => state.step calendar event)
      SessionState.Undisturbed (.start documents) steps)
    (reached : runFrom (fun (state : SessionState δ) event => state.step calendar event)
      (.start documents) steps = some last) :
    SessionsSound last.past :=
  (invariant_runFrom (SessionState.step_lawful calendar) (SessionState.start_lawful initial)
    undisturbed reached).sound

end Laws

def sampleCalendar : Calendar :=
  fun _ => ascii "1970-01-01T00:00:00Z"

def sampleRequest (token : Bytes) : SessionRequest where
  userId := ascii "u"
  token := token
  expiresAt := 100
  ipAddress := none
  userAgent := none

def sampleRun (steps : List SessionStep) : Option (SessionState Rat) :=
  runFrom (fun (state : SessionState Rat) event => state.step sampleCalendar event)
    (.start .empty) steps

def SessionStep.next (thread : Nat) : SessionStep :=
  .goOn thread ⟨1, 7⟩ true

def sampleSession : Bytes :=
  documentUuid ⟨1, 7⟩

def invalidatedSteps : List SessionStep :=
  [.call 0 (.createSession (sampleRequest (ascii "t"))), .next 0, .next 0,
    .call 1 (.invalidateSessionsByToken (ascii "t")), .call 0 (.validateSession (ascii "t")),
    .next 0, .next 1, .next 0, .next 0, .next 1, .next 1,
    .call 0 (.validateSession (ascii "t")), .next 0]

theorem sessions_sound_invalidatedSteps :
    ∃ last, sampleRun invalidatedSteps = some last ∧
      last.past = [.created sampleSession (ascii "t") (ascii "u"),
        .validated 1 (ascii "t") (ascii "u") (some sampleSession),
        .invalidated sampleSession] ∧
          SessionsSound last.past := by
  have reaches : (sampleRun invalidatedSteps).map SessionState.past =
      some [.created sampleSession (ascii "t") (ascii "u"),
        .validated 1 (ascii "t") (ascii "u") (some sampleSession),
        .invalidated sampleSession] := by
    decide +kernel
  obtain ⟨last, reached, past⟩ := Option.map_eq_some_iff.mp reaches
  refine ⟨last, reached, past, ?_⟩
  exact sessions_sound sampleCalendar .empty invalidatedSteps last (fun _ member => nomatch member)
    (by decide +kernel) reached

/-- One thread invalidates the session between the read and the write of
another's `last_seen` update. -/
def overwrittenSteps : List SessionStep :=
  [.call 0 (.createSession (sampleRequest (ascii "t"))), .next 0, .next 0,
    .call 0 (.validateSession (ascii "t")), .next 0, .next 0,
    .call 1 (.invalidateSession sampleSession), .next 1, .next 1, .next 0,
    .call 0 (.validateSession (ascii "t")), .next 0, .next 0, .next 0]

/-- A session is created with the token `a"` and asked for with `a\"`. -/
def escapedSteps : List SessionStep :=
  [.call 0 (.createSession (sampleRequest [0x61, 0x22])), .next 0, .next 0,
    .call 0 (.validateSession [0x61, 0x5c, 0x22]), .next 0, .next 0, .next 0]

theorem not_sessionsSound_overwritten :
    (∃ last, sampleRun overwrittenSteps = some last ∧ ¬ SessionsSound last.past) ∧
      ∃ last, sampleRun escapedSteps = some last ∧ ¬ SessionsSound last.past := by
  have overwritten : (sampleRun overwrittenSteps).map SessionState.past =
      some [.created sampleSession (ascii "t") (ascii "u"), .invalidated sampleSession,
        .validated 1 (ascii "t") (ascii "u") (some sampleSession),
        .validated 3 (ascii "t") (ascii "u") (some sampleSession)] := by
    decide +kernel
  have escaped : (sampleRun escapedSteps).map SessionState.past =
      some [.created sampleSession [0x61, 0x22] (ascii "u"),
        .validated 1 [0x61, 0x5c, 0x22] (ascii "u") (some sampleSession)] := by
    decide +kernel
  constructor
  · obtain ⟨last, reached, past⟩ := Option.map_eq_some_iff.mp overwritten
    refine ⟨last, reached, fun sound => ?_⟩
    rw [past] at sound
    obtain ⟨uuid, same, justified⟩ := sound 3 (ascii "t") (ascii "u") (some sampleSession) (by simp)
    cases same
    exact justified.valid (by simp)
  · obtain ⟨last, reached, past⟩ := Option.map_eq_some_iff.mp escaped
    refine ⟨last, reached, fun sound => ?_⟩
    rw [past] at sound
    obtain ⟨uuid, _, justified⟩ :=
      sound 1 [0x61, 0x5c, 0x22] (ascii "u") (some sampleSession) (by simp)
    simpa using justified.created

end Jdbx
