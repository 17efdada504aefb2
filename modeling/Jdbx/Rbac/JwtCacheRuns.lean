import Jdbx.Library.GuardedRun
import Jdbx.Library.HexText
import Jdbx.Rbac.JwtCache

/-!
# Runs of the cache

Any sequence of puts, gets, invalidations, clean-ups and configurations.  A run
keeps its past, newest event first, so that an answer can be compared with what
was put and invalidated before.
-/

namespace Jdbx

open Library

variable {δ : Type}

inductive JwtCacheEvent (δ : Type) where
  | put (now : Int64) (token : Bytes) (claims : JwtPayload δ) (userId : Option Bytes)
      (memory : EntryMemory)
  | get (now : Int64) (token : Bytes) (memory : DuplicateMemory)
  | invalidateToken (token : Bytes)
  | invalidateUser (userId : Bytes)
  | cleanup (now : Int64)
  | configure (bucketCount ttlSeconds maxEntries : Int32)

namespace JwtCacheEvent

def token : JwtCacheEvent δ → Option Bytes
  | put _ token _ _ _ | get _ token _ | invalidateToken token => some token
  | invalidateUser _ | cleanup _ | configure _ _ _ => none

def Invalidates (event : JwtCacheEvent δ) (token : Bytes) (userId : Option Bytes) : Prop :=
  match event with
  | invalidateToken other => other = token
  | invalidateUser other => userId = some other
  | put _ _ _ _ _ | get _ _ _ | cleanup _ | configure _ _ _ => False

end JwtCacheEvent

/-- These claims were put for the token and the user, and neither has been
invalidated since. -/
inductive StandsPut (token : Bytes) (claims : JwtPayload δ) (userId : Option Bytes) :
    List (JwtCacheEvent δ) → Prop
  | put (now : Int64) (memory : EntryMemory) (past : List (JwtCacheEvent δ)) :
      StandsPut token claims userId (.put now token claims userId memory :: past)
  | later (event : JwtCacheEvent δ) (past : List (JwtCacheEvent δ)) :
      ¬ event.Invalidates token userId → StandsPut token claims userId past →
        StandsPut token claims userId (event :: past)

def lastPut (token : Bytes) : List (JwtCacheEvent δ) → Option Int64
  | [] => none
  | .put now other _ _ _ :: past => if other = token then some now else lastPut token past
  | _ :: past => lastPut token past

structure JwtCacheRun (δ : Type) where
  cache : JwtCache δ
  past : List (JwtCacheEvent δ)

/-- A cache that `jwt_cache_init` has just set up. -/
def JwtCacheRun.start (config : JwtCacheConfig) (maxEntries : UInt64) : JwtCacheRun δ where
  cache := jwtCacheInit config maxEntries
  past := []

def jwtCacheAfter (sha256 : Sha256) (cache : JwtCache δ) :
    JwtCacheEvent δ → Option (JwtCache δ)
  | .put now token claims userId memory => jwtCachePut sha256 cache now token claims userId memory
  | .get now token memory => (jwtCacheGet sha256 cache now token memory).map fun _ => cache
  | .invalidateToken token => jwtCacheInvalidateToken sha256 cache token
  | .invalidateUser userId => some (jwtCacheInvalidateUser cache userId)
  | .cleanup now => some (jwtCacheCleanup cache now)
  | .configure bucketCount ttlSeconds _ =>
      some { cache with config := jwtCacheConfigure bucketCount ttlSeconds }

def jwtCacheStep (sha256 : Sha256) (run : JwtCacheRun δ) (event : JwtCacheEvent δ) :
    Option (JwtCacheRun δ) :=
  (jwtCacheAfter sha256 run.cache event).map fun cache => { cache, past := event :: run.past }

/-- The entry of each token that the event works on is in the bucket that the
configured count gives, a full cache has a last entry to evict, and no copy of a
part is refused. -/
def JwtCacheRun.InPlace (sha256 : Sha256) (run : JwtCacheRun δ) : JwtCacheEvent δ → Prop
  | .put _ token _ userId memory =>
      run.cache.Placed (hashToken sha256 token) ∧
        ((∀ pointer ∈ run.cache.order,
          (run.cache.entryAt pointer).tokenHash ≠ some (hashToken sha256 token)) →
            run.cache.HasRoom) ∧
          (userId.isSome → memory.userId = true)
  | .get _ token memory =>
      run.cache.config.bucketIndex (hashToken sha256 token) < run.cache.buckets.length ∧
        memory.isComplete = true
  | .invalidateToken token => run.cache.Placed (hashToken sha256 token)
  | .invalidateUser _ | .cleanup _ | .configure _ _ _ => True

instance (sha256 : Sha256) (run : JwtCacheRun δ) : DecidablePred (run.InPlace sha256)
  | .put _ _ _ _ _ => inferInstanceAs (Decidable (_ ∧ _ ∧ _))
  | .get _ _ _ => inferInstanceAs (Decidable (_ ∧ _))
  | .invalidateToken token => inferInstanceAs (Decidable (run.cache.Placed (hashToken sha256 token)))
  | .invalidateUser _ | .cleanup _ | .configure _ _ _ => inferInstanceAs (Decidable True)

/-- What a get may answer: a whole copy of claims that stand put, before their
expiry and within the time to live since the last put. -/
def JwtCacheRun.Answers (sha256 : Sha256) (run : JwtCacheRun δ) : JwtCacheEvent δ → Prop
  | .get now token memory =>
      ∃ answer, jwtCacheGet sha256 run.cache now token memory = some answer ∧
        ∀ payload ∈ answer, ∃ claims userId time, StandsPut token claims userId run.past ∧
          payload = { claims with claims := jsonCloneEntries [] claims.claims } ∧
            now.toInt < claims.exp.toInt ∧ lastPut token run.past = some time ∧
              now.toInt < time.toInt + run.cache.config.ttlSeconds.toInt
  | .put _ _ _ _ _ | .invalidateToken _ | .invalidateUser _ | .cleanup _ | .configure _ _ _ => True

theorem hashToken_injective {sha256 : Sha256} {first second : Bytes}
    (same : hashToken sha256 first = hashToken sha256 second) : sha256 first = sha256 second := by
  have digits : toHex (sha256 first).toList = toHex (sha256 second).toList := same
  exact Vector.toList_inj.mp (toHex_injective digits)

def JwtCacheEvent.Touches (sha256 : Sha256) (event : JwtCacheEvent δ) (entry : JwtCacheEntry δ) :
    Prop :=
  match event with
  | put _ token _ _ _ | invalidateToken token => entry.tokenHash = some (hashToken sha256 token)
  | invalidateUser userId => entry.userId = some userId
  | get _ _ _ | cleanup _ | configure _ _ _ => False

def RecordedEntry (sha256 : Sha256) (tokens : List Bytes) (past : List (JwtCacheEvent δ))
    (entry : JwtCacheEntry δ) : Prop :=
  ∃ token claims, token ∈ tokens ∧ StandsPut token claims entry.userId past ∧
    entry.tokenHash = some (hashToken sha256 token) ∧ entry.claims = some claims ∧
      entry.expiry = claims.exp ∧ lastPut token past = some entry.cachedAt

section Records

variable {sha256 : Sha256} {tokens : List Bytes} {past : List (JwtCacheEvent δ)}
  {entry : JwtCacheEntry δ} {event : JwtCacheEvent δ}

theorem RecordedEntry.later (recorded : RecordedEntry sha256 tokens past entry)
    (untouched : ¬ event.Touches sha256 entry) : RecordedEntry sha256 tokens (event :: past) entry := by
  obtain ⟨token, claims, member, stands, hash, held, expiry, last⟩ := recorded
  refine ⟨token, claims, member, .later event past ?_ stands, hash, held, expiry, ?_⟩
  · intro invalidates
    cases event with
    | invalidateToken other =>
        obtain rfl : other = token := invalidates
        exact untouched hash
    | invalidateUser userId => exact untouched invalidates
    | _ => exact invalidates
  · cases event with
    | put now other claims userId memory =>
        have different : other ≠ token := by
          rintro rfl
          exact untouched hash
        rw [lastPut, if_neg different, last]
    | _ => exact last

end Records

/-- The cache is consistent, and every entry in it is recorded. -/
structure JwtCacheRun.Lawful (sha256 : Sha256) (tokens : List Bytes) (run : JwtCacheRun δ) :
    Prop where
  consistent : run.cache.Consistent
  recorded : ∀ pointer ∈ run.cache.order,
    RecordedEntry sha256 tokens run.past (run.cache.entryAt pointer)

namespace JwtCacheRun

variable {sha256 : Sha256} {tokens : List Bytes} {run : JwtCacheRun δ}
  {event : JwtCacheEvent δ}

theorem start_lawful (config : JwtCacheConfig) (maxEntries : UInt64) :
    (start config maxEntries : JwtCacheRun δ).Lawful sha256 tokens where
  consistent := JwtCache.jwtCacheInit_consistent config maxEntries
  recorded := fun _ member => nomatch member

theorem Lawful.shrinks (lawful : run.Lawful sha256 tokens) {after : JwtCache δ}
    (kept : after.Consistent) (shrinks : run.cache.Shrinks after)
    (untouched : ∀ pointer ∈ after.order, ¬ event.Touches sha256 (after.entryAt pointer)) :
    Lawful sha256 tokens { cache := after, past := event :: run.past } := by
  refine ⟨kept, fun pointer member => ?_⟩
  have recorded := lawful.recorded pointer (shrinks.subset pointer member)
  rw [← shrinks.entryAt pointer member] at recorded
  exact recorded.later (untouched pointer member)

theorem Lawful.put (lawful : run.Lawful sha256 tokens)
    (noCollision : ∀ first ∈ tokens, ∀ second ∈ tokens, sha256 first = sha256 second →
      first = second)
    {now : Int64} {token : Bytes} {claims : JwtPayload δ} {userId : Option Bytes}
    {memory : EntryMemory} (member : token ∈ tokens)
    (inPlace : run.InPlace sha256 (.put now token claims userId memory)) :
    ∃ after, jwtCachePut sha256 run.cache now token claims userId memory = some after ∧
      Lawful sha256 tokens
        { cache := after, past := .put now token claims userId memory :: run.past } := by
  obtain ⟨placed, hasRoom, userCopied⟩ := inPlace
  rcases jwtCachePut_spec lawful.consistent placed hasRoom now claims userId memory with
    ⟨found, inOrder, hash, result⟩ | ⟨absent, between, kept, shrinks, room, result⟩
  · obtain ⟨stampedKept, sameOrder, stamped, others⟩ := lawful.consistent.stamp now inOrder
    refine ⟨_, result, stampedKept, fun pointer inside => ?_⟩
    have old := (sameOrder pointer).mp inside
    by_cases same : pointer = found
    · obtain ⟨other, held, otherMember, stands, otherHash, holds, expiry, last⟩ :=
        lawful.recorded found inOrder
      have equal : other = token := by
        apply noCollision other otherMember token member
        apply hashToken_injective
        rw [hash] at otherHash
        exact (Option.some.inj otherHash).symm
      rw [same, stamped]
      refine ⟨other, held, otherMember, .later _ _ id stands, otherHash, holds, expiry, ?_⟩
      rw [lastPut, if_pos equal.symm]
    · change RecordedEntry _ _ _ ((run.cache.stamp now found).entryAt pointer)
      rw [others pointer same]
      refine (lawful.recorded pointer old).later fun touches => same ?_
      exact lawful.consistent.distinct pointer old found inOrder
        ((show (run.cache.entryAt pointer).tokenHash = _ from touches).trans hash.symm)
  · refine ⟨_, result, ?_⟩
    have untouched : ∀ pointer ∈ between.order,
        (between.entryAt pointer).tokenHash ≠ some (hashToken sha256 token) := by
      intro pointer inside
      rw [shrinks.entryAt pointer inside]
      exact absent pointer (shrinks.subset pointer inside)
    have stays : Lawful sha256 tokens
        { cache := between, past := .put now token claims userId memory :: run.past } :=
      lawful.shrinks kept shrinks untouched
    by_cases allocated : (memory.entry && memory.tokenHash) = true
    · rw [if_pos allocated]
      have inside : run.cache.config.bucketIndex (hashToken sha256 token) <
          between.buckets.length := by
        rw [shrinks.buckets]
        exact placed.1
      have copied : strdup memory.userId userId = userId := by
        cases userId with
        | none => exact ite_self none
        | some text => exact if_pos (userCopied rfl)
      have hash : (newEntry (hashToken sha256 token) claims (strdup memory.userId userId)
          now).tokenHash = some (hashToken sha256 token) := rfl
      obtain ⟨inserted, new, old⟩ := kept.insert inside room hash untouched
      refine ⟨inserted, fun pointer found => ?_⟩
      rcases List.mem_cons.mp found with rfl | found
      · change RecordedEntry _ _ _ ((between.insert _ _).entryAt between.heap.length)
        rw [new, copied]
        exact ⟨token, claims, member, .put now memory run.past, rfl, rfl, rfl, if_pos rfl⟩
      · change RecordedEntry _ _ _ ((between.insert _ _).entryAt pointer)
        rw [old pointer found]
        exact stays.recorded pointer found
    · rw [if_neg allocated]
      exact stays

theorem jwtCacheStep_lawful
    (noCollision : ∀ first ∈ tokens, ∀ second ∈ tokens, sha256 first = sha256 second →
      first = second)
    (lawful : run.Lawful sha256 tokens) (member : ∀ token ∈ event.token, token ∈ tokens)
    (inPlace : run.InPlace sha256 event) :
    ∃ next, jwtCacheStep sha256 run event = some next ∧ next.Lawful sha256 tokens := by
  suffices step : ∃ after, jwtCacheAfter sha256 run.cache event = some after ∧
      Lawful sha256 tokens { cache := after, past := event :: run.past } by
    obtain ⟨after, taken, kept⟩ := step
    exact ⟨_, by rw [jwtCacheStep, taken, Option.map_some], kept⟩
  cases event with
  | put now token claims userId memory => exact lawful.put noCollision (member token rfl) inPlace
  | get now token memory =>
      obtain ⟨answer, result, _⟩ := jwtCacheGet_spec lawful.consistent inPlace.1 now memory
      refine ⟨run.cache, ?_, lawful.shrinks lawful.consistent (.refl _) fun _ _ => id⟩
      rw [jwtCacheAfter, result, Option.map_some]
  | invalidateToken token =>
      obtain ⟨after, result, kept, shrinks, gone⟩ :=
        jwtCacheInvalidateToken_spec lawful.consistent inPlace
      exact ⟨after, result, lawful.shrinks kept shrinks gone⟩
  | invalidateUser userId =>
      obtain ⟨kept, shrinks, gone⟩ := JwtCache.sweep_spec lawful.consistent
        fun entry => entry.userId = some userId
      refine ⟨_, rfl, lawful.shrinks kept shrinks fun pointer inside touches => ?_⟩
      have stays := gone pointer inside
      rw [decide_eq_false_iff_not] at stays
      exact stays touches
  | cleanup now =>
      obtain ⟨kept, shrinks, _⟩ := JwtCache.sweep_spec lawful.consistent fun entry =>
        entry.expiry ≠ 0 && entry.cachedAt ≠ 0 &&
          (now ≥ entry.expiry || now ≥ entry.cachedAt + run.cache.config.ttlSeconds.toInt64)
      exact ⟨_, rfl, lawful.shrinks kept shrinks fun _ _ => id⟩
  | configure bucketCount ttlSeconds maxEntries =>
      have consistent := lawful.consistent
      refine ⟨_, rfl, ⟨?_, fun pointer inside => ?_⟩⟩
      · exact ⟨consistent.linked, consistent.inHeap, consistent.hashed, consistent.distinct,
          consistent.counted, consistent.bounded⟩
      · exact (lawful.recorded pointer inside).later id

theorem Lawful.answers (lawful : run.Lawful sha256 tokens)
    (noCollision : ∀ first ∈ tokens, ∀ second ∈ tokens, sha256 first = sha256 second →
      first = second)
    (member : ∀ token ∈ event.token, token ∈ tokens) (inPlace : run.InPlace sha256 event) :
    run.Answers sha256 event := by
  cases event with
  | get now token memory =>
      obtain ⟨answer, result, held⟩ := jwtCacheGet_spec lawful.consistent inPlace.1 now memory
      refine ⟨answer, result, fun payload hit => ?_⟩
      obtain ⟨pointer, inOrder, hash, fresh, claims, holds, duplicate⟩ := held payload hit
      obtain ⟨other, put, otherMember, stands, otherHash, puts, expiry, last⟩ :=
        lawful.recorded pointer inOrder
      have equal : other = token := by
        apply noCollision other otherMember token (member token rfl)
        apply hashToken_injective
        rw [hash] at otherHash
        exact (Option.some.inj otherHash).symm
      obtain rfl : put = claims := Option.some.inj (puts.symm.trans holds)
      subst equal
      obtain ⟨inTime, inTtl⟩ := JwtCache.isFresh_spec fresh
      rw [expiry] at inTime
      exact ⟨put, _, _, stands, jwtPayloadDuplicate_spec inPlace.2 duplicate, inTime, last, inTtl⟩
  | _ => trivial

end JwtCacheRun

theorem jwtCacheStep_past {sha256 : Sha256} {events : List (JwtCacheEvent δ)} :
    ∀ {start run : JwtCacheRun δ}, runFrom (jwtCacheStep sha256) start events = some run →
      run.past = events.reverse ++ start.past := by
  induction events with
  | nil =>
      intro start run reached
      cases reached
      rfl
  | cons event events ih =>
      intro start run reached
      obtain ⟨next, taken, rest⟩ := Option.bind_eq_some_iff.mp reached
      obtain ⟨cache, _, rfl⟩ := Option.map_eq_some_iff.mp taken
      rw [ih rest, List.reverse_cons, List.append_assoc]
      rfl

/-- A run whose events are in their place never indexes outside the array, ends
in a consistent cache, and every answer on the way is one that a get may give. -/
theorem jwtCache_sound (sha256 : Sha256) (config : JwtCacheConfig) (maxEntries : UInt64)
    (events : List (JwtCacheEvent δ))
    (noCollision : ∀ first ∈ events.filterMap JwtCacheEvent.token,
      ∀ second ∈ events.filterMap JwtCacheEvent.token, sha256 first = sha256 second →
        first = second)
    (inPlace : EveryStep (jwtCacheStep sha256) (JwtCacheRun.InPlace sha256)
      (.start config maxEntries) events) :
    (∃ run, runFrom (jwtCacheStep sha256) (.start config maxEntries) events = some run ∧
      run.cache.Consistent) ∧
      EveryStep (jwtCacheStep sha256) (JwtCacheRun.Answers sha256)
        (.start config maxEntries) events := by
  have start : (JwtCacheRun.start config maxEntries : JwtCacheRun δ).Lawful sha256
      (events.filterMap JwtCacheEvent.token) :=
    JwtCacheRun.start_lawful config maxEntries
  have named : ∀ event ∈ events, ∀ token ∈ event.token,
      token ∈ events.filterMap JwtCacheEvent.token :=
    fun event member token names => List.mem_filterMap.mpr ⟨event, member, names⟩
  constructor
  · obtain ⟨run, reached, lawful⟩ := EveryStep.total
      (fun _ event lawful holds => JwtCacheRun.jwtCacheStep_lawful noCollision lawful
        (named event holds.1) holds.2) start inPlace.and_mem
    exact ⟨run, reached, lawful.consistent⟩
  · refine EveryStep.of_keeps (fun _ event next lawful holds taken => ?_)
      (fun _ event lawful holds => lawful.answers noCollision (named event holds.1) holds.2)
      start inPlace.and_mem
    obtain ⟨other, reached, kept⟩ := JwtCacheRun.jwtCacheStep_lawful noCollision lawful
      (named event holds.1) holds.2
    obtain rfl : other = next := Option.some.inj (reached.symm.trans taken)
    exact kept

/-- The digests of two tokens. -/
def sampleSha256 (token : Bytes) : Vector UInt8 32 :=
  if token = ascii "a" then
    #v[0xca, 0x97, 0x81, 0x12, 0xca, 0x1b, 0xbd, 0xca, 0xfa, 0xc2, 0x31, 0xb3, 0x9a, 0x23, 0xdc,
      0x4d, 0xa7, 0x86, 0xef, 0xf8, 0x14, 0x7c, 0x4e, 0x72, 0xb9, 0x80, 0x77, 0x85, 0xaf, 0xee,
      0x48, 0xbb]
  else
    #v[0x3e, 0x23, 0xe8, 0x16, 0x00, 0x39, 0x59, 0x4a, 0x33, 0x89, 0x4f, 0x65, 0x64, 0xe1, 0xb1,
      0x34, 0x8b, 0xbd, 0x7a, 0x00, 0x88, 0xd4, 0x2c, 0x4a, 0xcb, 0x73, 0xee, 0xae, 0xd5, 0x9c,
      0x00, 0x9d]

def sampleClaims : JwtPayload Unit where
  iss := none
  sub := some (ascii "u")
  aud := none
  exp := 100
  nbf := 0
  iat := 0
  jti := none
  claims := []

def EntryMemory.granted : EntryMemory :=
  ⟨true, true, true⟩

def DuplicateMemory.granted : DuplicateMemory :=
  ⟨true, true, true, true, true⟩

def sampleEvents : List (JwtCacheEvent Unit) :=
  [.put 1 (ascii "a") sampleClaims (some (ascii "u")) .granted,
    .put 2 (ascii "b") sampleClaims (some (ascii "u")) .granted, .get 3 (ascii "b") .granted,
    .cleanup 4, .configure 3 50 1, .invalidateToken (ascii "a"), .get 5 (ascii "b") .granted,
    .invalidateUser (ascii "u"), .get 6 (ascii "b") .granted]

theorem jwtCache_sound_sampleEvents :
    (∃ run, runFrom (jwtCacheStep sampleSha256) (.start (jwtCacheConfigure 3 100) 1)
      sampleEvents = some run ∧ run.cache.Consistent) ∧
      EveryStep (jwtCacheStep sampleSha256) (JwtCacheRun.Answers sampleSha256)
        (.start (jwtCacheConfigure 3 100) 1) sampleEvents :=
  jwtCache_sound sampleSha256 (jwtCacheConfigure 3 100) 1 sampleEvents (by decide +kernel)
    (by decide +kernel)

def reconfiguredEvents : List (JwtCacheEvent Unit) :=
  [.put 1 (ascii "a") sampleClaims (some (ascii "u")) .granted, .configure 2 100 10,
    .invalidateToken (ascii "a"), .configure 3 100 10]

/-- The token is still answered for. -/
theorem not_sound_reconfigured :
    ∃ run payload,
      runFrom (jwtCacheStep sampleSha256) (.start (jwtCacheConfigure 3 100) 10)
          reconfiguredEvents = some run ∧
        jwtCacheGet sampleSha256 run.cache 2 (ascii "a") .granted = some (some payload) ∧
          ∀ claims userId, ¬ StandsPut (ascii "a") claims userId run.past := by
  have hits : ((runFrom (jwtCacheStep sampleSha256) (.start (jwtCacheConfigure 3 100) 10)
      reconfiguredEvents).bind fun run =>
        (jwtCacheGet sampleSha256 run.cache 2 (ascii "a") .granted).map Option.isSome) =
      some true := by
    decide +kernel
  obtain ⟨run, reached, answers⟩ := Option.bind_eq_some_iff.mp hits
  obtain ⟨answer, hit, isSome⟩ := Option.map_eq_some_iff.mp answers
  obtain ⟨payload, rfl⟩ := Option.isSome_iff_exists.mp isSome
  refine ⟨run, payload, reached, hit, fun claims userId stands => ?_⟩
  rw [jwtCacheStep_past reached] at stands
  cases stands with
  | later _ _ _ stands =>
      cases stands with
      | later _ _ kept _ => exact kept rfl

end Jdbx
