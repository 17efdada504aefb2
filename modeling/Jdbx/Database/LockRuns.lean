import Jdbx.Database.Deadlocks
import Jdbx.Library.GuardedRun

/-!
# Runs of the lock manager

Each critical section under `manager->lock` is one step: a call up to its
return or to its wait, and from then on each return of the wait.  A thread that
waits keeps the addresses of its entry and of its request; where the block
behind one of them is no longer an entry or a request of the table, the call
would read freed memory and the run ends.
-/

namespace Jdbx

open Library

/-- The local variables of a call that waits. -/
structure LockWaiter where
  shared : Bool
  entry : Nat
  request : Nat
  deriving DecidableEq, Repr

/-- `lock_manager_t` with the variables of its file, the transactions, and the
threads that wait.  The two lock functions have a retry count each. -/
structure LockManager where
  lockTable : LockTable
  deadlockDetection : Bool
  retryCount : Bool → Nat
  transactions : Nat → Transaction
  waiters : Nat → Option LockWaiter

def lockManagerCreate (deadlockDetection : Bool) (transactions : Nat → Transaction) :
    LockManager where
  lockTable := List.replicate 1024 []
  deadlockDetection := deadlockDetection
  retryCount _ := 0
  transactions := transactions
  waiters _ := none

/-! ## The calls -/

def findOrCreateEntry (table : LockTable) (key : LockKey) (address : Nat) :
    LockEntry × LockTable :=
  match findLockEntry table key with
  | some entry => (entry, table)
  | none => (createLockEntry address key, addLockEntry table (createLockEntry address key))

def isEntryAddress (table : LockTable) (address : Nat) : Bool :=
  table.flatten.any fun entry => entry.address == address

def isRequestAddress (table : LockTable) (address : Nat) : Bool :=
  table.flatten.any fun entry => entry.requestAddresses.contains address

/-- The lock functions up to the return of the immediate grant or to the wait.
The allocator may hand out any block that is not in use. -/
def acquireLock (shared : Bool) (compatible : LockEntry → LockRequest → Bool)
    (lockType : LockType) (manager : LockManager) (thread : Nat) (key : LockKey)
    (transaction entryAddress requestAddress : Nat) : Option (Option Bool × LockManager) :=
  if (manager.waiters thread).isSome || isEntryAddress manager.lockTable entryAddress ||
      isRequestAddress manager.lockTable requestAddress then none
  else
    let (entry, table) := findOrCreateEntry manager.lockTable key entryAddress
    let request := createLockRequest requestAddress transaction lockType
    if compatible entry request then
      some (some true,
        { manager with lockTable := storeEntry table (addGrantedRequest entry request) })
    else
      some (none,
        { manager with
          lockTable := storeEntry table (addWaitingRequest entry request)
          waiters := Function.update manager.waiters thread
            (some { shared, entry := entry.address, request := requestAddress }) })

/-- `lock_manager_lock_document`, which locks exclusively at every isolation
level. -/
def lockManagerLockDocument : LockManager → Nat → LockKey → Nat → Nat → Nat →
    Option (Option Bool × LockManager) :=
  acquireLock false isLockCompatible .exclusive

def lockManagerLockDocumentShared : LockManager → Nat → LockKey → Nat → Nat → Nat →
    Option (Option Bool × LockManager) :=
  acquireLock true (fun entry _ => entry.currentLockType ≠ .exclusive) .shared

def lockManagerUnlockDocument (manager : LockManager) (key : LockKey) (transaction : Nat) :
    Bool × LockManager :=
  match findLockEntry manager.lockTable key with
  | none => (false, manager)
  | some entry =>
      let (result, remaining) := removeGrantedRequest entry transaction
      let entry := if result then processWaitingRequests remaining else remaining
      let table := storeEntry manager.lockTable entry
      let table :=
        if entry.currentLockType = .none ∧ entry.waitingQueue = [] then
          removeLockEntry table entry.key
        else table
      (result, { manager with lockTable := table })

def finishWait (manager : LockManager) (thread : Nat) (entry : LockEntry) (request : Nat)
    (status : LockStatus) : Option Bool × LockManager :=
  let left := { manager with waiters := Function.update manager.waiters thread none }
  if status = .granted then
    (some true, { left with lockTable := storeEntry manager.lockTable entry })
  else
    (some false,
      { left with
        lockTable := storeEntry manager.lockTable (removeWaitingRequest entry request) })

def continueWait (manager : LockManager) (thread : Nat) (entry : LockEntry) (request : Nat)
    (status : LockStatus) : Option Bool × LockManager :=
  if status = .waiting then
    (none, { manager with lockTable := storeEntry manager.lockTable entry })
  else finishWait manager thread entry request status

def wakeUp (manager : LockManager) (thread : Nat) : Option (Option Bool × LockManager) :=
  (manager.waiters thread).bind fun waiter =>
    (entryAt manager.lockTable waiter.entry).bind fun entry =>
      let entry := processWaitingRequests entry
      (requestStatus entry waiter.request).map
        (continueWait manager thread entry waiter.request)

/-- The wait returns with `ETIMEDOUT`. -/
def timeOut (manager : LockManager) (thread rounds : Nat) :
    Option (Option Bool × LockManager) :=
  (manager.waiters thread).bind fun waiter =>
    (entryAt manager.lockTable waiter.entry).bind fun entry =>
      (requestStatus entry waiter.request).bind fun status =>
        let giveUp (manager : LockManager) (status : LockStatus) :=
          finishWait manager thread (setRequestStatus entry waiter.request status)
            waiter.request status
        if manager.deadlockDetection then
          (checkDeadlocks manager.deadlockDetection manager.lockTable rounds
              manager.transactions).map fun (deadlock, transactions) =>
            let manager := { manager with transactions := transactions }
            let retries := manager.retryCount waiter.shared
            let count (retries : Nat) :=
              { manager with
                retryCount := Function.update manager.retryCount waiter.shared retries }
            if deadlock then giveUp manager .deadlock
            else if retries < 3 then
              continueWait (count (retries + 1)) thread entry waiter.request status
            else giveUp (count 0) .error
        else some (giveUp manager .error)

/-- One critical section. -/
inductive LockEvent where
  | lockDocument (thread : Nat) (key : LockKey) (transaction entryAddress requestAddress : Nat)
  | lockDocumentShared (thread : Nat) (key : LockKey)
      (transaction entryAddress requestAddress : Nat)
  | unlockDocument (key : LockKey) (transaction : Nat)
  | wakeUp (thread : Nat)
  | timeOut (thread rounds : Nat)

/-- The state after a critical section, if it ends. -/
def lockStep (manager : LockManager) : LockEvent → Option LockManager
  | .lockDocument thread key transaction entryAddress requestAddress =>
      (lockManagerLockDocument manager thread key transaction entryAddress requestAddress).map
        Prod.snd
  | .lockDocumentShared thread key transaction entryAddress requestAddress =>
      (lockManagerLockDocumentShared manager thread key transaction entryAddress
        requestAddress).map Prod.snd
  | .unlockDocument key transaction => some (lockManagerUnlockDocument manager key transaction).2
  | .wakeUp thread => (wakeUp manager thread).map Prod.snd
  | .timeOut thread rounds => (timeOut manager thread rounds).map Prod.snd

/-! ## The law of an entry -/

def HeldAs : LockType → List LockRequest → Prop
  | .none, granted => granted = []
  | .shared, granted => granted ≠ [] ∧ ∀ request ∈ granted, request.lockType = .shared
  | .exclusive, granted => ∃ request, granted = [request] ∧ request.lockType = .exclusive

def readers (granted : List LockRequest) : Nat :=
  granted.countP fun request => request.lockType = .shared

/-- What the operations keep of an entry whose waiting requests are `waiting`. -/
structure EntryLaw (entry : LockEntry) (waiting : List LockRequest) : Prop where
  held : HeldAs entry.currentLockType entry.grantedQueue
  counted : entry.readerCount = readers entry.grantedQueue
  typed : ∀ request ∈ waiting, request.lockType ≠ .none
  distinct : ((waiting ++ entry.grantedQueue).map LockRequest.address).Nodup

def LockEntry.Lawful (entry : LockEntry) : Prop :=
  EntryLaw entry entry.waitingQueue

theorem createLockEntry_lawful (address : Nat) (key : LockKey) :
    (createLockEntry address key).Lawful where
  held := rfl
  counted := rfl
  typed request member := by cases member
  distinct := List.nodup_nil

variable {entry : LockEntry} {request : LockRequest} {manager next : LockManager}
  {result : Option Bool}

theorem heldAs_addGrantedRequest (held : HeldAs entry.currentLockType entry.grantedQueue)
    (compatible : isLockCompatible entry request = true) (typed : request.lockType ≠ .none) :
    HeldAs (addGrantedRequest entry request).currentLockType
      (addGrantedRequest entry request).grantedQueue := by
  rw [isLockCompatible] at compatible
  rw [addGrantedRequest]
  cases current : entry.currentLockType with
  | none =>
      rw [current] at held
      simp only [HeldAs] at held
      simp only [if_true, held]
      cases requested : request.lockType with
      | none => exact absurd requested typed
      | shared => simp [HeldAs]
      | exclusive => simp [HeldAs]
  | shared =>
      rw [current] at held compatible
      have shared : request.lockType = .shared := by
        simpa using compatible
      simp only [reduceCtorEq, if_false]
      refine ⟨by simp, fun tested member => ?_⟩
      rcases List.mem_cons.mp member with rfl | member
      · exact shared
      · exact held.2 tested member
  | exclusive =>
      rw [current] at compatible
      cases compatible

theorem readers_addGrantedRequest (request : LockRequest)
    (counted : entry.readerCount = readers entry.grantedQueue) :
    (addGrantedRequest entry request).readerCount =
      readers (addGrantedRequest entry request).grantedQueue := by
  rw [addGrantedRequest]
  simp only [readers, List.countP_cons]
  rw [counted, readers]
  split_ifs <;> simp_all

theorem EntryLaw.addGrantedRequest {waiting : List LockRequest} (law : EntryLaw entry waiting)
    (compatible : isLockCompatible entry request = true) (typed : request.lockType ≠ .none)
    (fresh : request.address ∉ (waiting ++ entry.grantedQueue).map LockRequest.address) :
    EntryLaw (addGrantedRequest entry request) waiting where
  held := heldAs_addGrantedRequest law.held compatible typed
  counted := readers_addGrantedRequest request law.counted
  typed := law.typed
  distinct := by
    have moved : ((waiting ++ (Jdbx.addGrantedRequest entry request).grantedQueue).map
        LockRequest.address).Perm
          (request.address :: (waiting ++ entry.grantedQueue).map LockRequest.address) := by
      simp only [Jdbx.addGrantedRequest, List.map_append, List.map_cons]
      exact List.perm_middle
    rw [moved.nodup_iff]
    exact List.nodup_cons.mpr ⟨fresh, law.distinct⟩

theorem LockEntry.Lawful.addWaitingRequest (law : entry.Lawful) (typed : request.lockType ≠ .none)
    (fresh : request.address ∉ entry.requestAddresses) :
    (addWaitingRequest entry request).Lawful where
  held := law.held
  counted := law.counted
  typed tested member := by
    rcases List.mem_append.mp member with member | member
    · exact law.typed tested member
    · rw [List.mem_singleton.mp member]
      exact typed
  distinct := by
    have moved : (((Jdbx.addWaitingRequest entry request).waitingQueue ++
        entry.grantedQueue).map LockRequest.address).Perm
          (request.address :: entry.requestAddresses) := by
      simp only [Jdbx.addWaitingRequest, LockEntry.requestAddresses, List.append_assoc,
        List.map_append, List.map_cons, List.singleton_append]
      exact List.perm_middle
    exact moved.nodup_iff.mpr (List.nodup_cons.mpr ⟨fresh, law.distinct⟩)

theorem processWaitingLoop_lawful :
    ∀ {rest passed : List LockRequest} {entry : LockEntry}, EntryLaw entry (passed ++ rest) →
      (processWaitingLoop entry passed rest).Lawful := by
  intro rest
  induction rest with
  | nil =>
      intro passed entry law
      rw [List.append_nil] at law
      exact ⟨law.held, law.counted, law.typed, law.distinct⟩
  | cons request rest ih =>
      intro passed entry law
      rw [processWaitingLoop]
      split_ifs with compatible
      · have typed : request.lockType ≠ .none := law.typed request (by simp)
        have moved : ((passed ++ request :: rest ++ entry.grantedQueue).map
            LockRequest.address).Perm
              (request.address :: (passed ++ rest ++ entry.grantedQueue).map
                LockRequest.address) := by
          simp only [List.append_assoc, List.map_append, List.cons_append, List.map_cons]
          exact List.perm_middle
        obtain ⟨fresh, distinct⟩ := List.nodup_cons.mp (moved.nodup_iff.mp law.distinct)
        have remaining : EntryLaw entry (passed ++ rest) :=
          ⟨law.held, law.counted,
            fun tested member => law.typed tested (by
              rcases List.mem_append.mp member with member | member
              · exact List.mem_append_left _ member
              · exact List.mem_append_right _ (List.mem_cons_of_mem request member)),
            distinct⟩
        exact ih (remaining.addGrantedRequest compatible typed fresh)
      · apply ih
        rw [List.append_assoc, List.singleton_append]
        exact law

theorem LockEntry.Lawful.processWaitingRequests (law : entry.Lawful) :
    (processWaitingRequests entry).Lawful :=
  processWaitingLoop_lawful law

theorem LockEntry.Lawful.removeGrantedRequest (law : entry.Lawful) (transaction : Nat) :
    (removeGrantedRequest entry transaction).2.Lawful := by
  rw [Jdbx.removeGrantedRequest]
  split
  · exact law
  · rename_i request found
    obtain ⟨owned, front, back, layout, others⟩ := List.find?_eq_some_iff_append.mp found
    have remaining :
        (entry.grantedQueue.eraseP fun request => request.transaction == transaction) =
          front ++ back := by
      rw [layout, List.eraseP_append_right _ (by simpa using others)]
      simp [owned]
    simp only [remaining]
    refine ⟨?_, ?_, law.typed, ?_⟩
    · have held := law.held
      cases current : entry.currentLockType with
      | none =>
          rw [current, HeldAs, layout] at held
          simp at held
      | shared =>
          rw [current, HeldAs, layout] at held
          have shared : request.lockType = .shared := held.2 request (by simp)
          by_cases empty : front ++ back = []
          · simp [empty, HeldAs]
          · simp only [empty, shared, if_false, reduceCtorEq]
            refine ⟨empty, fun tested member => held.2 tested ?_⟩
            rcases List.mem_append.mp member with member | member
            · exact List.mem_append_left _ member
            · exact List.mem_append_right _ (List.mem_cons_of_mem request member)
      | exclusive =>
          rw [current, HeldAs] at held
          obtain ⟨only, single, -⟩ := held
          have empty : front ++ back = [] := by
            have lengths := congrArg List.length (layout.symm.trans single)
            simp only [List.length_append, List.length_cons, List.length_nil] at lengths
            exact List.eq_nil_of_length_eq_zero (by rw [List.length_append]; omega)
          simp [empty, HeldAs]
    · have counted := law.counted
      rw [layout] at counted
      simp only [readers, List.countP_append, List.countP_cons] at counted ⊢
      rw [counted]
      split_ifs <;> simp_all
      all_goals omega
    · refine List.Nodup.sublist ?_ law.distinct
      rw [layout]
      exact List.Sublist.map _
        ((List.Sublist.refl _).append
          ((List.Sublist.refl front).append (List.sublist_cons_self request back)))

theorem LockEntry.Lawful.removeWaitingRequest (law : entry.Lawful) (address : Nat) :
    (removeWaitingRequest entry address).Lawful where
  held := law.held
  counted := law.counted
  typed request member := law.typed request (List.eraseP_subset member)
  distinct := law.distinct.sublist
    (List.Sublist.map _ (List.eraseP_sublist.append (List.Sublist.refl _)))

theorem LockEntry.Lawful.setRequestStatus (law : entry.Lawful) (address : Nat)
    (status : LockStatus) : (setRequestStatus entry address status).Lawful := by
  let set (request : LockRequest) :=
    if request.address = address then { request with status } else request
  have sameType : ∀ request, (set request).lockType = request.lockType := by
    intro request
    simp only [set]
    split_ifs <;> rfl
  have sameAddress : LockRequest.address ∘ set = LockRequest.address := by
    funext request
    simp only [set, Function.comp_apply]
    split_ifs <;> rfl
  refine ⟨?_, ?_, ?_, ?_⟩
  · have held := law.held
    change HeldAs entry.currentLockType (entry.grantedQueue.map set)
    cases current : entry.currentLockType with
    | none =>
        rw [current, HeldAs] at held
        simp [HeldAs, held]
    | shared =>
        rw [current, HeldAs] at held
        simpa [HeldAs, sameType] using held
    | exclusive =>
        rw [current, HeldAs] at held
        obtain ⟨request, single, exclusive⟩ := held
        exact ⟨set request, by rw [single]; rfl, by rw [sameType, exclusive]⟩
  · change entry.readerCount = readers (entry.grantedQueue.map set)
    rw [law.counted, readers, readers, List.countP_map]
    congr 2
    funext request
    simp [sameType]
  · intro request member
    obtain ⟨old, oldMember, rfl⟩ := List.mem_map.mp member
    rw [sameType]
    exact law.typed old oldMember
  · change ((entry.waitingQueue.map set ++ entry.grantedQueue.map set).map
      LockRequest.address).Nodup
    rw [← List.map_append, List.map_map, sameAddress]
    exact law.distinct

/-! ## The law over a run -/

def LockManager.Lawful (manager : LockManager) : Prop :=
  EveryEntry LockEntry.Lawful manager.lockTable

theorem lockManagerCreate_lawful (deadlockDetection : Bool) (transactions : Nat → Transaction) :
    (lockManagerCreate deadlockDetection transactions).Lawful := by
  intro chain chainMember entry member
  rw [List.eq_of_mem_replicate chainMember] at member
  cases member

theorem findOrCreateEntry_lawful {table : LockTable} (lawful : EveryEntry LockEntry.Lawful table)
    (key : LockKey) (address : Nat) {requestAddress : Nat}
    (fresh : isRequestAddress table requestAddress = false) :
    (findOrCreateEntry table key address).1.Lawful ∧
      EveryEntry LockEntry.Lawful (findOrCreateEntry table key address).2 ∧
      requestAddress ∉ (findOrCreateEntry table key address).1.requestAddresses := by
  have everyFresh : EveryEntry (fun entry => requestAddress ∉ entry.requestAddresses) table := by
    intro chain chainMember entry member used
    have noEntry := List.any_eq_false.mp fresh entry (List.mem_flatten_of_mem chainMember member)
    exact noEntry (by simpa using used)
  rw [findOrCreateEntry]
  split
  · rename_i entry found
    exact ⟨lawful.find found, lawful, everyFresh.find found⟩
  · refine ⟨createLockEntry_lawful address key,
      lawful.add (createLockEntry_lawful address key), ?_⟩
    simp [createLockEntry, LockEntry.requestAddresses]

theorem acquireLock_lawful {shared : Bool} {compatible : LockEntry → LockRequest → Bool}
    {lockType : LockType} {thread : Nat} {key : LockKey}
    {transaction entryAddress requestAddress : Nat}
    (sound : ∀ entry address transaction,
      compatible entry (createLockRequest address transaction lockType) = true →
        isLockCompatible entry (createLockRequest address transaction lockType) = true)
    (typed : lockType ≠ .none) (lawful : manager.Lawful)
    (acquired : acquireLock shared compatible lockType manager thread key transaction entryAddress
      requestAddress = some (result, next)) : next.Lawful := by
  rw [acquireLock] at acquired
  split_ifs at acquired with busy
  simp only [Bool.or_eq_true, not_or, Bool.not_eq_true] at busy
  obtain ⟨entryLaw, tableLaw, fresh⟩ :=
    findOrCreateEntry_lawful lawful key entryAddress busy.2
  simp only at acquired
  split_ifs at acquired with granted
  · cases acquired
    apply tableLaw.store
    exact entryLaw.addGrantedRequest (sound _ _ _ granted) typed fresh
  · cases acquired
    apply tableLaw.store
    exact entryLaw.addWaitingRequest typed fresh

theorem lockManagerUnlockDocument_lawful {manager : LockManager} (lawful : manager.Lawful)
    (key : LockKey) (transaction : Nat) :
    (lockManagerUnlockDocument manager key transaction).2.Lawful := by
  rw [lockManagerUnlockDocument]
  split
  · exact lawful
  · rename_i entry found
    have removed : (removeGrantedRequest entry transaction).2.Lawful :=
      (lawful.find found).removeGrantedRequest transaction
    generalize removeGrantedRequest entry transaction = removal at removed ⊢
    obtain ⟨result, remaining⟩ := removal
    simp only at removed ⊢
    have processed : (if result = true then processWaitingRequests remaining
        else remaining).Lawful := by
      split_ifs
      · exact removed.processWaitingRequests
      · exact removed
    generalize (if result = true then processWaitingRequests remaining else remaining) = left
      at processed ⊢
    have stored : EveryEntry LockEntry.Lawful (storeEntry manager.lockTable left) :=
      EveryEntry.store lawful processed
    rw [LockManager.Lawful]
    split_ifs
    · exact stored.remove left.key
    · exact stored

theorem finishWait_lawful {manager : LockManager} (lawful : manager.Lawful)
    (entryLaw : entry.Lawful) (thread request : Nat) (status : LockStatus) :
    (finishWait manager thread entry request status).2.Lawful := by
  rw [finishWait]
  split_ifs
  · exact EveryEntry.store lawful entryLaw
  · exact EveryEntry.store lawful (entryLaw.removeWaitingRequest request)

theorem continueWait_lawful {manager : LockManager} (lawful : manager.Lawful)
    (entryLaw : entry.Lawful) (thread request : Nat) (status : LockStatus) :
    (continueWait manager thread entry request status).2.Lawful := by
  rw [continueWait]
  split_ifs
  · exact EveryEntry.store lawful entryLaw
  · exact finishWait_lawful lawful entryLaw thread request status

theorem wakeUp_lawful {thread : Nat} (lawful : manager.Lawful)
    (woken : wakeUp manager thread = some (result, next)) :
    next.Lawful := by
  rw [wakeUp] at woken
  obtain ⟨waiter, -, woken⟩ := Option.bind_eq_some_iff.mp woken
  obtain ⟨entry, found, woken⟩ := Option.bind_eq_some_iff.mp woken
  obtain ⟨status, -, continued⟩ := Option.map_eq_some_iff.mp woken
  have entryLaw : (processWaitingRequests entry).Lawful :=
    (lawful.at found).processWaitingRequests
  have kept := continueWait_lawful lawful entryLaw thread waiter.request status
  rwa [continued] at kept

theorem timeOut_lawful {thread rounds : Nat} (lawful : manager.Lawful)
    (timedOut : timeOut manager thread rounds = some (result, next)) : next.Lawful := by
  rw [timeOut] at timedOut
  obtain ⟨waiter, -, timedOut⟩ := Option.bind_eq_some_iff.mp timedOut
  obtain ⟨entry, found, timedOut⟩ := Option.bind_eq_some_iff.mp timedOut
  obtain ⟨status, -, timedOut⟩ := Option.bind_eq_some_iff.mp timedOut
  have entryLaw : entry.Lawful := lawful.at found
  -- both statuses of a wait that is given up leave a lawful entry behind
  have givenUp : ∀ left : LockManager, left.lockTable = manager.lockTable → ∀ status,
      (finishWait left thread (setRequestStatus entry waiter.request status) waiter.request
        status).2.Lawful := by
    intro left sameTable status
    have leftLaw : left.Lawful := by
      rw [LockManager.Lawful, sameTable]
      exact lawful
    exact finishWait_lawful leftLaw (entryLaw.setRequestStatus waiter.request status) thread
      waiter.request status
  simp only at timedOut
  by_cases detection : manager.deadlockDetection = true
  · rw [if_pos detection] at timedOut
    obtain ⟨⟨deadlock, transactions⟩, -, given⟩ := Option.map_eq_some_iff.mp timedOut
    simp only at given
    split_ifs at given
    · have kept := givenUp { manager with transactions := transactions } rfl .deadlock
      rwa [given] at kept
    · let retried : LockManager :=
        { manager with
          transactions := transactions
          retryCount := Function.update manager.retryCount waiter.shared
            (manager.retryCount waiter.shared + 1) }
      have retriedLaw : retried.Lawful := lawful
      have kept := continueWait_lawful retriedLaw entryLaw thread waiter.request status
      rwa [given] at kept
    · let counted : LockManager :=
        { manager with
          transactions := transactions
          retryCount := Function.update manager.retryCount waiter.shared 0 }
      have kept := givenUp counted rfl .error
      rwa [given] at kept
  · rw [if_neg detection] at timedOut
    have kept := givenUp manager rfl .error
    rwa [Option.some.inj timedOut] at kept

theorem lockStep_lawful {event : LockEvent} (lawful : manager.Lawful)
    (taken : lockStep manager event = some next) : next.Lawful := by
  cases event with
  | lockDocument thread key transaction entryAddress requestAddress =>
      obtain ⟨⟨result, after⟩, acquired, rfl⟩ := Option.map_eq_some_iff.mp taken
      exact acquireLock_lawful (fun _ _ _ compatible => compatible) (by decide) lawful acquired
  | lockDocumentShared thread key transaction entryAddress requestAddress =>
      obtain ⟨⟨result, after⟩, acquired, rfl⟩ := Option.map_eq_some_iff.mp taken
      refine acquireLock_lawful (fun entry address owner notExclusive => ?_) (by decide) lawful
        acquired
      rw [isLockCompatible]
      cases current : entry.currentLockType with
      | none => rfl
      | shared => rfl
      | exclusive => simp [current] at notExclusive
  | unlockDocument key transaction =>
      cases taken
      exact lockManagerUnlockDocument_lawful lawful key transaction
  | wakeUp thread =>
      obtain ⟨⟨result, after⟩, woken, rfl⟩ := Option.map_eq_some_iff.mp taken
      exact wakeUp_lawful lawful woken
  | timeOut thread rounds =>
      obtain ⟨⟨result, after⟩, timedOut, rfl⟩ := Option.map_eq_some_iff.mp taken
      exact timeOut_lawful lawful timedOut

/-- The lock type and the number of readers tell what is granted, an exclusive
request is granted alone, and no request both waits and is granted. -/
structure LockEntry.Consistent (entry : LockEntry) : Prop where
  exclusiveAlone : ∀ request ∈ entry.grantedQueue, request.lockType = .exclusive →
    entry.grantedQueue = [request]
  none_iff : entry.currentLockType = .none ↔ entry.grantedQueue = []
  shared_iff : entry.currentLockType = .shared ↔
    entry.grantedQueue ≠ [] ∧ ∀ request ∈ entry.grantedQueue, request.lockType = .shared
  exclusive_iff : entry.currentLockType = .exclusive ↔
    ∃ request, entry.grantedQueue = [request] ∧ request.lockType = .exclusive
  readerCount_eq : entry.readerCount =
    entry.grantedQueue.countP fun request => request.lockType = .shared
  separate : ∀ waiting ∈ entry.waitingQueue, ∀ granted ∈ entry.grantedQueue,
    waiting.address ≠ granted.address

theorem LockEntry.Lawful.consistent (law : entry.Lawful) :
    entry.Consistent := by
  have separate : ∀ waiting ∈ entry.waitingQueue, ∀ granted ∈ entry.grantedQueue,
      waiting.address ≠ granted.address := by
    intro waiting waitingMember granted grantedMember same
    have distinct := law.distinct
    rw [List.map_append] at distinct
    exact (List.nodup_append.mp distinct).2.2 _ (List.mem_map_of_mem waitingMember) _
      (List.mem_map_of_mem grantedMember) same
  have held := law.held
  have counted := law.counted
  cases current : entry.currentLockType with
  | none =>
      rw [current, HeldAs] at held
      exact ⟨by simp [held], by simp [held, current], by simp [held, current],
        by simp [held, current], counted, separate⟩
  | shared =>
      rw [current, HeldAs] at held
      obtain ⟨some, shared⟩ := held
      refine ⟨?_, by simp [some, current], by simpa [some, current] using shared, ?_, counted,
        separate⟩
      · intro request member exclusive
        rw [shared request member] at exclusive
        cases exclusive
      · simp only [current, reduceCtorEq, false_iff]
        rintro ⟨request, single, exclusive⟩
        rw [shared request (by simp [single])] at exclusive
        cases exclusive
  | exclusive =>
      rw [current, HeldAs] at held
      obtain ⟨request, single, exclusive⟩ := held
      refine ⟨?_, by simp [single, current], by simp [single, current, exclusive], ?_, counted,
        separate⟩
      · intro tested member _
        rw [single, List.mem_singleton] at member
        rw [single, member]
      · simp [single, current, exclusive]

/-- Every entry is consistent in every state that a run reaches. -/
theorem lockEntries_consistent (deadlockDetection : Bool) (transactions : Nat → Transaction)
    (events : List LockEvent) (manager : LockManager)
    (reached : runFrom lockStep (lockManagerCreate deadlockDetection transactions) events =
      some manager) :
    EveryEntry LockEntry.Consistent manager.lockTable := by
  have lawful : manager.Lawful :=
    invariant_reached (fun _ _ _ lawful taken => lockStep_lawful lawful taken)
      (lockManagerCreate_lawful deadlockDetection transactions) reached
  intro chain chainMember entry member
  exact (lawful chain chainMember entry member).consistent

/-- One transaction writes a document, another waits to read it and gets the
lock when the first one unlocks. -/
def handover : List LockEvent :=
  let key : LockKey := { collection := ascii "users", documentId := some (ascii "a9") }
  [.lockDocument 0 key 1 100 101, .lockDocumentShared 1 key 2 102 103, .unlockDocument key 1,
    .wakeUp 1]

/-- A transaction that has just begun. -/
def begunTransaction : Transaction where
  id := ascii "tx_100_000001"
  state := .active
  startTime := 100
  commitTime := 0
  userId := ascii "user"
  isolationLevel := .serializable

theorem lockEntries_consistent_handover :
    ∃ manager,
      runFrom lockStep (lockManagerCreate true fun _ => begunTransaction) handover =
          some manager ∧
        EveryEntry LockEntry.Consistent manager.lockTable := by
  have runs : (runFrom lockStep (lockManagerCreate true fun _ => begunTransaction)
      handover).isSome = true := by
    decide +kernel
  obtain ⟨manager, reached⟩ := Option.isSome_iff_exists.mp runs
  exact ⟨manager, reached, lockEntries_consistent true _ handover manager reached⟩

end Jdbx
