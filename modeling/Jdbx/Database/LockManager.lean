import Jdbx.Transaction.Transaction
import Mathlib.Data.List.Basic

/-!
# The lock table

A lock entry keeps the requests for one resource: those that wait, and those
that are granted together with the lock type and the number of readers they
amount to.  Entries and requests are known by their addresses.
-/

namespace Jdbx

open Library

inductive LockType where
  | none
  | shared
  | exclusive
  deriving DecidableEq, Repr

inductive LockStatus where
  | granted
  | waiting
  | deadlock
  | error
  deriving DecidableEq, Repr

structure LockKey where
  collection : Bytes
  documentId : Option Bytes
  deriving DecidableEq, Repr

/-- `lock_request_t`.  A transaction is known by its address. -/
structure LockRequest where
  address : Nat
  transaction : Nat
  lockType : LockType
  status : LockStatus
  deriving DecidableEq, Repr

structure LockEntry where
  address : Nat
  key : LockKey
  currentLockType : LockType
  readerCount : Int
  waitingQueue : List LockRequest
  grantedQueue : List LockRequest
  deriving DecidableEq, Repr

abbrev LockTable := List (List LockEntry)

/-! ## Requests of one entry -/

def createLockEntry (address : Nat) (key : LockKey) : LockEntry where
  address := address
  key := key
  currentLockType := .none
  readerCount := 0
  waitingQueue := []
  grantedQueue := []

def createLockRequest (address transaction : Nat) (lockType : LockType) : LockRequest where
  address := address
  transaction := transaction
  lockType := lockType
  status := .waiting

def isLockCompatible (entry : LockEntry) (request : LockRequest) : Bool :=
  match entry.currentLockType with
  | .none => true
  | .exclusive => false
  | .shared => request.lockType == .shared

def addWaitingRequest (entry : LockEntry) (request : LockRequest) : LockEntry :=
  { entry with waitingQueue := entry.waitingQueue ++ [request] }

def addGrantedRequest (entry : LockEntry) (request : LockRequest) : LockEntry :=
  { entry with
    currentLockType :=
      if entry.currentLockType = .none then request.lockType else entry.currentLockType
    readerCount :=
      if request.lockType = .shared then entry.readerCount + 1 else entry.readerCount
    grantedQueue := { request with status := .granted } :: entry.grantedQueue }

def removeGrantedRequest (entry : LockEntry) (transaction : Nat) : Bool × LockEntry :=
  match entry.grantedQueue.find? fun request => request.transaction == transaction with
  | none => (false, entry)
  | some request =>
      let remaining := entry.grantedQueue.eraseP fun request => request.transaction == transaction
      (true,
        { entry with
          grantedQueue := remaining
          readerCount :=
            if request.lockType = .shared then entry.readerCount - 1 else entry.readerCount
          currentLockType :=
            if remaining = [] then .none
            else if request.lockType = .exclusive then .shared
            else entry.currentLockType })

/-- The loop of `process_waiting_requests`: the requests that it passed over,
and those that are left. -/
def processWaitingLoop (entry : LockEntry) (passed : List LockRequest) :
    List LockRequest → LockEntry
  | [] => { entry with waitingQueue := passed }
  | request :: rest =>
      if isLockCompatible entry request then
        processWaitingLoop (addGrantedRequest entry request) passed rest
      else processWaitingLoop entry (passed ++ [request]) rest

def processWaitingRequests (entry : LockEntry) : LockEntry :=
  processWaitingLoop entry [] entry.waitingQueue

def removeWaitingRequest (entry : LockEntry) (address : Nat) : LockEntry :=
  { entry with
    waitingQueue := entry.waitingQueue.eraseP fun request => request.address == address }

/-- `request->status = status`. -/
def setRequestStatus (entry : LockEntry) (address : Nat) (status : LockStatus) : LockEntry :=
  let set (request : LockRequest) :=
    if request.address = address then { request with status } else request
  { entry with
    waitingQueue := entry.waitingQueue.map set
    grantedQueue := entry.grantedQueue.map set }

/-- `request->status`, if the request is in a queue of the entry. -/
def requestStatus (entry : LockEntry) (address : Nat) : Option LockStatus :=
  ((entry.waitingQueue ++ entry.grantedQueue).find? fun request =>
    request.address == address).map LockRequest.status

def LockEntry.requestAddresses (entry : LockEntry) : List Nat :=
  (entry.waitingQueue ++ entry.grantedQueue).map LockRequest.address

/-! ## The table -/

/-- `hash_key`.  A `char` is signed. -/
def hashKey (key : LockKey) (tableSize : Nat) : Nat :=
  let step (hash : UInt32) (byte : UInt8) : UInt32 :=
    hash * 31 + byte.toInt8.toInt32.toUInt32
  ((key.collection ++ key.documentId.getD []).foldl step 0).toNat % tableSize

def findLockEntry (table : LockTable) (key : LockKey) : Option LockEntry :=
  (table.getD (hashKey key table.length) []).find? fun entry => entry.key == key

def addLockEntry (table : LockTable) (entry : LockEntry) : LockTable :=
  table.modify (hashKey entry.key table.length) fun chain => entry :: chain

def removeLockEntry (table : LockTable) (key : LockKey) : LockTable :=
  table.modify (hashKey key table.length) fun chain => chain.eraseP fun entry => entry.key == key

def entryAt (table : LockTable) (address : Nat) : Option LockEntry :=
  table.flatten.find? fun entry => entry.address == address

def storeEntry (table : LockTable) (entry : LockEntry) : LockTable :=
  table.map fun chain => chain.map fun stored =>
    if stored.address = entry.address then entry else stored

def EveryEntry (property : LockEntry → Prop) (table : LockTable) : Prop :=
  ∀ chain ∈ table, ∀ entry ∈ chain, property entry

variable {property : LockEntry → Prop} {table : LockTable} {entry : LockEntry}

theorem EveryEntry.find (every : EveryEntry property table) {key : LockKey}
    (found : findLockEntry table key = some entry) : property entry := by
  have member := List.mem_of_find?_eq_some found
  rw [List.getD_eq_getElem?_getD] at member
  cases chainAt : table[hashKey key table.length]? with
  | none =>
      rw [chainAt] at member
      cases member
  | some chain =>
      rw [chainAt] at member
      exact every chain (List.mem_of_getElem? chainAt) entry member

theorem EveryEntry.at (every : EveryEntry property table) {address : Nat}
    (found : entryAt table address = some entry) : property entry := by
  obtain ⟨chain, chainMember, member⟩ :=
    List.mem_flatten.mp (List.mem_of_find?_eq_some found)
  exact every chain chainMember entry member

theorem EveryEntry.store (every : EveryEntry property table) (holds : property entry) :
    EveryEntry property (storeEntry table entry) := by
  intro chain chainMember stored member
  obtain ⟨oldChain, oldMember, rfl⟩ := List.mem_map.mp chainMember
  obtain ⟨old, oldEntry, rfl⟩ := List.mem_map.mp member
  split_ifs
  · exact holds
  · exact every oldChain oldMember old oldEntry

theorem mem_modify {chain : List LockEntry} {index : Nat}
    {update : List LockEntry → List LockEntry} (member : chain ∈ table.modify index update) :
    chain ∈ table ∨ ∃ old ∈ table, chain = update old := by
  obtain ⟨position, bound, rfl⟩ := List.mem_iff_getElem.mp member
  rw [List.length_modify] at bound
  rw [List.getElem_modify]
  split_ifs
  · exact Or.inr ⟨table[position], List.getElem_mem bound, rfl⟩
  · exact Or.inl (List.getElem_mem bound)

theorem EveryEntry.add (every : EveryEntry property table) (holds : property entry) :
    EveryEntry property (addLockEntry table entry) := by
  intro chain chainMember tested member
  rcases mem_modify chainMember with same | ⟨old, oldMember, rfl⟩
  · exact every chain same tested member
  · rcases List.mem_cons.mp member with rfl | member
    · exact holds
    · exact every old oldMember tested member

theorem EveryEntry.remove (every : EveryEntry property table) (key : LockKey) :
    EveryEntry property (removeLockEntry table key) := by
  intro chain chainMember tested member
  rcases mem_modify chainMember with same | ⟨old, oldMember, rfl⟩
  · exact every chain same tested member
  · exact every old oldMember tested (List.eraseP_subset member)

end Jdbx
