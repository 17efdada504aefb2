import Jdbx.Library.CString
import Jdbx.Library.GuardedRun
import Jdbx.Library.LinkedTable
import Mathlib.Algebra.Group.Nat.Defs
import Mathlib.Logic.Function.Basic

/-!
# Threads on one generic cache

`generic_cache.c` with its hash chains and its list.  Each section under the lock of the
cache is one step.  A get that finds its key has two of them: it searches and copies under
the read lock, and moves the entry to the front under the write lock.

An entry is numbered when it is allocated, and a number is given once.  There is no next
state where a freed entry is read.
-/

namespace Jdbx

open Library

/-- `generic_cache_entry_t`, without its links. -/
structure SharedEntry where
  key : Bytes
  value : Bytes
  deriving DecidableEq

/-- `generic_cache_t`.  `entries` holds what is allocated and not yet freed. -/
structure SharedCache extends LinkedTable Nat where
  entries : Nat → Option SharedEntry
  allocated : Nat
  capacity : UInt64
  size : UInt64

def defaultHash (key : Bytes) : UInt32 :=
  key.foldl (fun hash byte => ((hash <<< 5) + hash) + byte.toUInt32) 5381

/-- Which of the allocations of `generic_cache_put` are granted.  One of no bytes never is. -/
structure CacheMemory where
  entry : Bool
  key : Bool
  value : Bool

/-- What a put did to the entries: the key it evicted, and whether it stored its value. -/
structure CacheChange where
  evicted : Option Bytes
  stored : Bool

namespace SharedCache

def bucketCount (cache : SharedCache) : UInt64 :=
  cache.capacity * 2

def bucket (cache : SharedCache) (key : Bytes) : Nat :=
  ((defaultHash key).toUInt64 % cache.bucketCount).toUInt32.toNat

/-- `generic_cache_create`.  `BUFFER_CALLOC` refuses arrays of no bytes and of more than
`SIZE_MAX`. -/
def genericCacheCreate (capacity : UInt64) (granted : Bool) : Option SharedCache :=
  let bucketCount := capacity * 2
  if capacity = 0 ∨ granted = false ∨ bucketCount = 0 ∨ 8 > (2 ^ 64 - 1) / bucketCount.toNat then
    none
  else
    some { toLinkedTable := .empty bucketCount.toNat
           entries := fun _ => none
           allocated := 0
           capacity := capacity
           size := 0 }

variable (cache : SharedCache)

def keyAt (pointer : Nat) : Option Bytes :=
  (cache.entries pointer).map SharedEntry.key

def findEntry (key : Bytes) : Option Nat :=
  (cache.chain (cache.bucket key)).find? fun pointer => cache.keyAt pointer = some key

def moveToFront (pointer : Nat) : Option SharedCache :=
  (cache.entries pointer).map fun _ => { cache with toLinkedTable := cache.touch pointer }

def drop (pointer : Nat) (key : Bytes) : SharedCache :=
  { cache with
    toLinkedTable := cache.unlink (cache.bucket key) pointer
    entries := Function.update cache.entries pointer none
    size := cache.size - 1 }

/-- `evict_lru`, with the key that it evicts. -/
def evictLru : Option (Option Bytes × SharedCache) :=
  match cache.order.getLast? with
  | none => some (none, cache)
  | some victim => (cache.keyAt victim).map fun key => (some key, cache.drop victim key)

def makeRoom : Option (Option Bytes × SharedCache) :=
  if cache.size ≥ cache.capacity then cache.evictLru else some (none, cache)

def insert (key value : Bytes) : SharedCache :=
  { cache with
    toLinkedTable := cache.link (cache.bucket key) cache.allocated
    entries := Function.update cache.entries cache.allocated (some ⟨key, value⟩)
    allocated := cache.allocated + 1
    size := cache.size + 1 }

def write (pointer : Nat) (key value : Bytes) : SharedCache :=
  { cache with entries := Function.update cache.entries pointer (some ⟨key, value⟩) }

def genericCachePut (key value : Bytes) (memory : CacheMemory) :
    Option (CacheChange × SharedCache) :=
  match cache.findEntry key with
  | some pointer =>
      if memory.value = true ∧ value ≠ [] then
        ((cache.write pointer key value).moveToFront pointer).map fun next => (⟨none, true⟩, next)
      else some (⟨none, false⟩, cache)
  | none =>
      cache.makeRoom.map fun (evicted, roomy) =>
        if memory.entry = true ∧ memory.key = true ∧ memory.value = true ∧ key ≠ [] ∧ value ≠ []
        then (⟨evicted, true⟩, roomy.insert key value)
        else (⟨evicted, false⟩, roomy)

def genericCacheRemove (key : Bytes) : SharedCache :=
  match cache.findEntry key with
  | some pointer => cache.drop pointer key
  | none => cache

def genericCacheClear : SharedCache :=
  { cache with
    toLinkedTable := .empty cache.bucketCount.toNat
    entries := fun pointer => if pointer ∈ cache.order then none else cache.entries pointer
    size := 0 }

end SharedCache

/-! ## The threads -/

/-- The result of a get, and beside it the value that its key had when the get searched. -/
structure CacheAnswer where
  result : Option Bytes
  stored : Option Bytes

def CacheAnswer.Right (answer : CacheAnswer) : Prop :=
  ∀ value ∈ answer.result, answer.stored = some value

/-- The cache and its threads. -/
structure SharedCacheState where
  cache : SharedCache
  /-- The threads between the two sections of a get, with the entry that each has found. -/
  moving : Nat → Option (Nat × CacheAnswer)
  /-- The value of the last put of each key that returned 0, if the key has not been
  removed, evicted or cleared since. -/
  stored : Bytes → Option Bytes
  answers : List CacheAnswer

inductive SharedCacheEvent where
  /-- A thread starts `generic_cache_get`, and takes its section under the read lock. -/
  | search (thread : Nat) (key : Bytes) (granted : Bool)
  /-- The thread takes the section under the write lock, and returns. -/
  | move (thread : Nat)
  | put (key value : Bytes) (memory : CacheMemory)
  | remove (key : Bytes)
  | clear

def storedWithout (stored : Bytes → Option Bytes) : Option Bytes → Bytes → Option Bytes
  | some victim => Function.update stored victim none
  | none => stored

def storedAfter (stored : Bytes → Option Bytes) (change : CacheChange) (key value : Bytes) :
    Bytes → Option Bytes :=
  let kept := storedWithout stored change.evicted
  if change.stored then Function.update kept key (some value) else kept

namespace SharedCacheState

def start (cache : SharedCache) : SharedCacheState :=
  { cache := cache, moving := fun _ => none, stored := fun _ => none, answers := [] }

variable (state : SharedCacheState)

/-- The first section of `generic_cache_get`. -/
def search (thread : Nat) (key : Bytes) (granted : Bool) : SharedCacheState :=
  match state.cache.findEntry key with
  | none => { state with answers := state.answers ++ [⟨none, state.stored key⟩] }
  | some pointer =>
      let value := (state.cache.entries pointer).map SharedEntry.value
      { state with
        moving := Function.update state.moving thread
          (some (pointer, ⟨if granted then value else none, state.stored key⟩)) }

/-- The second section of `generic_cache_get`. -/
def move (thread pointer : Nat) (answer : CacheAnswer) : Option SharedCacheState :=
  (state.cache.moveToFront pointer).map fun cache =>
    { state with
      cache := cache
      moving := Function.update state.moving thread none
      answers := state.answers ++ [answer] }

def put (key value : Bytes) (memory : CacheMemory) : Option SharedCacheState :=
  (state.cache.genericCachePut key value memory).map fun (change, cache) =>
    { state with cache := cache, stored := storedAfter state.stored change key value }

end SharedCacheState

/-- One section of one thread.  A thread between the sections of its get takes no other. -/
def sharedCacheStep (state : SharedCacheState) : SharedCacheEvent → Option SharedCacheState
  | .search thread key granted =>
      match state.moving thread with
      | some _ => some state
      | none => some (state.search thread key granted)
  | .move thread =>
      match state.moving thread with
      | some (pointer, answer) => state.move thread pointer answer
      | none => some state
  | .put key value memory => state.put key value memory
  | .remove key =>
      some { state with
        cache := state.cache.genericCacheRemove key
        stored := Function.update state.stored key none }
  | .clear => some { state with cache := state.cache.genericCacheClear, stored := fun _ => none }

/-- The chains and the list hold the same entries, each once and allocated, and no key
twice.  The count is their number and within the capacity.  Each get has returned the value
its key had when the get searched, or nothing. -/
structure SharedCacheLaw (state : SharedCacheState) : Prop where
  linked : state.cache.Linked
  allocated : ∀ pointer ∈ state.cache.order, (state.cache.entries pointer).isSome
  oneEntry : ∀ first ∈ state.cache.order, ∀ second ∈ state.cache.order,
    state.cache.keyAt first = state.cache.keyAt second → first = second
  counted : state.cache.size.toNat = state.cache.order.length
  bounded : state.cache.size ≤ state.cache.capacity
  answered : ∀ answer ∈ state.answers, answer.Right

def SectionLawful (state : SharedCacheState) (event : SharedCacheEvent) : Prop :=
  ∃ next, sharedCacheStep state event = some next ∧ SharedCacheLaw next

def EntryStays (state : SharedCacheState) : SharedCacheEvent → Prop
  | .move thread => ∀ found ∈ state.moving thread, found.1 ∈ state.cache.order
  | .search _ _ _ | .put _ _ _ | .remove _ | .clear => True

instance (state : SharedCacheState) : DecidablePred (EntryStays state)
  | .move thread => inferInstanceAs (Decidable (∀ found ∈ state.moving thread, _))
  | .search _ _ _ | .put _ _ _ | .remove _ | .clear => inferInstanceAs (Decidable True)

end Jdbx
