import Jdbx.Library.GuardedRun
import Jdbx.Utils.Json

/-!
# The cache of JSON values

`cache.c`: one list of entries from `head` to `tail` under three policies, with a count, a
sum of sizes and an expiry for each entry.  Each call holds the mutex from its first step to
its last one and is one event here; `now` and `stamp` are what its calls of `time` return.

Beside what the code stores, an entry keeps its history and the cache keeps its evictions,
so that the law can say which entry a policy names.  There is no next state where a call
does not return.
-/

namespace Jdbx

open Library

/-- The conversion of a `size_t` to a `double`. -/
class CDoubleSize (δ : Type) extends CDouble δ where
  ofUInt64 : UInt64 → δ

instance : CDoubleSize Rat where
  ofUInt64 size := size.toNat

inductive CacheType where
  | lru
  | lfu
  | fifo
  deriving DecidableEq

/-- `cache_config_t`.  A `capacity` of 0 is no bound. -/
structure JsonCacheConfig (δ : Type) where
  capacity : Nat
  defaultTtl : Int64
  type : CacheType
  maxMemoryMb : δ
  cleanupInterval : Int32

/-- What has happened to an entry.  Events are counted, and `deadline` is the time of the
last put with its time to live. -/
structure EntryHistory where
  inserted : Nat
  used : Nat
  uses : Nat
  deadline : Option Int

/-- `cache_entry_t`, without its links, its flags and its timestamp, which no function
reads.  The copy of the key may have been refused, and so may that of the value. -/
structure JsonCacheEntry (δ : Type) where
  key : Option Bytes
  value : Option (JsonValue δ)
  expires : Int64
  size : UInt64
  accessCount : UInt32
  history : EntryHistory

/-- An entry that was evicted under a policy, and the ones that it left. -/
structure CacheEviction (δ : Type) where
  type : CacheType
  victim : JsonCacheEntry δ
  others : List (JsonCacheEntry δ)

/-- `cache_t`.  `evicted` lists what the code counts in `evictions`. -/
structure JsonCache (δ : Type) where
  config : JsonCacheConfig δ
  entries : List (JsonCacheEntry δ)
  size : Nat
  byteSize : UInt64
  lastCleanup : Int64
  evicted : List (CacheEviction δ)

/-- Which copies are allocated. -/
structure EntryCopies where
  entry : Bool
  key : Bool
  value : Bool

section Model

variable {δ : Type}

namespace JsonCacheEntry

def expired (entry : JsonCacheEntry δ) (now : Int64) : Bool :=
  0 < entry.expires && entry.expires ≤ now

def use (entry : JsonCacheEntry δ) (event : Nat) : JsonCacheEntry δ :=
  { entry with
    accessCount := entry.accessCount + 1
    history := { entry.history with used := event, uses := entry.history.uses + 1 } }

end JsonCacheEntry

/-- The size of an entry: `sizeof(cache_entry_t)`, the key with its end, and
`json_value_size` of the value, which counts the capacity of arrays and objects. -/
def cacheEntrySize (key : Bytes) (valueSize : UInt64) : UInt64 :=
  72 + UInt64.ofNat (key.length + 1) + valueSize

def JsonCacheConfig.effectiveTtl (config : JsonCacheConfig δ) (ttl : Int64) : Int64 :=
  if 0 < ttl then ttl else config.defaultTtl

/-- When an entry expires that was put at `stamp`. -/
def expiry (stamp ttl : Int64) : Int64 :=
  if 0 < ttl then stamp + ttl else 0

def deadline (stamp ttl : Int64) : Option Int :=
  if 0 < ttl then some (stamp.toInt + ttl.toInt) else none

/-- `find_entry`, with the position of the entry.  `strcmp` has no result on a key that is
`NULL`. -/
def findCacheEntry (key : Bytes) :
    List (JsonCacheEntry δ) → Option (Option (Nat × JsonCacheEntry δ))
  | [] => some none
  | entry :: entries =>
      match entry.key with
      | none => none
      | some stored =>
          if stored = key then some (some (0, entry))
          else (findCacheEntry key entries).map (Option.map fun (index, found) =>
            (index + 1, found))

/-- The loop of `evict_entry` over the rest of the list, with the best entry so far. -/
def leastUsedFrom : List (JsonCacheEntry δ) → Nat → Nat → UInt32 → Nat
  | [], _, best, _ => best
  | entry :: entries, index, best, minCount =>
      if entry.accessCount < minCount then
        leastUsedFrom entries (index + 1) index entry.accessCount
      else leastUsedFrom entries (index + 1) best minCount

def leastUsed : List (JsonCacheEntry δ) → Nat
  | [] => 0
  | entry :: entries => leastUsedFrom entries 1 0 entry.accessCount

/-- The entry that `evict_entry` chooses. -/
def victimIndex (type : CacheType) (entries : List (JsonCacheEntry δ)) : Nat :=
  match type with
  | .lfu => leastUsed entries
  | .lru | .fifo => entries.length - 1

/-- Where an entry goes that was used: `move_to_front`, `reposition_by_frequency`, or
nowhere. -/
def placeEntry (type : CacheType) (index : Nat) (entry : JsonCacheEntry δ)
    (entries : List (JsonCacheEntry δ)) : List (JsonCacheEntry δ) :=
  let others := entries.eraseIdx index
  match type with
  | .lru => entry :: others
  | .lfu =>
      others.takeWhile (fun other => entry.accessCount ≤ other.accessCount) ++
        entry :: others.dropWhile (fun other => entry.accessCount ≤ other.accessCount)
  | .fifo => entries.set index entry

namespace JsonCache

def cacheCreate (config : JsonCacheConfig δ) (now : Int64) : JsonCache δ :=
  { config := config, entries := [], size := 0, byteSize := 0, lastCleanup := now, evicted := [] }

variable (cache : JsonCache δ)

def unlinkAt (index : Nat) (entry : JsonCacheEntry δ) : JsonCache δ :=
  { cache with
    entries := cache.entries.eraseIdx index
    size := cache.size - 1
    byteSize := cache.byteSize - entry.size }

def evictEntry : JsonCache δ :=
  let index := victimIndex cache.config.type cache.entries
  match cache.entries[index]? with
  | none => cache
  | some victim =>
      { cache.unlinkAt index victim with
        evicted := cache.evicted ++
          [{ type := cache.config.type
             victim := victim
             others := cache.entries.eraseIdx index }] }

/-- A loop that evicts while `exceeds` holds, for at most so many rounds. -/
def evictWhile (exceeds : JsonCache δ → Bool) : Nat → JsonCache δ → Option (JsonCache δ)
  | 0, cache => if exceeds cache then none else some cache
  | rounds + 1, cache =>
      if exceeds cache then evictWhile exceeds rounds cache.evictEntry else some cache

def cacheSetConfig (config : JsonCacheConfig δ) : Option (JsonCache δ) :=
  let next := { cache with config := config }
  if config.capacity < cache.config.capacity then
    evictWhile (fun left => config.capacity < left.size) cache.entries.length next
  else some next

def cacheRunCleanup (now : Int64) : JsonCache δ :=
  let expired := cache.entries.filter fun entry => entry.expired now
  { cache with
    lastCleanup := now
    entries := cache.entries.filter fun entry => !entry.expired now
    size := cache.size - expired.length
    byteSize := expired.foldl (fun bytes entry => bytes - entry.size) cache.byteSize }

def cacheRemove (key : Bytes) : Option (JsonCache δ) :=
  (findCacheEntry key cache.entries).map fun
    | some (index, entry) => cache.unlinkAt index entry
    | none => cache

def useAt (index : Nat) (entry : JsonCacheEntry δ) : JsonCache δ :=
  { cache with entries := placeEntry cache.config.type index entry cache.entries }

end JsonCache

/-- What a get returned, and the end of the time to live of the entry it found. -/
structure CacheGet (δ : Type) where
  now : Int64
  result : Option (JsonValue δ)
  deadline : Option Int

namespace JsonCache

variable (cache : JsonCache δ)

def cacheGet (event : Nat) (key : Bytes) (now : Int64) (cloned : Bool) :
    Option (CacheGet δ × JsonCache δ) :=
  (findCacheEntry key cache.entries).map fun
    | none => (⟨now, none, none⟩, cache)
    | some (index, entry) =>
        if entry.expired now then (⟨now, none, none⟩, cache.unlinkAt index entry)
        else
          let result := if cloned then entry.value.map jsonClone else none
          (⟨now, result, entry.history.deadline⟩, cache.useAt index (entry.use event))

/-- The part of `cache_put` that updates an entry. -/
def updateEntry (event index : Nat) (entry : JsonCacheEntry δ) (key : Bytes)
    (value : JsonValue δ) (valueSize : UInt64) (ttl stamp : Int64) (copies : EntryCopies) :
    JsonCache δ :=
  let ttl := cache.config.effectiveTtl ttl
  let used := entry.use event
  let updated := { used with
    value := if copies.value then some (jsonClone value) else none
    expires := expiry stamp ttl
    size := cacheEntrySize key valueSize
    history := { used.history with deadline := deadline stamp ttl } }
  { cache.useAt index updated with byteSize := cache.byteSize + (updated.size - entry.size) }

def createEntry (event : Nat) (key : Bytes) (value : JsonValue δ) (valueSize : UInt64)
    (ttl stamp : Int64) (copies : EntryCopies) : JsonCacheEntry δ :=
  { key := if copies.key then some key else none
    value := if copies.value then some (jsonClone value) else none
    expires := expiry stamp ttl
    size := cacheEntrySize key valueSize
    accessCount := 1
    history := { inserted := event, used := event, uses := 1, deadline := deadline stamp ttl } }

end JsonCache

namespace JsonCache

variable [CDoubleSize δ] (cache : JsonCache δ)

def atMemoryLimit : Bool :=
  let limit := cache.config.maxMemoryMb
  let megabyte : δ := CDouble.mul (CDoubleSize.ofUInt64 1024) (CDoubleSize.ofUInt64 1024)
  let held := CDouble.div (CDoubleSize.ofUInt64 cache.byteSize) megabyte
  CDouble.lt (CDoubleSize.ofUInt64 0) limit &&
    (CDouble.lt limit held || CDouble.eq held limit) && 0 < cache.size

def cleanupDue (now : Int64) : Bool :=
  cache.config.cleanupInterval.toInt64 ≤ now - cache.lastCleanup

def makeRoom : Option (JsonCache δ) :=
  let next := if 0 < cache.config.capacity ∧ cache.config.capacity ≤ cache.size then
    cache.evictEntry else cache
  evictWhile atMemoryLimit next.entries.length next

/-- The part of `cache_put` that adds an entry.  It calls `cache_run_cleanup` with the
mutex locked, which locks it again and waits for ever. -/
def addEntry (event : Nat) (key : Bytes) (value : JsonValue δ) (valueSize : UInt64)
    (ttl now stamp : Int64) (copies : EntryCopies) : Option (JsonCache δ) :=
  if cache.cleanupDue now then none
  else
    cache.makeRoom.map fun roomy =>
      if copies.entry then
        let entry := createEntry event key value valueSize (roomy.config.effectiveTtl ttl) stamp
          copies
        { roomy with
          entries := entry :: roomy.entries
          size := roomy.size + 1
          byteSize := roomy.byteSize + entry.size }
      else roomy

def cachePut (event : Nat) (key : Bytes) (value : JsonValue δ) (valueSize : UInt64)
    (ttl now stamp : Int64) (copies : EntryCopies) : Option (JsonCache δ) :=
  (findCacheEntry key cache.entries).bind fun
    | some (index, entry) =>
        some (cache.updateEntry event index entry key value valueSize ttl stamp copies)
    | none => cache.addEntry event key value valueSize ttl now stamp copies

end JsonCache

/-- The cache, the number of events so far, and what gets have returned. -/
structure JsonCacheState (δ : Type) where
  cache : JsonCache δ
  events : Nat
  gets : List (CacheGet δ)

inductive JsonCacheCall (δ : Type) where
  | put (key : Bytes) (value : JsonValue δ) (valueSize : UInt64) (ttl now stamp : Int64)
      (copies : EntryCopies)
  | get (key : Bytes) (now : Int64) (cloned : Bool)
  | remove (key : Bytes)
  | cleanup (now : Int64)
  | setConfig (config : JsonCacheConfig δ)

def JsonCacheState.start (config : JsonCacheConfig δ) (now : Int64) : JsonCacheState δ :=
  { cache := .cacheCreate config now, events := 0, gets := [] }

def JsonCacheState.withCache (state : JsonCacheState δ) (cache : JsonCache δ) :
    JsonCacheState δ :=
  { state with cache := cache, events := state.events + 1 }

def jsonCacheStep [CDoubleSize δ] (state : JsonCacheState δ) :
    JsonCacheCall δ → Option (JsonCacheState δ)
  | .put key value valueSize ttl now stamp copies =>
      (state.cache.cachePut state.events key value valueSize ttl now stamp copies).map
        state.withCache
  | .get key now cloned =>
      (state.cache.cacheGet state.events key now cloned).map fun (answer, cache) =>
        { state.withCache cache with gets := state.gets ++ [answer] }
  | .remove key => (state.cache.cacheRemove key).map state.withCache
  | .cleanup now => some (state.withCache (state.cache.cacheRunCleanup now))
  | .setConfig config => (state.cache.cacheSetConfig config).map state.withCache

/-- The sum of the sizes, as a `size_t`. -/
def entrySizes (entries : List (JsonCacheEntry δ)) : UInt64 :=
  entries.foldr (fun entry bytes => entry.size + bytes) 0

/-- The policy names the victim: no other entry was used less recently, or less often, or
is older. -/
def CacheEviction.Named (eviction : CacheEviction δ) : Prop :=
  ∀ other ∈ eviction.others,
    match eviction.type with
    | .lru => eviction.victim.history.used ≤ other.history.used
    | .lfu => eviction.victim.history.uses ≤ other.history.uses
    | .fifo => eviction.victim.history.inserted ≤ other.history.inserted

/-- What the cache is to keep. -/
structure JsonCacheLaw (state : JsonCacheState δ) : Prop where
  oneEntry : (state.cache.entries.map JsonCacheEntry.key).Nodup
  counted : state.cache.size = state.cache.entries.length
  summed : state.cache.byteSize = entrySizes state.cache.entries
  bounded : state.cache.config.capacity ≠ 0 → state.cache.size ≤ state.cache.config.capacity
  living : ∀ answer ∈ state.gets, answer.result.isSome → ∀ ends ∈ answer.deadline,
    answer.now.toInt < ends
  named : ∀ eviction ∈ state.cache.evicted, eviction.Named

def CallLawful [CDoubleSize δ] (state : JsonCacheState δ) (call : JsonCacheCall δ) : Prop :=
  ∃ next, jsonCacheStep state call = some next ∧ JsonCacheLaw next

/-- The list is in the order that `evict_entry` takes from it under the policy. -/
def InOrder (type : CacheType) (entries : List (JsonCacheEntry δ)) : Prop :=
  match type with
  | .lru => entries.Pairwise fun first second => second.history.used < first.history.used
  | .lfu => True
  | .fifo => entries.Pairwise fun first second => second.history.inserted < first.history.inserted

instance (type : CacheType) (entries : List (JsonCacheEntry δ)) :
    Decidable (InOrder type entries) :=
  match type with
  | .lru => inferInstanceAs (Decidable (entries.Pairwise _))
  | .lfu => inferInstanceAs (Decidable True)
  | .fifo => inferInstanceAs (Decidable (entries.Pairwise _))

/-- The end of the time to live is a time after the epoch that a `time_t` holds. -/
def ExpiryFits (stamp ttl : Int64) : Prop :=
  0 < ttl → 0 < stamp.toInt + ttl.toInt ∧ stamp.toInt + ttl.toInt < 2 ^ 63

instance (stamp ttl : Int64) : Decidable (ExpiryFits stamp ttl) :=
  inferInstanceAs (Decidable (_ → _))

/-- No entry of the key has been used as often as `access_count` can tell. -/
def CountFits (entries : List (JsonCacheEntry δ)) (key : Bytes) : Prop :=
  ∀ entry ∈ entries, entry.key = some key → entry.history.uses + 1 < 2 ^ 32

instance (entries : List (JsonCacheEntry δ)) (key : Bytes) : Decidable (CountFits entries key) :=
  inferInstanceAs (Decidable (∀ entry ∈ entries, _))

/-- No new entry is put when a clean-up is due, or without a copy of its key; a bound on an
unbounded cache is not below its size; and a new policy finds the list in its order. -/
def KeepsCacheLaw [CDoubleSize δ] (state : JsonCacheState δ) : JsonCacheCall δ → Prop
  | .put key _ _ ttl now stamp copies =>
      ((∀ entry ∈ state.cache.entries, entry.key ≠ some key) →
        state.cache.cleanupDue now = false ∧ (copies.entry → copies.key)) ∧
          ExpiryFits stamp (state.cache.config.effectiveTtl ttl) ∧
            CountFits state.cache.entries key
  | .get key _ _ => CountFits state.cache.entries key
  | .remove _ | .cleanup _ => True
  | .setConfig config =>
      (state.cache.config.capacity = 0 → config.capacity ≠ 0 →
        state.cache.size ≤ config.capacity) ∧ InOrder config.type state.cache.entries

instance [CDoubleSize δ] (state : JsonCacheState δ) : DecidablePred (KeepsCacheLaw state)
  | .put _ _ _ _ _ _ _ => inferInstanceAs (Decidable ((_ → _ ∧ (_ → _)) ∧ _ ∧ _))
  | .get key _ _ => inferInstanceAs (Decidable (CountFits state.cache.entries key))
  | .remove _ | .cleanup _ => inferInstanceAs (Decidable True)
  | .setConfig _ => inferInstanceAs (Decidable ((_ → _ → _) ∧ _))

end Model

end Jdbx
