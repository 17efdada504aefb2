import Jdbx.Library.LinkedTable
import Jdbx.Rbac.Jwt

/-!
# The cache of verified tokens

`jwt_cache.c`: payloads of tokens that `jwt_verify` accepted, found by the
SHA-256 of the token.  An entry hangs in a bucket and in the list from
`lru_head` to `lru_tail`.  The number of buckets is kept twice: as the length of
the array, and as the global that `jwt_cache_configure` sets and by which
`get_bucket_index` divides.  A function is without a result where an index lies
outside the array.
-/

namespace Jdbx

open Library

variable {δ : Type}

abbrev Sha256 :=
  Bytes → Vector UInt8 32

/-- `jwt_cache_entry_t`, without the name for the log and without the links. -/
structure JwtCacheEntry (δ : Type) where
  tokenHash : Option Bytes
  claims : Option (JwtPayload δ)
  userId : Option Bytes
  expiry : Int64
  cachedAt : Int64

/-- What `free_cache_entry` leaves of an entry. -/
def freeCacheEntry (entry : JwtCacheEntry δ) : JwtCacheEntry δ :=
  { entry with tokenHash := none, claims := none, userId := none, expiry := 0 }

/-- The globals that `jwt_cache_configure` sets and the functions read. -/
structure JwtCacheConfig where
  bucketCount : Int32
  ttlSeconds : Int32
  bucketCount_pos : 0 < bucketCount
  ttlSeconds_pos : 0 < ttlSeconds

/-- `jwt_cache_configure`.  Nothing reads the number of entries it stores. -/
def jwtCacheConfigure (bucketCount ttlSeconds : Int32) : JwtCacheConfig where
  bucketCount := if bucketCount > 0 then bucketCount else 1024
  ttlSeconds := if ttlSeconds > 0 then ttlSeconds else 30 * 60
  bucketCount_pos := by
    split_ifs with positive
    · exact positive
    · decide
  ttlSeconds_pos := by
    split_ifs with positive
    · exact positive
    · decide

/-- `jwt_cache_t` with its globals.  `heap` holds every entry ever allocated, and
a pointer is a position in it. -/
structure JwtCache (δ : Type) extends LinkedTable Nat where
  heap : List (JwtCacheEntry δ)
  config : JwtCacheConfig
  maxEntries : UInt64
  currentEntries : UInt64

def jwtCacheInit (config : JwtCacheConfig) (maxEntries : UInt64) : JwtCache δ where
  toLinkedTable := .empty config.bucketCount.toInt.toNat
  heap := []
  config := config
  maxEntries := maxEntries
  currentEntries := 0

/-- `hash_token`: the digest in hexadecimal. -/
def hashToken (sha256 : Sha256) (token : Bytes) : Bytes :=
  (sha256 token).toList.flatMap fun byte =>
    [hexDigitByte (byte.toNat / 16), hexDigitByte (byte.toNat % 16)]

def JwtCacheConfig.bucketIndex (config : JwtCacheConfig) (tokenHash : Bytes) : Nat :=
  let hash : UInt32 := tokenHash.foldl
    (fun hash byte => ((hash <<< 5) + hash) + byte.toInt8.toInt32.toUInt32) 5381
  (hash % config.bucketCount.toUInt32).toNat

namespace JwtCache

variable (cache : JwtCache δ)

def entryAt (pointer : Nat) : JwtCacheEntry δ :=
  cache.heap.getD pointer
    { tokenHash := none, claims := none, userId := none, expiry := 0, cachedAt := 0 }

def remove (index pointer : Nat) : JwtCache δ :=
  { cache with
    toLinkedTable := cache.unlink index pointer
    heap := cache.heap.set pointer (freeCacheEntry (cache.entryAt pointer))
    currentEntries := cache.currentEntries - 1 }

def isFresh (now : Int64) (entry : JwtCacheEntry δ) : Bool :=
  now < entry.expiry && now < entry.cachedAt + cache.config.ttlSeconds.toInt64

end JwtCache

/-- Which copies of `jwt_payload_duplicate` are allocated. -/
structure DuplicateMemory where
  payload : Bool
  iss : Bool
  sub : Bool
  aud : Bool
  jti : Bool

def DuplicateMemory.isComplete (memory : DuplicateMemory) : Bool :=
  !memory.payload || (memory.iss && memory.sub && memory.aud && memory.jti)

def strdup (allocated : Bool) (text : Option Bytes) : Option Bytes :=
  if allocated then text else none

def jwtPayloadDuplicate (memory : DuplicateMemory) (payload : JwtPayload δ) :
    Option (JwtPayload δ) :=
  if memory.payload then
    some { payload with
      iss := strdup memory.iss payload.iss
      sub := strdup memory.sub payload.sub
      aud := strdup memory.aud payload.aud
      jti := strdup memory.jti payload.jti
      claims := jsonCloneEntries [] payload.claims }
  else none

def jwtCacheGet (sha256 : Sha256) (cache : JwtCache δ) (now : Int64) (token : Bytes)
    (memory : DuplicateMemory) : Option (Option (JwtPayload δ)) :=
  let tokenHash := hashToken sha256 token
  (cache.buckets[cache.config.bucketIndex tokenHash]?).map fun chain =>
    match chain.find? fun pointer => (cache.entryAt pointer).tokenHash = some tokenHash with
    | some found =>
        let entry := cache.entryAt found
        if cache.isFresh now entry then entry.claims.bind (jwtPayloadDuplicate memory) else none
    | none => none

/-- Which parts of an entry are allocated. -/
structure EntryMemory where
  entry : Bool
  tokenHash : Bool
  userId : Bool

/-- The search of `jwt_cache_put`, and what it leaves of the chain: it cuts it
before an entry without a hash. -/
def JwtCache.searchChain (cache : JwtCache δ) (tokenHash : Bytes) :
    List Nat → Option Nat × List Nat
  | [] => (none, [])
  | pointer :: chain =>
      match (cache.entryAt pointer).tokenHash with
      | none => (none, [])
      | some other =>
          if other = tokenHash then (some pointer, pointer :: chain)
          else
            let (found, kept) := cache.searchChain tokenHash chain
            (found, pointer :: kept)

/-- `jwt_cache_put` on an entry that exists: it is only stamped anew. -/
def JwtCache.stamp (cache : JwtCache δ) (now : Int64) (pointer : Nat) : JwtCache δ :=
  { cache with
    toLinkedTable := cache.touch pointer
    heap := cache.heap.set pointer { cache.entryAt pointer with cachedAt := now } }

/-- The entry at `lru_tail` gives way to another one. -/
def JwtCache.evict (cache : JwtCache δ) : Option (JwtCache δ) :=
  match cache.order.getLast? with
  | none => some cache
  | some tail => do
      let tokenHash ← (cache.entryAt tail).tokenHash
      let bucket := cache.config.bucketIndex tokenHash
      let chain ← cache.buckets[bucket]?
      if tail ∈ chain then some (cache.remove bucket tail) else some cache

/-- What `jwt_cache_put` writes into a new entry. -/
def newEntry (tokenHash : Bytes) (claims : JwtPayload δ) (userId : Option Bytes) (now : Int64) :
    JwtCacheEntry δ where
  tokenHash := some tokenHash
  claims := some claims
  userId := userId
  expiry := claims.exp
  cachedAt := now

def JwtCache.insert (cache : JwtCache δ) (bucket : Nat) (entry : JwtCacheEntry δ) : JwtCache δ :=
  { cache with
    toLinkedTable := cache.link bucket cache.heap.length
    heap := cache.heap ++ [entry]
    currentEntries := cache.currentEntries + 1 }

def jwtCachePut (sha256 : Sha256) (cache : JwtCache δ) (now : Int64) (token : Bytes)
    (claims : JwtPayload δ) (userId : Option Bytes) (memory : EntryMemory) :
    Option (JwtCache δ) := do
  let tokenHash := hashToken sha256 token
  let bucket := cache.config.bucketIndex tokenHash
  let chain ← cache.buckets[bucket]?
  let (existing, kept) := cache.searchChain tokenHash chain
  let cache := { cache with toLinkedTable := cache.setChain bucket kept }
  match existing with
  | some found => some (cache.stamp now found)
  | none =>
      let cache ← if cache.currentEntries ≥ cache.maxEntries then cache.evict else some cache
      if memory.entry && memory.tokenHash then
        some (cache.insert bucket
          (newEntry tokenHash claims (strdup memory.userId userId) now))
      else some cache

def jwtCacheInvalidateToken (sha256 : Sha256) (cache : JwtCache δ) (token : Bytes) :
    Option (JwtCache δ) :=
  let tokenHash := hashToken sha256 token
  let bucket := cache.config.bucketIndex tokenHash
  (cache.buckets[bucket]?).map fun chain =>
    match chain.find? fun pointer => (cache.entryAt pointer).tokenHash = some tokenHash with
    | some found => cache.remove bucket found
    | none => cache

def JwtCache.sweepChain (toGo : JwtCacheEntry δ → Bool) (index : Nat) :
    List Nat → JwtCache δ → JwtCache δ
  | [], cache => cache
  | pointer :: chain, cache =>
      sweepChain toGo index chain
        (if toGo (cache.entryAt pointer) then cache.remove index pointer else cache)

def JwtCache.sweep (toGo : JwtCacheEntry δ → Bool) (cache : JwtCache δ) : Nat → JwtCache δ
  | 0 => cache
  | index + 1 =>
      let swept := cache.sweep toGo index
      swept.sweepChain toGo index (swept.chain index)

def jwtCacheInvalidateUser (cache : JwtCache δ) (userId : Bytes) : JwtCache δ :=
  cache.sweep (fun entry => entry.userId = some userId) cache.buckets.length

def jwtCacheCleanup (cache : JwtCache δ) (now : Int64) : JwtCache δ :=
  cache.sweep
    (fun entry => entry.expiry ≠ 0 && entry.cachedAt ≠ 0 &&
      (now ≥ entry.expiry || now ≥ entry.cachedAt + cache.config.ttlSeconds.toInt64))
    cache.buckets.length

namespace JwtCache

variable {cache : JwtCache δ}

/-- Chains and list hold the same entries, one for each hash, and
`current_entries` counts them within `max_entries`. -/
structure Consistent (cache : JwtCache δ) : Prop where
  linked : cache.Linked
  inHeap : ∀ pointer ∈ cache.order, pointer < cache.heap.length
  hashed : ∀ pointer ∈ cache.order, (cache.entryAt pointer).tokenHash.isSome
  distinct : ∀ first ∈ cache.order, ∀ second ∈ cache.order,
    (cache.entryAt first).tokenHash = (cache.entryAt second).tokenHash → first = second
  counted : cache.currentEntries.toNat = cache.order.length
  bounded : cache.currentEntries ≤ cache.maxEntries

theorem jwtCacheInit_consistent (config : JwtCacheConfig) (maxEntries : UInt64) :
    (jwtCacheInit config maxEntries : JwtCache δ).Consistent := by
  have noEntry : ∀ pointer, pointer ∉ (jwtCacheInit config maxEntries : JwtCache δ).order :=
    fun pointer member => nomatch member
  exact ⟨LinkedTable.linked_empty _, fun pointer member => absurd member (noEntry pointer),
    fun pointer member => absurd member (noEntry pointer),
    fun pointer member => absurd member (noEntry pointer), rfl, UInt64.zero_le⟩

/-- Some entries are removed, and the others stay as they are. -/
structure Shrinks (before after : JwtCache δ) : Prop where
  subset : ∀ pointer ∈ after.order, pointer ∈ before.order
  chain : ∀ index, ∀ pointer ∈ after.chain index, pointer ∈ before.chain index
  entryAt : ∀ pointer ∈ after.order, after.entryAt pointer = before.entryAt pointer
  config : after.config = before.config
  maxEntries : after.maxEntries = before.maxEntries
  buckets : after.buckets.length = before.buckets.length

theorem Shrinks.refl (cache : JwtCache δ) : cache.Shrinks cache :=
  ⟨fun _ => id, fun _ _ => id, fun _ _ => rfl, rfl, rfl, rfl⟩

theorem Shrinks.trans {before between after : JwtCache δ} (first : before.Shrinks between)
    (second : between.Shrinks after) : before.Shrinks after :=
  ⟨fun pointer member => first.subset pointer (second.subset pointer member),
    fun index pointer member => first.chain index pointer (second.chain index pointer member),
    fun pointer member => (second.entryAt pointer member).trans
      (first.entryAt pointer (second.subset pointer member)),
    second.config.trans first.config, second.maxEntries.trans first.maxEntries,
    second.buckets.trans first.buckets⟩

theorem entryAt_remove {index pointer other : Nat} (different : other ≠ pointer) :
    (cache.remove index pointer).entryAt other = cache.entryAt other := by
  simp only [entryAt, remove, List.getD_eq_getElem?_getD, List.getElem?_set_ne different.symm]

theorem Consistent.shrinks_remove (consistent : cache.Consistent) {index pointer : Nat}
    (member : pointer ∈ cache.chain index) : cache.Shrinks (cache.remove index pointer) := by
  refine ⟨fun other inside => (consistent.linked.mem_unlink.mp inside).2,
    fun _ other inside => ((consistent.linked.mem_unlink_chain member).mp inside).2,
    fun other inside => ?_, rfl, rfl, List.length_set⟩
  exact entryAt_remove (consistent.linked.mem_unlink.mp inside).1

theorem Consistent.remove (consistent : cache.Consistent) {index pointer : Nat}
    (member : pointer ∈ cache.chain index) : (cache.remove index pointer).Consistent := by
  have inOrder : pointer ∈ cache.order := (consistent.linked.mem_order pointer).mpr ⟨index, member⟩
  have shrinks := consistent.shrinks_remove member
  have fewer : (cache.remove index pointer).order.length + 1 = cache.order.length :=
    LinkedTable.Linked.length_unlink inOrder
  have counted := consistent.counted
  have one : (1 : UInt64) ≤ cache.currentEntries := by
    rw [UInt64.le_iff_toNat_le, counted]
    exact List.length_pos_of_mem inOrder
  have count : (cache.remove index pointer).currentEntries.toNat =
      cache.currentEntries.toNat - 1 :=
    UInt64.toNat_sub_of_le _ _ one
  refine ⟨consistent.linked.unlink member, fun other inside => ?_, fun other inside => ?_,
    fun first firstInside second secondInside same => ?_, ?_, ?_⟩
  · have sameHeap : (cache.remove index pointer).heap.length = cache.heap.length :=
      List.length_set
    rw [sameHeap]
    exact consistent.inHeap other (shrinks.subset other inside)
  · rw [shrinks.entryAt other inside]
    exact consistent.hashed other (shrinks.subset other inside)
  · rw [shrinks.entryAt first firstInside, shrinks.entryAt second secondInside] at same
    exact consistent.distinct first (shrinks.subset first firstInside) second
      (shrinks.subset second secondInside) same
  · omega
  · have bounded := consistent.bounded
    rw [UInt64.le_iff_toNat_le] at bounded ⊢
    rw [count]
    exact (Nat.sub_le _ _).trans bounded

/-- The bucket that `get_bucket_index` names is in the array, and no other one
holds an entry of the token. -/
def Placed (cache : JwtCache δ) (tokenHash : Bytes) : Prop :=
  cache.config.bucketIndex tokenHash < cache.buckets.length ∧
    ∀ index < cache.buckets.length, ∀ pointer ∈ cache.chain index,
      (cache.entryAt pointer).tokenHash = some tokenHash →
        index = cache.config.bucketIndex tokenHash

instance (cache : JwtCache δ) : DecidablePred cache.Placed :=
  fun _ => inferInstanceAs (Decidable (_ ∧ _))

variable {tokenHash : Bytes}

theorem Placed.bucket (placed : cache.Placed tokenHash) :
    cache.buckets[cache.config.bucketIndex tokenHash]? =
      some (cache.chain (cache.config.bucketIndex tokenHash)) := by
  rw [LinkedTable.chain, List.getD, List.getElem?_eq_getElem placed.1, Option.getD_some]

theorem Placed.mem_chain (placed : cache.Placed tokenHash) (consistent : cache.Consistent)
    {pointer : Nat} (member : pointer ∈ cache.order)
    (hash : (cache.entryAt pointer).tokenHash = some tokenHash) :
    pointer ∈ cache.chain (cache.config.bucketIndex tokenHash) := by
  obtain ⟨index, inside⟩ := (consistent.linked.mem_order pointer).mp member
  rw [← placed.2 index (LinkedTable.index_lt inside) pointer inside hash]
  exact inside

theorem find?_eq_some_iff (placed : cache.Placed tokenHash) (consistent : cache.Consistent)
    {pointer : Nat} :
    (cache.chain (cache.config.bucketIndex tokenHash)).find?
        (fun pointer => (cache.entryAt pointer).tokenHash = some tokenHash) = some pointer ↔
      pointer ∈ cache.order ∧ (cache.entryAt pointer).tokenHash = some tokenHash := by
  constructor
  · intro found
    have inChain := List.mem_of_find?_eq_some found
    exact ⟨(consistent.linked.mem_order pointer).mpr ⟨_, inChain⟩, by
      simpa using List.find?_some found⟩
  · rintro ⟨member, hash⟩
    have inChain := placed.mem_chain consistent member hash
    cases found : (cache.chain (cache.config.bucketIndex tokenHash)).find?
        (fun pointer => (cache.entryAt pointer).tokenHash = some tokenHash) with
    | none =>
        have missed := List.find?_eq_none.mp found pointer inChain
        simp [hash] at missed
    | some other =>
        have otherIn := (consistent.linked.mem_order other).mpr
          ⟨_, List.mem_of_find?_eq_some found⟩
        have otherHash : (cache.entryAt other).tokenHash = some tokenHash := by
          simpa using List.find?_some found
        rw [consistent.distinct other otherIn pointer member (otherHash.trans hash.symm)]

theorem searchChain_eq (tokenHash : Bytes) {chain : List Nat}
    (hashed : ∀ pointer ∈ chain, (cache.entryAt pointer).tokenHash.isSome) :
    cache.searchChain tokenHash chain =
      (chain.find? fun pointer => (cache.entryAt pointer).tokenHash = some tokenHash, chain) := by
  induction chain with
  | nil => rfl
  | cons pointer chain ih =>
      obtain ⟨other, hash⟩ := Option.isSome_iff_exists.mp (hashed pointer List.mem_cons_self)
      have tail := ih fun later member =>
        hashed later (List.mem_cons_of_mem pointer member)
      rw [searchChain, hash, List.find?_cons, hash]
      by_cases same : other = tokenHash
      · simp [same]
      · simp [same, tail]

theorem Consistent.stamp (consistent : cache.Consistent) (now : Int64) {pointer : Nat}
    (member : pointer ∈ cache.order) :
    (cache.stamp now pointer).Consistent ∧
      (∀ other, other ∈ (cache.stamp now pointer).order ↔ other ∈ cache.order) ∧
        (cache.stamp now pointer).entryAt pointer =
            { cache.entryAt pointer with cachedAt := now } ∧
          ∀ other ≠ pointer, (cache.stamp now pointer).entryAt other = cache.entryAt other := by
  have inside := consistent.inHeap pointer member
  have sameOrder : ∀ other, other ∈ (cache.stamp now pointer).order ↔ other ∈ cache.order :=
    fun other => LinkedTable.mem_touch member
  have stamped : (cache.stamp now pointer).entryAt pointer =
      { cache.entryAt pointer with cachedAt := now } := by
    simp only [JwtCache.entryAt, JwtCache.stamp, List.getD_eq_getElem?_getD,
      List.getElem?_set_self inside, Option.getD_some]
  have others : ∀ other ≠ pointer,
      (cache.stamp now pointer).entryAt other = cache.entryAt other := by
    intro other different
    simp only [JwtCache.entryAt, JwtCache.stamp, List.getD_eq_getElem?_getD,
      List.getElem?_set_ne different.symm]
  have sameHash : ∀ other, ((cache.stamp now pointer).entryAt other).tokenHash =
      (cache.entryAt other).tokenHash := by
    intro other
    by_cases same : other = pointer
    · rw [same, stamped]
    · rw [others other same]
  refine ⟨⟨consistent.linked.touch member, fun other found => ?_, fun other found => ?_,
    fun first firstIn second secondIn same => ?_, ?_, consistent.bounded⟩,
    sameOrder, stamped, others⟩
  · have sameHeap : (cache.stamp now pointer).heap.length = cache.heap.length := List.length_set
    rw [sameHeap]
    exact consistent.inHeap other ((sameOrder other).mp found)
  · rw [sameHash]
    exact consistent.hashed other ((sameOrder other).mp found)
  · rw [sameHash, sameHash] at same
    exact consistent.distinct first ((sameOrder first).mp firstIn) second
      ((sameOrder second).mp secondIn) same
  · exact consistent.counted.trans (LinkedTable.length_touch member).symm

theorem Consistent.evict (consistent : cache.Consistent)
    {tail : Nat} (last : cache.order.getLast? = some tail)
    (hash : (cache.entryAt tail).tokenHash = some tokenHash) (placed : cache.Placed tokenHash) :
    cache.evict = some (cache.remove (cache.config.bucketIndex tokenHash) tail) ∧
      tail ∈ cache.chain (cache.config.bucketIndex tokenHash) := by
  have inChain := placed.mem_chain consistent (List.mem_of_getLast? last) hash
  refine ⟨?_, inChain⟩
  simp only [JwtCache.evict, last, hash, placed.bucket, Option.bind_eq_bind, Option.bind_some,
    if_pos inChain]

theorem Consistent.insert (consistent : cache.Consistent) {bucket : Nat}
    (inside : bucket < cache.buckets.length) (room : cache.currentEntries < cache.maxEntries)
    {entry : JwtCacheEntry δ} (hash : entry.tokenHash = some tokenHash)
    (fresh : ∀ pointer ∈ cache.order, (cache.entryAt pointer).tokenHash ≠ some tokenHash) :
    (cache.insert bucket entry).Consistent ∧
      (cache.insert bucket entry).entryAt cache.heap.length = entry ∧
        ∀ pointer ∈ cache.order, (cache.insert bucket entry).entryAt pointer =
          cache.entryAt pointer := by
  have new : (cache.insert bucket entry).entryAt cache.heap.length = entry := by
    simp [JwtCache.entryAt, JwtCache.insert]
  have old : ∀ pointer ∈ cache.order, (cache.insert bucket entry).entryAt pointer =
      cache.entryAt pointer := by
    intro pointer member
    simp only [JwtCache.entryAt, JwtCache.insert, List.getD_eq_getElem?_getD,
      List.getElem?_append_left (consistent.inHeap pointer member)]
  have notThere : cache.heap.length ∉ cache.order :=
    fun member => Nat.lt_irrefl _ (consistent.inHeap _ member)
  have counted := consistent.counted
  have small := room
  rw [UInt64.lt_iff_toNat_lt] at small
  have size := cache.maxEntries.toNat_lt
  have count : (cache.insert bucket entry).currentEntries.toNat =
      cache.currentEntries.toNat + 1 := by
    change (cache.currentEntries + 1).toNat = _
    rw [UInt64.toNat_add]
    change (cache.currentEntries.toNat + 1) % 2 ^ 64 = _
    omega
  refine ⟨⟨consistent.linked.link inside notThere, fun pointer member => ?_,
    fun pointer member => ?_, fun first firstIn second secondIn same => ?_, ?_, ?_⟩, new, old⟩
  · have longer : (cache.insert bucket entry).heap.length = cache.heap.length + 1 := by
      simp [JwtCache.insert]
    rw [longer]
    rcases List.mem_cons.mp member with rfl | member
    · exact Nat.lt_succ_self _
    · exact Nat.lt_succ_of_lt (consistent.inHeap pointer member)
  · rcases List.mem_cons.mp member with rfl | member
    · rw [new, hash]
      rfl
    · rw [old pointer member]
      exact consistent.hashed pointer member
  · rcases List.mem_cons.mp firstIn with rfl | firstIn <;>
      rcases List.mem_cons.mp secondIn with rfl | secondIn
    · rfl
    · rw [new, hash, old second secondIn] at same
      exact absurd same.symm (fresh second secondIn)
    · rw [new, hash, old first firstIn] at same
      exact absurd same (fresh first firstIn)
    · rw [old first firstIn, old second secondIn] at same
      exact consistent.distinct first firstIn second secondIn same
  · rw [count, counted]
    rfl
  · rw [UInt64.le_iff_toNat_le, count]
    exact small

theorem sweepChain_spec (toGo : JwtCacheEntry δ → Bool) {index : Nat} {chain : List Nat} :
    ∀ {cache : JwtCache δ}, cache.Consistent → chain.Nodup →
      (∀ pointer ∈ chain, pointer ∈ cache.chain index) →
        (cache.sweepChain toGo index chain).Consistent ∧
          cache.Shrinks (cache.sweepChain toGo index chain) ∧
            ∀ pointer ∈ chain, pointer ∈ (cache.sweepChain toGo index chain).order →
              toGo ((cache.sweepChain toGo index chain).entryAt pointer) = false := by
  induction chain with
  | nil =>
      intro cache consistent _ _
      exact ⟨consistent, Shrinks.refl cache, fun pointer member => nomatch member⟩
  | cons pointer chain ih =>
      intro cache consistent nodup inside
      rw [List.nodup_cons] at nodup
      have member := inside pointer List.mem_cons_self
      rw [sweepChain]
      split_ifs with goes
      · have later : ∀ other ∈ chain, other ∈ (cache.remove index pointer).chain index := by
          intro other found
          apply (consistent.linked.mem_unlink_chain member).mpr
          exact ⟨fun same => nodup.1 (same ▸ found), inside other (List.mem_cons_of_mem _ found)⟩
        obtain ⟨kept, shrinks, none⟩ :=
          ih (consistent.remove member) nodup.2 later
        refine ⟨kept, (consistent.shrinks_remove member).trans shrinks, fun other found stays => ?_⟩
        rcases List.mem_cons.mp found with rfl | found
        · exact absurd rfl (consistent.linked.mem_unlink.mp (shrinks.subset other stays)).1
        · exact none other found stays
      · obtain ⟨kept, shrinks, none⟩ := ih consistent nodup.2
          fun other found => inside other (List.mem_cons_of_mem pointer found)
        refine ⟨kept, shrinks, fun other found stays => ?_⟩
        rcases List.mem_cons.mp found with rfl | found
        · rw [shrinks.entryAt other stays]
          simpa using goes
        · exact none other found stays

theorem sweep_chains (consistent : cache.Consistent) (toGo : JwtCacheEntry δ → Bool) (count : Nat) :
    (cache.sweep toGo count).Consistent ∧ cache.Shrinks (cache.sweep toGo count) ∧
      ∀ index < count, ∀ pointer ∈ (cache.sweep toGo count).chain index,
        toGo ((cache.sweep toGo count).entryAt pointer) = false := by
  induction count with
  | zero => exact ⟨consistent, Shrinks.refl cache, fun index below => nomatch below⟩
  | succ count ih =>
      obtain ⟨swept, shrinks, none⟩ := ih
      obtain ⟨kept, more, last⟩ :=
        sweepChain_spec toGo swept (swept.linked.chainNodup count) fun _ => id
      refine ⟨kept, shrinks.trans more, fun index below pointer member => ?_⟩
      have stays := (kept.linked.mem_order pointer).mpr ⟨index, member⟩
      rcases Nat.lt_succ_iff_lt_or_eq.mp below with earlier | rfl
      · exact (congrArg toGo (more.entryAt pointer stays)).trans
          (none index earlier pointer (more.chain index pointer member))
      · exact last pointer (more.chain index pointer member) stays

theorem sweep_spec (consistent : cache.Consistent) (toGo : JwtCacheEntry δ → Bool) :
    (cache.sweep toGo cache.buckets.length).Consistent ∧
      cache.Shrinks (cache.sweep toGo cache.buckets.length) ∧
        ∀ pointer ∈ (cache.sweep toGo cache.buckets.length).order,
          toGo ((cache.sweep toGo cache.buckets.length).entryAt pointer) = false := by
  obtain ⟨kept, shrinks, none⟩ := sweep_chains consistent toGo cache.buckets.length
  refine ⟨kept, shrinks, fun pointer member => ?_⟩
  obtain ⟨index, inside⟩ := (kept.linked.mem_order pointer).mp member
  have below := LinkedTable.index_lt inside
  rw [shrinks.buckets] at below
  exact none index below pointer inside

end JwtCache

theorem JwtCache.isFresh_spec {cache : JwtCache δ} {now : Int64} {entry : JwtCacheEntry δ}
    (fresh : cache.isFresh now entry = true) :
    now.toInt < entry.expiry.toInt ∧
      now.toInt < entry.cachedAt.toInt + cache.config.ttlSeconds.toInt := by
  rw [JwtCache.isFresh, Bool.and_eq_true, decide_eq_true_iff, decide_eq_true_iff,
    Int64.lt_iff_toInt_lt, Int64.lt_iff_toInt_lt, Int64.toInt_add] at fresh
  refine ⟨fresh.1, ?_⟩
  have positive := cache.config.ttlSeconds_pos
  rw [Int32.lt_iff_toInt_lt] at positive
  have same : cache.config.ttlSeconds.toInt64.toInt = cache.config.ttlSeconds.toInt :=
    Int32.toInt_toInt64 _
  have small := cache.config.ttlSeconds.toInt_lt
  have least := Int64.le_toInt entry.cachedAt
  have least' := Int64.le_toInt now
  have result := fresh.2
  rw [same, Int.bmod_def] at result
  change 0 < cache.config.ttlSeconds.toInt at positive
  split_ifs at result <;> omega

theorem jwtPayloadDuplicate_spec {memory : DuplicateMemory} (complete : memory.isComplete = true)
    {claims payload : JwtPayload δ} (duplicate : jwtPayloadDuplicate memory claims = some payload) :
    payload = { claims with claims := jsonCloneEntries [] claims.claims } := by
  rw [jwtPayloadDuplicate] at duplicate
  split_ifs at duplicate with allocated
  cases duplicate
  simp only [DuplicateMemory.isComplete, allocated, Bool.not_true, Bool.false_or,
    Bool.and_eq_true] at complete
  obtain ⟨⟨⟨iss, sub⟩, aud⟩, jti⟩ := complete
  simp only [strdup, iss, sub, aud, jti, ↓reduceIte]

section Token

variable {cache : JwtCache δ} {sha256 : Sha256} {token : Bytes}

theorem jwtCacheGet_spec (consistent : cache.Consistent)
    (inside : cache.config.bucketIndex (hashToken sha256 token) < cache.buckets.length)
    (now : Int64) (memory : DuplicateMemory) :
    ∃ answer, jwtCacheGet sha256 cache now token memory = some answer ∧
      ∀ payload ∈ answer, ∃ pointer ∈ cache.order,
        (cache.entryAt pointer).tokenHash = some (hashToken sha256 token) ∧
          cache.isFresh now (cache.entryAt pointer) = true ∧
            ∃ claims ∈ (cache.entryAt pointer).claims,
              jwtPayloadDuplicate memory claims = some payload := by
  have bucket : cache.buckets[cache.config.bucketIndex (hashToken sha256 token)]? =
      some (cache.chain (cache.config.bucketIndex (hashToken sha256 token))) := by
    rw [LinkedTable.chain, List.getD, List.getElem?_eq_getElem inside, Option.getD_some]
  simp only [jwtCacheGet, bucket, Option.map_some, Option.some.injEq, exists_eq_left']
  intro payload hit
  split at hit
  · rename_i pointer found
    split_ifs at hit with fresh
    · obtain ⟨claims, held, duplicate⟩ := Option.bind_eq_some_iff.mp hit
      refine ⟨pointer, ?_, by simpa using List.find?_some found, fresh, claims, held, duplicate⟩
      exact (consistent.linked.mem_order pointer).mpr ⟨_, List.mem_of_find?_eq_some found⟩
    · cases hit
  · cases hit

theorem jwtCacheInvalidateToken_spec (consistent : cache.Consistent)
    (placed : cache.Placed (hashToken sha256 token)) :
    ∃ after, jwtCacheInvalidateToken sha256 cache token = some after ∧ after.Consistent ∧
      cache.Shrinks after ∧ ∀ pointer ∈ after.order,
        (after.entryAt pointer).tokenHash ≠ some (hashToken sha256 token) := by
  simp only [jwtCacheInvalidateToken, placed.bucket, Option.map_some, Option.some.injEq,
    exists_eq_left']
  split
  · rename_i pointer found
    obtain ⟨member, hash⟩ := (JwtCache.find?_eq_some_iff placed consistent).mp found
    have inChain := placed.mem_chain consistent member hash
    have shrinks := consistent.shrinks_remove inChain
    refine ⟨consistent.remove inChain, shrinks, fun other stays sameHash => ?_⟩
    rw [shrinks.entryAt other stays] at sameHash
    have old := consistent.linked.mem_unlink.mp stays
    exact old.1 (consistent.distinct other old.2 pointer member (sameHash.trans hash.symm))
  · rename_i missed
    refine ⟨consistent, JwtCache.Shrinks.refl cache, fun pointer member hash => ?_⟩
    rw [(JwtCache.find?_eq_some_iff placed consistent).mpr ⟨member, hash⟩] at missed
    cases missed

def JwtCache.HasRoom (cache : JwtCache δ) : Prop :=
  cache.currentEntries ≥ cache.maxEntries →
    ∃ tail ∈ cache.order.getLast?, ∃ tokenHash ∈ (cache.entryAt tail).tokenHash,
      cache.Placed tokenHash

instance (cache : JwtCache δ) : Decidable cache.HasRoom :=
  inferInstanceAs (Decidable (_ → ∃ tail ∈ cache.order.getLast?,
    ∃ tokenHash ∈ (cache.entryAt tail).tokenHash, cache.Placed tokenHash))

theorem JwtCache.Consistent.makeRoom (consistent : cache.Consistent) (hasRoom : cache.HasRoom) :
    ∃ after, (if cache.currentEntries ≥ cache.maxEntries then cache.evict else some cache) =
        some after ∧ after.Consistent ∧ cache.Shrinks after ∧
          after.currentEntries < after.maxEntries := by
  split_ifs with full
  · obtain ⟨tail, last, tokenHash, hash, placed⟩ := hasRoom full
    obtain ⟨evicted, inChain⟩ := consistent.evict last hash placed
    have fewer : (cache.remove (cache.config.bucketIndex tokenHash) tail).order.length + 1 =
        cache.order.length :=
      LinkedTable.Linked.length_unlink (List.mem_of_getLast? last)
    have kept := consistent.remove inChain
    refine ⟨_, evicted, kept, consistent.shrinks_remove inChain, ?_⟩
    have counted := consistent.counted
    have bounded := consistent.bounded
    rw [UInt64.le_iff_toNat_le] at bounded
    rw [UInt64.lt_iff_toNat_lt, kept.counted]
    change _ < cache.maxEntries.toNat
    omega
  · exact ⟨cache, rfl, consistent, JwtCache.Shrinks.refl cache, UInt64.not_le.mp full⟩

theorem jwtCachePut_spec (consistent : cache.Consistent)
    (placed : cache.Placed (hashToken sha256 token))
    (hasRoom : (∀ pointer ∈ cache.order,
      (cache.entryAt pointer).tokenHash ≠ some (hashToken sha256 token)) → cache.HasRoom)
    (now : Int64) (claims : JwtPayload δ) (userId : Option Bytes) (memory : EntryMemory) :
    (∃ found ∈ cache.order,
      (cache.entryAt found).tokenHash = some (hashToken sha256 token) ∧
        jwtCachePut sha256 cache now token claims userId memory = some (cache.stamp now found)) ∨
      (∀ pointer ∈ cache.order,
        (cache.entryAt pointer).tokenHash ≠ some (hashToken sha256 token)) ∧
        ∃ between, between.Consistent ∧ cache.Shrinks between ∧
          between.currentEntries < between.maxEntries ∧
            jwtCachePut sha256 cache now token claims userId memory =
              some (if memory.entry && memory.tokenHash then
                between.insert (cache.config.bucketIndex (hashToken sha256 token))
                  (newEntry (hashToken sha256 token) claims (strdup memory.userId userId) now)
              else between) := by
  have hashed : ∀ pointer ∈ cache.chain (cache.config.bucketIndex (hashToken sha256 token)),
      (cache.entryAt pointer).tokenHash.isSome :=
    fun pointer member => consistent.hashed pointer
      ((consistent.linked.mem_order pointer).mpr ⟨_, member⟩)
  have sameTable : cache.setChain (cache.config.bucketIndex (hashToken sha256 token))
      (cache.chain (cache.config.bucketIndex (hashToken sha256 token))) = cache.toLinkedTable :=
    LinkedTable.setChain_self placed.1
  simp only [jwtCachePut, placed.bucket, JwtCache.searchChain_eq _ hashed, sameTable,
    Option.bind_eq_bind, Option.bind_some]
  cases search : (cache.chain (cache.config.bucketIndex (hashToken sha256 token))).find?
      fun pointer => (cache.entryAt pointer).tokenHash = some (hashToken sha256 token) with
  | some found =>
      obtain ⟨member, hash⟩ := (JwtCache.find?_eq_some_iff placed consistent).mp search
      exact Or.inl ⟨found, member, hash, rfl⟩
  | none =>
      have absent : ∀ pointer ∈ cache.order,
          (cache.entryAt pointer).tokenHash ≠ some (hashToken sha256 token) := by
        intro pointer member hash
        rw [(JwtCache.find?_eq_some_iff placed consistent).mpr ⟨member, hash⟩] at search
        cases search
      obtain ⟨between, made, kept, shrinks, room⟩ := consistent.makeRoom (hasRoom absent)
      refine Or.inr ⟨absent, between, kept, shrinks, room, ?_⟩
      by_cases full : cache.currentEntries ≥ cache.maxEntries
      · rw [if_pos full] at made
        simp only [if_pos full]
        change cache.evict.bind _ = _
        rw [made, Option.bind_some, apply_ite some]
      · rw [if_neg full] at made
        cases made
        simp only [if_neg full, apply_ite some]

end Token

end Jdbx
