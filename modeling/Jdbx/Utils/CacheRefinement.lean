import Jdbx.Utils.GenericCache
import Jdbx.Utils.PointerCache

/-!
# The generic cache and the map it stands for

The entries in their order are those of a least-recently-used map, and every operation on
the pointers is that of the map, save that a put which is refused has made room before.
-/

namespace Jdbx

open Library

/-! ## The entries in order -/

namespace SharedCache

def pairAt (cache : SharedCache) (pointer : Nat) : Bytes × Bytes :=
  ((cache.entries pointer).map fun entry => (entry.key, entry.value)).getD ([], [])

def listing (cache : SharedCache) : List (Bytes × Bytes) :=
  cache.order.map cache.pairAt

variable {cache : SharedCache} {stored : Bytes → Option Bytes} {key value : Bytes} {pointer : Nat}

theorem pairAt_eq (held : cache.entries pointer = some ⟨key, value⟩) :
    cache.pairAt pointer = (key, value) := by
  rw [pairAt, held]
  rfl

namespace Kept

theorem keyAt_eq (kept : cache.Kept stored) (member : pointer ∈ cache.order) :
    cache.keyAt pointer = some (cache.pairAt pointer).1 := by
  obtain ⟨entry, held, -⟩ := kept.placed pointer member
  rw [keyAt, pairAt, held]
  rfl

theorem listing_nodup (kept : cache.Kept stored) : (entryKeys cache.listing).Nodup := by
  rw [entryKeys, listing, List.map_map]
  apply kept.linked.orderNodup.map_on
  intro first inFirst second inSecond same
  apply kept.oneEntry first inFirst second inSecond
  rw [kept.keyAt_eq inFirst, kept.keyAt_eq inSecond]
  exact congrArg some same

theorem listing_length (kept : cache.Kept stored) : cache.listing.length = cache.size.toNat := by
  rw [kept.counted, listing, List.length_map]

theorem getEntry_listing (kept : cache.Kept stored) (member : pointer ∈ cache.order)
    (held : cache.entries pointer = some ⟨key, value⟩) :
    getEntry key cache.listing = some value :=
  getEntry_eq_some_of_mem kept.listing_nodup
    (List.mem_map.mpr ⟨pointer, member, pairAt_eq held⟩)

theorem getEntry_listing_none (kept : cache.Kept stored) (missing : cache.findEntry key = none) :
    getEntry key cache.listing = none := by
  rw [getEntry_eq_none_iff, entryKeys, listing, List.map_map]
  intro member
  obtain ⟨pointer, inside, same⟩ := List.mem_map.mp member
  apply kept.findEntry_eq_none missing inside
  rw [kept.keyAt_eq inside]
  exact congrArg some same

theorem removeEntry_listing (kept : cache.Kept stored) (member : pointer ∈ cache.order)
    (held : cache.entries pointer = some ⟨key, value⟩) :
    removeEntry key cache.listing = (cache.order.erase pointer).map cache.pairAt := by
  obtain ⟨before, after, order⟩ := List.append_of_mem member
  have distinct := kept.listing_nodup
  have nodup := kept.linked.orderNodup
  rw [listing, order, List.map_append, List.map_cons, pairAt_eq held] at distinct
  rw [order] at nodup
  rw [listing, order, erase_middle nodup, List.map_append, List.map_append, List.map_cons,
    pairAt_eq held]
  exact removeEntry_middle distinct

end Kept

theorem listing_touch (kept : cache.Kept stored) (member : pointer ∈ cache.order)
    (held : cache.entries pointer = some ⟨key, value⟩) :
    listing { cache with toLinkedTable := cache.touch pointer } =
      (key, value) :: removeEntry key cache.listing := by
  rw [kept.removeEntry_listing member held, ← pairAt_eq held]
  rfl

theorem map_pairAt_erase (kept : cache.Kept stored) (changed : SharedCache)
    (same : ∀ other, other ≠ pointer → changed.entries other = cache.entries other) :
    (cache.order.erase pointer).map changed.pairAt =
      (cache.order.erase pointer).map cache.pairAt := by
  apply List.map_congr_left
  intro other inside
  have different : other ≠ pointer := by
    rintro rfl
    exact kept.linked.orderNodup.not_mem_erase inside
  rw [pairAt, pairAt, same other different]

theorem listing_drop (kept : cache.Kept stored) (member : pointer ∈ cache.order)
    (held : cache.entries pointer = some ⟨key, value⟩) :
    (cache.drop pointer key).listing = removeEntry key cache.listing := by
  rw [kept.removeEntry_listing member held]
  exact map_pairAt_erase kept _ fun _ different => Kept.drop_entries_of_ne different

theorem listing_insert (kept : cache.Kept stored) (key value : Bytes) :
    (cache.insert key value).listing = (key, value) :: cache.listing := by
  have new : (cache.insert key value).entries cache.allocated = some ⟨key, value⟩ :=
    Kept.insert_entries_self
  have old : cache.order.map (cache.insert key value).pairAt = cache.order.map cache.pairAt := by
    apply List.map_congr_left
    intro pointer member
    have different : pointer ≠ cache.allocated := Nat.ne_of_lt (kept.numbered pointer member)
    rw [pairAt, pairAt, Kept.insert_entries_of_ne different]
  rw [listing, listing, ← old, ← pairAt_eq new]
  rfl

theorem listing_write (kept : cache.Kept stored) (member : pointer ∈ cache.order)
    (named : cache.keyAt pointer = some key) (value : Bytes) :
    listing { cache.write pointer key value with toLinkedTable := cache.touch pointer } =
      (key, value) :: removeEntry key cache.listing := by
  obtain ⟨old, held⟩ := keyAt_eq_some.mp named
  have written := kept.write member named value
  have touched : listing { cache.write pointer key value with
      toLinkedTable := (cache.write pointer key value).touch pointer } = _ :=
    listing_touch written member Kept.write_entries_self
  have others := map_pairAt_erase kept (cache.write pointer key value)
    fun _ different => Kept.write_entries_of_ne different
  rw [kept.removeEntry_listing member held, ← others]
  exact touched.trans (congrArg _ (written.removeEntry_listing member Kept.write_entries_self))

theorem listing_drop_last (kept : cache.Kept stored)
    (last : cache.order.getLast? = some pointer)
    (held : cache.entries pointer = some ⟨key, value⟩) :
    (cache.drop pointer key).listing = cache.listing.dropLast := by
  obtain ⟨before, order⟩ := List.getLast?_eq_some_iff.mp last
  have nodup := kept.linked.orderNodup
  rw [order] at nodup
  have erased : cache.order.erase pointer = before := by
    rw [order, erase_middle nodup, List.append_nil]
  rw [listing_drop kept (List.mem_of_getLast? last) held,
    kept.removeEntry_listing (List.mem_of_getLast? last) held, erased, listing, order,
    List.map_append, List.map_singleton, List.dropLast_concat]

def lru (cache : SharedCache) : GenericCache Bytes Bytes where
  capacity := cache.capacity.toNat
  entries := cache.listing

theorem makeRoom_listing (kept : cache.Kept stored) {evicted : Option Bytes}
    {roomy : SharedCache} (made : cache.makeRoom = some (evicted, roomy)) :
    roomy.capacity = cache.capacity ∧
      roomy.listing =
        if cache.capacity.toNat ≤ cache.listing.length then cache.listing.dropLast
        else cache.listing := by
  have full : cache.size ≥ cache.capacity ↔ cache.capacity.toNat ≤ cache.listing.length := by
    rw [kept.listing_length]
    exact UInt64.le_iff_toNat_le
  rw [makeRoom] at made
  simp only [full] at made
  split at made
  · rename_i isFull
    rw [if_pos isFull]
    rw [evictLru] at made
    cases last : cache.order.getLast? with
    | none =>
        rw [last] at made
        cases made
        rw [List.getLast?_eq_none_iff] at last
        refine ⟨rfl, ?_⟩
        rw [listing, last]
        rfl
    | some victim =>
        obtain ⟨entry, held, -⟩ := kept.placed victim (List.mem_of_getLast? last)
        rw [last] at made
        simp only [keyAt, held, Option.map_some] at made
        cases made
        exact ⟨rfl, listing_drop_last kept last held⟩
  · rename_i roomLeft
    cases made
    rw [if_neg roomLeft]
    exact ⟨rfl, rfl⟩

end SharedCache

/-! ## The two machines -/

inductive CacheEvent where
  /-- `generic_cache_get`, with the room for the copy of the value granted or not. -/
  | get (key : Bytes) (granted : Bool)
  | put (key value : Bytes) (memory : CacheMemory)
  | remove (key : Bytes)
  | clear

/-- What the caller sees. -/
inductive CacheReply where
  | value (value : Option Bytes)
  | status (status : Int)
  | done
  deriving DecidableEq

/-- One call of the code. -/
def pointerCacheStep (cache : PointerCache) : CacheEvent → Option (CacheReply × PointerCache)
  | .get key granted =>
      (cache.genericCacheGet key granted).map fun (value, next) => (.value value, next)
  | .put key value memory =>
      (cache.genericCachePut key value memory).map fun (status, next) => (.status status, next)
  | .remove key => (cache.genericCacheRemove key).map fun next => (.done, next)
  | .clear => cache.genericCacheClear.map fun next => (.done, next)

/-- The put of a key that the map has needs room for the value, any other for an entry and
the key as well. -/
def PutGranted (lru : GenericCache Bytes Bytes) (key value : Bytes) (memory : CacheMemory) :
    Prop :=
  memory.value = true ∧ value ≠ [] ∧
    (getEntry key lru.entries = none → memory.entry = true ∧ memory.key = true ∧ key ≠ [])

instance (lru : GenericCache Bytes Bytes) (key value : Bytes) (memory : CacheMemory) :
    Decidable (PutGranted lru key value memory) :=
  inferInstanceAs (Decidable (_ ∧ _ ∧ _))

def lruStep (lru : GenericCache Bytes Bytes) : CacheEvent → CacheReply × GenericCache Bytes Bytes
  | .get key _ =>
      let found := genericCacheGet lru key
      (.value found.1, found.2)
  | .put key value memory =>
      if PutGranted lru key value memory then (.status 0, genericCachePut lru key value)
      else (.status (-1), lru)
  | .remove key => (.done, genericCacheRemove lru key)
  | .clear => (.done, genericCacheClear lru)

/-- The cache beside the map. -/
structure CacheRun where
  cache : PointerCache
  lru : GenericCache Bytes Bytes

def cacheRunStep (run : CacheRun) (event : CacheEvent) : Option CacheRun :=
  (pointerCacheStep run.cache event).map fun (_, cache) =>
    { cache, lru := (lruStep run.lru event).2 }

namespace PointerCache

/-- The keys and values from the head on. -/
def contentsFrom (cache : PointerCache) : Nat → Option Nat → Option (List (Bytes × Bytes))
  | 0, _ => none
  | _ + 1, none => some []
  | fuel + 1, some pointer =>
      (cache.entries pointer).bind fun entry =>
        (cache.contentsFrom fuel (cache.links.next pointer)).map fun rest =>
          (entry.key, entry.value) :: rest

def contents (cache : PointerCache) : Option (List (Bytes × Bytes)) :=
  cache.contentsFrom (cache.allocated + 1) cache.links.head

end PointerCache

def ActsAsLru (run : CacheRun) (event : CacheEvent) : Prop :=
  ∃ reply cache, pointerCacheStep run.cache event = some (reply, cache) ∧
    reply = (lruStep run.lru event).1 ∧
      cache.contents = some (lruStep run.lru event).2.entries

def CausesNoLoss (run : CacheRun) : CacheEvent → Prop
  | .get key granted => granted = true ∨ getEntry key run.lru.entries = none
  | .put key value memory =>
      PutGranted run.lru key value memory ∨ getEntry key run.lru.entries ≠ none ∨
        run.lru.entries.length < run.lru.capacity
  | .remove _ | .clear => True

instance (run : CacheRun) : DecidablePred (CausesNoLoss run)
  | .get _ _ => inferInstanceAs (Decidable (_ ∨ _))
  | .put _ _ _ => inferInstanceAs (Decidable (_ ∨ _ ∨ _))
  | .remove _ | .clear => inferInstanceAs (Decidable True)

def refusedPut (lru : GenericCache Bytes Bytes) (key : Bytes) : List (Bytes × Bytes) :=
  if getEntry key lru.entries = none ∧ lru.capacity ≤ lru.entries.length then
    lru.entries.dropLast
  else lru.entries

theorem put_listing {cache : SharedCache} {stored : Bytes → Option Bytes}
    (kept : cache.Kept stored) (key value : Bytes) (memory : CacheMemory) :
    ∃ change next, cache.genericCachePut key value memory = some (change, next) ∧
      next.capacity = cache.capacity ∧
        (change.stored = true ↔ PutGranted cache.lru key value memory) ∧
          next.listing =
            if PutGranted cache.lru key value memory then
              (genericCachePut cache.lru key value).entries
            else refusedPut cache.lru key := by
  rw [SharedCache.genericCachePut]
  cases found : cache.findEntry key with
  | some pointer =>
      obtain ⟨member, named⟩ := kept.findEntry_eq_some.mp found
      obtain ⟨old, held⟩ := SharedCache.keyAt_eq_some.mp named
      have present : getEntry key cache.lru.entries = some old :=
        kept.getEntry_listing member held
      have granted : PutGranted cache.lru key value memory ↔ memory.value = true ∧ value ≠ [] := by
        simp [PutGranted, present]
      simp only [granted]
      split
      · rename_i room
        refine ⟨⟨none, true⟩, { cache.write pointer key value with
          toLinkedTable := cache.touch pointer }, ?_, rfl, iff_of_true rfl room, ?_⟩
        · simp only [SharedCache.moveToFront, SharedCache.write, Function.update_self,
            Option.map_some]
        · rw [SharedCache.listing_write kept member named value, genericCachePut, present]
          rfl
      · rename_i refused
        refine ⟨⟨none, false⟩, cache, rfl, rfl, iff_of_false Bool.false_ne_true refused, ?_⟩
        simp only [refusedPut, present, reduceCtorEq, false_and, if_false]
        rfl
  | none =>
      have absent : getEntry key cache.lru.entries = none := kept.getEntry_listing_none found
      obtain ⟨evicted, roomy, made, keptRoomy, -, -⟩ := kept.makeRoom
      have room := SharedCache.makeRoom_listing kept made
      have granted : PutGranted cache.lru key value memory ↔ memory.entry = true ∧
          memory.key = true ∧ memory.value = true ∧ key ≠ [] ∧ value ≠ [] := by
        simp only [PutGranted, absent, true_implies]
        tauto
      simp only [made, Option.map_some, granted]
      split
      · rename_i fits
        refine ⟨⟨evicted, true⟩, _, rfl, room.1, iff_of_true rfl fits, ?_⟩
        rw [SharedCache.listing_insert keptRoomy, room.2, genericCachePut, absent]
        simp only [evictLru, SharedCache.lru, ge_iff_le]
        split <;> rfl
      · rename_i refused
        refine ⟨⟨evicted, false⟩, _, rfl, room.1, iff_of_false Bool.false_ne_true refused, ?_⟩
        rw [room.2, refusedPut]
        simp only [absent, true_and]
        rfl

theorem refusedPut_subset {lru : GenericCache Bytes Bytes} {key : Bytes}
    {entry : Bytes × Bytes} (member : entry ∈ refusedPut lru key) : entry ∈ lru.entries := by
  rw [refusedPut] at member
  split at member
  · exact (List.dropLast_sublist lru.entries).subset member
  · exact member

theorem genericCachePut_capacity (lru : GenericCache Bytes Bytes) (key value : Bytes) :
    (genericCachePut lru key value).capacity = lru.capacity := by
  rw [genericCachePut]
  split
  · rfl
  · simp only [evictLru]
    split <;> rfl

def StandsFor (run : CacheRun) : Prop :=
  ∃ shared stored, Traces run.cache shared ∧ SharedCache.Kept shared stored ∧
    shared.lru = run.lru ∧ run.lru.Obeys fun _ value => value ≠ []

theorem contentsFrom_eq {cache : PointerCache} {shared : SharedCache}
    {stored : Bytes → Option Bytes} (traces : Traces cache shared) (kept : shared.Kept stored)
    {start : Option Nat} {nodes : List Nat} (path : Path cache.links.next start nodes) :
    ∀ {fuel : Nat}, nodes.length < fuel → (∀ node ∈ nodes, node ∈ shared.order) →
      cache.contentsFrom fuel start = some (nodes.map shared.pairAt) := by
  induction path with
  | nil =>
      intro fuel enough _
      cases fuel with
      | zero => cases enough
      | succ fuel => rfl
  | @cons node nodes tail ih =>
      intro fuel enough members
      cases fuel with
      | zero => cases enough
      | succ fuel =>
          have rest := ih (Nat.lt_of_succ_lt_succ enough)
            fun other member => members other (List.mem_cons_of_mem node member)
          obtain ⟨⟨key, value⟩, held, -⟩ := kept.placed node (members node List.mem_cons_self)
          have here : cache.entries node = some ⟨key, value⟩ :=
            (congrFun traces.entries node).trans held
          rw [PointerCache.contentsFrom, here, Option.bind_some, rest, List.map_cons,
            SharedCache.pairAt_eq held]
          rfl

theorem StandsFor.contents {run : CacheRun} (stands : StandsFor run) :
    run.cache.contents = some run.lru.entries := by
  obtain ⟨shared, stored, traces, kept, same, -⟩ := stands
  have short : shared.order.length < run.cache.allocated + 1 := by
    rw [traces.allocated]
    exact Nat.lt_succ_of_le (length_le_of_below kept.linked.orderNodup kept.numbered)
  rw [PointerCache.contents, ← same]
  exact contentsFrom_eq traces kept traces.listed.forward short fun _ member => member

section Step

variable {run : CacheRun}

theorem StandsFor.room (stands : StandsFor run) : 0 < run.lru.capacity := by
  obtain ⟨shared, stored, -, kept, same, -⟩ := stands
  rw [← same]
  exact kept.room

theorem StandsFor.get (stands : StandsFor run) (key : Bytes) (granted : Bool) :
    ∃ cache, pointerCacheStep run.cache (.get key granted) =
        some (.value (if granted then getEntry key run.lru.entries else none), cache) ∧
      StandsFor { cache, lru := (genericCacheGet run.lru key).2 } := by
  obtain ⟨shared, stored, traces, kept, same, nonempty⟩ := stands
  have nonemptyAfter := genericCacheGet_obeys nonempty key
  cases found : shared.findEntry key with
  | none =>
      have absent : getEntry key run.lru.entries = none :=
        same ▸ kept.getEntry_listing_none found
      obtain ⟨cache, done, tracesAfter⟩ := traces.get_of_missing kept granted found
      refine ⟨cache, ?_, shared, stored, tracesAfter, kept, ?_, nonemptyAfter⟩
      · simp only [pointerCacheStep, done, Option.map_some, absent, ite_self]
      · simp only [genericCacheGet, absent, same]
  | some pointer =>
      obtain ⟨member, named⟩ := kept.findEntry_eq_some.mp found
      obtain ⟨value, held⟩ := SharedCache.keyAt_eq_some.mp named
      have present : getEntry key run.lru.entries = some value :=
        same ▸ kept.getEntry_listing member held
      have notEmpty : value ≠ [] := nonempty key value (mem_of_getEntry_eq_some present)
      obtain ⟨cache, done, tracesAfter⟩ := traces.get_of_found kept granted found held
      refine ⟨cache, ?_, _, stored, tracesAfter, kept.touch member, ?_, nonemptyAfter⟩
      · simp only [pointerCacheStep, done, Option.map_some, present, ne_eq, notEmpty,
          not_false_eq_true, and_true]
      · rw [genericCacheGet, present]
        simp only [moveToFront, ← same, SharedCache.lru,
          SharedCache.listing_touch kept member held]

theorem StandsFor.put (stands : StandsFor run) (key value : Bytes) (memory : CacheMemory) :
    ∃ cache, pointerCacheStep run.cache (.put key value memory) =
        some (.status (if PutGranted run.lru key value memory then 0 else -1), cache) ∧
      StandsFor
        { cache
          lru := if PutGranted run.lru key value memory then genericCachePut run.lru key value
            else { run.lru with entries := refusedPut run.lru key } } := by
  obtain ⟨shared, stored, traces, kept, same, nonempty⟩ := stands
  obtain ⟨change, cache, sharedNext, done, sharedDone, tracesAfter⟩ :=
    traces.put kept key value memory
  obtain ⟨_, _, again, keptAfter⟩ := kept.put key value memory
  obtain ⟨rfl, rfl⟩ := Prod.mk.inj (Option.some.inj (sharedDone.symm.trans again))
  obtain ⟨_, _, listed, capacity, accepted, listing⟩ := put_listing kept key value memory
  obtain ⟨rfl, rfl⟩ := Prod.mk.inj (Option.some.inj (sharedDone.symm.trans listed))
  rw [same] at accepted listing
  have sameCapacity : sharedNext.capacity.toNat = run.lru.capacity := by
    rw [capacity, ← same]
    rfl
  refine ⟨cache, ?_, sharedNext, _, tracesAfter, keptAfter, ?_⟩
  · simp only [pointerCacheStep, done, Option.map_some, accepted]
  · split
    · rename_i granted
      rw [if_pos granted] at listing
      refine ⟨?_, genericCachePut_obeys nonempty granted.2.1⟩
      rw [SharedCache.lru, sameCapacity, listing, ← genericCachePut_capacity run.lru key value]
    · rename_i refused
      rw [if_neg refused] at listing
      refine ⟨?_, fun tested held member => nonempty tested held ?_⟩
      · rw [SharedCache.lru, sameCapacity, listing]
      · exact refusedPut_subset member

theorem StandsFor.remove (stands : StandsFor run) (key : Bytes) :
    ∃ cache, pointerCacheStep run.cache (.remove key) = some (.done, cache) ∧
      StandsFor { cache, lru := genericCacheRemove run.lru key } := by
  obtain ⟨shared, stored, traces, kept, same, nonempty⟩ := stands
  obtain ⟨cache, done, tracesAfter⟩ := traces.remove kept key
  refine ⟨cache, ?_, _, _, tracesAfter, kept.remove key, ?_,
    fun tested held member => nonempty tested held (mem_of_mem_removeEntry member)⟩
  · simp only [pointerCacheStep, done, Option.map_some]
  · rw [genericCacheRemove, ← same, SharedCache.genericCacheRemove]
    cases found : shared.findEntry key with
    | none =>
        have absent := kept.getEntry_listing_none found
        simp only [SharedCache.lru, removeEntry_of_absent absent]
    | some pointer =>
        obtain ⟨member, named⟩ := kept.findEntry_eq_some.mp found
        obtain ⟨value, held⟩ := SharedCache.keyAt_eq_some.mp named
        simp only [SharedCache.lru, SharedCache.listing_drop kept member held]
        rfl

theorem StandsFor.clear (stands : StandsFor run) :
    ∃ cache, pointerCacheStep run.cache .clear = some (.done, cache) ∧
      StandsFor { cache, lru := genericCacheClear run.lru } := by
  obtain ⟨shared, stored, traces, kept, same, -⟩ := stands
  obtain ⟨cache, done, tracesAfter⟩ := traces.clear kept
  refine ⟨cache, ?_, _, _, tracesAfter, kept.clear, ?_, fun _ _ member => ?_⟩
  · simp only [pointerCacheStep, done, Option.map_some]
  · rw [genericCacheClear, ← same]
    rfl
  · cases member

end Step

theorem actsAsLru_iff_of_step {run : CacheRun} {event : CacheEvent} {reply : CacheReply}
    {cache : PointerCache} (done : pointerCacheStep run.cache event = some (reply, cache)) :
    ActsAsLru run event ↔ reply = (lruStep run.lru event).1 ∧
      cache.contents = some (lruStep run.lru event).2.entries := by
  constructor
  · rintro ⟨otherReply, other, taken, replies, holds⟩
    obtain ⟨rfl, rfl⟩ := Prod.mk.inj (Option.some.inj (done.symm.trans taken))
    exact ⟨replies, holds⟩
  · rintro ⟨replies, holds⟩
    exact ⟨reply, cache, done, replies, holds⟩

theorem genericCacheGet_fst (lru : GenericCache Bytes Bytes) (key : Bytes) :
    (genericCacheGet lru key).1 = getEntry key lru.entries := by
  rw [genericCacheGet]
  cases getEntry key lru.entries <;> rfl

theorem refusedPut_eq_iff {lru : GenericCache Bytes Bytes} (room : 0 < lru.capacity)
    (key : Bytes) :
    refusedPut lru key = lru.entries ↔
      getEntry key lru.entries ≠ none ∨ lru.entries.length < lru.capacity := by
  rw [refusedPut]
  split
  · rename_i full
    refine iff_of_false (fun same => ?_) (by simp [full])
    have shorter := congrArg List.length same
    rw [List.length_dropLast] at shorter
    omega
  · rename_i notFull
    rw [not_and_or, not_le] at notFull
    exact iff_of_true rfl notFull

theorem StandsFor.actsAsLru_iff {run : CacheRun} (stands : StandsFor run) (event : CacheEvent) :
    ActsAsLru run event ↔ CausesNoLoss run event := by
  cases event with
  | get key granted =>
      obtain ⟨cache, done, after⟩ := stands.get key granted
      rw [actsAsLru_iff_of_step done, after.contents]
      simp only [lruStep, genericCacheGet_fst, CausesNoLoss, CacheReply.value.injEq, and_true]
      cases granted with
      | true => simp
      | false => simp [eq_comm]
  | put key value memory =>
      obtain ⟨cache, done, after⟩ := stands.put key value memory
      rw [actsAsLru_iff_of_step done, after.contents]
      simp only [lruStep, CausesNoLoss]
      by_cases granted : PutGranted run.lru key value memory
      · simp [granted]
      · simp only [granted, if_false, Option.some.injEq, true_and, false_or]
        exact refusedPut_eq_iff stands.room key
  | remove key =>
      obtain ⟨cache, done, after⟩ := stands.remove key
      rw [actsAsLru_iff_of_step done, after.contents]
      exact iff_of_true ⟨rfl, rfl⟩ trivial
  | clear =>
      obtain ⟨cache, done, after⟩ := stands.clear
      rw [actsAsLru_iff_of_step done, after.contents]
      exact iff_of_true ⟨rfl, rfl⟩ trivial

theorem keeps_standsFor : Keeps cacheRunStep CausesNoLoss StandsFor := by
  intro run event next stands noLoss taken
  obtain ⟨⟨reply, cache⟩, done, rfl⟩ := Option.map_eq_some_iff.mp taken
  cases event with
  | get key granted =>
      obtain ⟨other, same, after⟩ := stands.get key granted
      obtain ⟨-, rfl⟩ := Prod.mk.inj (Option.some.inj (same.symm.trans done))
      exact after
  | put key value memory =>
      obtain ⟨other, same, after⟩ := stands.put key value memory
      obtain ⟨-, rfl⟩ := Prod.mk.inj (Option.some.inj (same.symm.trans done))
      rw [CausesNoLoss, ← refusedPut_eq_iff stands.room key] at noLoss
      simp only [lruStep]
      by_cases granted : PutGranted run.lru key value memory
      · simpa only [if_pos granted] using after
      · rw [noLoss.resolve_left granted] at after
        simpa only [if_neg granted] using after
  | remove key =>
      obtain ⟨other, same, after⟩ := stands.remove key
      obtain ⟨-, rfl⟩ := Prod.mk.inj (Option.some.inj (same.symm.trans done))
      exact after
  | clear =>
      obtain ⟨other, same, after⟩ := stands.clear
      obtain ⟨-, rfl⟩ := Prod.mk.inj (Option.some.inj (same.symm.trans done))
      exact after

/-- Every call of a run acts as the map does just where none makes room in vain and every
hit gets its copy. -/
theorem cache_refines_lru {capacity : UInt64} {granted : Bool} {cache : PointerCache}
    (created : PointerCache.genericCacheCreate capacity granted = some cache)
    (events : List CacheEvent) :
    EveryStep cacheRunStep ActsAsLru ⟨cache, genericCacheCreate capacity.toNat⟩ events ↔
      EveryStep cacheRunStep CausesNoLoss ⟨cache, genericCacheCreate capacity.toNat⟩ events := by
  have stands : StandsFor ⟨cache, genericCacheCreate capacity.toNat⟩ := by
    obtain ⟨shared, sharedCreated, traces⟩ := traces_create created
    have empty : shared.lru = genericCacheCreate capacity.toNat := by
      rw [SharedCache.genericCacheCreate] at sharedCreated
      split at sharedCreated
      · cases sharedCreated
      · cases sharedCreated
        rfl
    exact ⟨shared, _, traces, SharedCache.kept_create sharedCreated, empty,
      genericCacheCreate_obeys _⟩
  exact EveryStep.iff_of_keeps keeps_standsFor (fun _ event held => held.actsAsLru_iff event)
    stands

/-- A cache for one entry. -/
def cacheOfOne : PointerCache where
  entries := fun _ => none
  links := { next := fun _ => none, prev := fun _ => none, head := none, tail := none }
  hashNext := fun _ => none
  buckets := [none, none]
  allocated := 0
  capacity := 1
  size := 0
  hits := 0
  misses := 0
  evictions := 0

def grantedCalls : List CacheEvent :=
  [.put [1] [10] ⟨true, true, true⟩, .get [1] true, .put [2] [20] ⟨true, true, true⟩]

theorem cache_refines_lru_grantedCalls :
    PointerCache.genericCacheCreate 1 true = some cacheOfOne ∧
      EveryStep cacheRunStep ActsAsLru ⟨cacheOfOne, genericCacheCreate 1⟩ grantedCalls := by
  have created : PointerCache.genericCacheCreate 1 true = some cacheOfOne := rfl
  have noLoss : EveryStep cacheRunStep CausesNoLoss ⟨cacheOfOne, genericCacheCreate 1⟩
      grantedCalls := by
    decide +kernel
  exact ⟨created, (cache_refines_lru created grantedCalls).mpr noLoss⟩

def emptyValueCalls : List CacheEvent :=
  [.put [1] [10] ⟨true, true, true⟩, .put [2] [] ⟨true, true, true⟩, .get [1] true]

theorem not_cache_refines_emptyValueCalls :
    PointerCache.genericCacheCreate 1 true = some cacheOfOne ∧
      ¬ EveryStep cacheRunStep ActsAsLru ⟨cacheOfOne, genericCacheCreate 1⟩ emptyValueCalls := by
  refine ⟨rfl, fun acts => ?_⟩
  have replies : EveryStep cacheRunStep
      (fun run event => (pointerCacheStep run.cache event).map Prod.fst =
        some (lruStep run.lru event).1)
      ⟨cacheOfOne, genericCacheCreate 1⟩ emptyValueCalls := by
    apply acts.mono
    rintro run event ⟨reply, cache, done, rfl, -⟩
    rw [done]
    rfl
  revert replies
  decide +kernel

end Jdbx
