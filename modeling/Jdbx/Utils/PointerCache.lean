import Jdbx.Library.DoublyLinked
import Jdbx.Utils.SharedCacheRuns
import Mathlib.Data.List.Perm.Subperm

/-!
# The pointers of the generic cache

`generic_cache.c` as it writes its pointers: the entries of a bucket hang on `hash_next`,
and all of them on `next` and `prev`.  Each field of the entries is a map from their
addresses.

No entry outlives its place in the list, and one that is read after it was freed gives no
result.  The pointers of the cache trace the chains and the order of a `SharedCache`, and
every operation is that of the chains and the order.
-/

namespace Jdbx

open Library

/-- `generic_cache_t`.  `entries` holds the keys and values of what is allocated. -/
structure PointerCache where
  entries : Nat → Option SharedEntry
  links : Links Nat
  hashNext : Nat → Option Nat
  buckets : List (Option Nat)
  allocated : Nat
  capacity : UInt64
  size : UInt64
  hits : UInt64
  misses : UInt64
  evictions : UInt64

namespace PointerCache

def genericCacheCreate (capacity : UInt64) (granted : Bool) : Option PointerCache :=
  let bucketCount := capacity * 2
  if capacity = 0 ∨ granted = false ∨ bucketCount = 0 ∨ 8 > (2 ^ 64 - 1) / bucketCount.toNat then
    none
  else
    some { entries := fun _ => none
           links := { next := fun _ => none, prev := fun _ => none, head := none, tail := none }
           hashNext := fun _ => none
           buckets := List.replicate bucketCount.toNat none
           allocated := 0
           capacity
           size := 0
           hits := 0
           misses := 0
           evictions := 0 }

variable (cache : PointerCache)

def bucketCount : UInt64 :=
  cache.capacity * 2

def bucket (key : Bytes) : Nat :=
  ((defaultHash key).toUInt64 % cache.bucketCount).toUInt32.toNat

def bucketHead (index : Nat) : Option Nat :=
  cache.buckets.getD index none

/-- `find_entry`.  There are never more entries than allocations. -/
def findEntry (key : Bytes) : Option (Option Nat) :=
  walkFrom cache.hashNext
    (fun pointer => (cache.entries pointer).map fun entry => decide (entry.key = key))
    (cache.allocated + 1) (cache.bucketHead (cache.bucket key))

def moveToFront (pointer : Nat) : PointerCache :=
  if cache.links.head = some pointer then cache
  else { cache with links := (cache.links.unlink pointer).pushFront pointer }

def unchain (index pointer : Nat) : Option PointerCache :=
  match cache.bucketHead index with
  | none => some cache
  | some first =>
    if first = pointer then
      some { cache with buckets := cache.buckets.set index (cache.hashNext pointer) }
    else
      (cutBehind cache.hashNext pointer (cache.allocated + 1) first).map fun hashNext =>
        { cache with hashNext }

def freeEntry (pointer : Nat) : PointerCache :=
  { cache with
    entries := Function.update cache.entries pointer none
    size := cache.size - 1 }

def evictLru : Option PointerCache :=
  match cache.links.tail with
  | none => some cache
  | some victim =>
    let unlinked := { cache with links := cache.links.popBack victim }
    (cache.entries victim).bind fun entry =>
      (unlinked.unchain (cache.bucket entry.key) victim).map fun unchained =>
        { unchained.freeEntry victim with evictions := cache.evictions + 1 }

/-- `generic_cache_get`, whose copy of the value is granted or not. -/
def genericCacheGet (key : Bytes) (granted : Bool) : Option (Option Bytes × PointerCache) :=
  (cache.findEntry key).bind fun found =>
    match found with
    | some pointer =>
      (cache.entries pointer).map fun entry =>
        if granted = true ∧ entry.value ≠ [] then
          (some entry.value, { cache with hits := cache.hits + 1 }.moveToFront pointer)
        else (none, cache.moveToFront pointer)
    | none => some (none, { cache with misses := cache.misses + 1 })

/-- A new entry at the front of its chain and of the list. -/
def insert (key value : Bytes) : PointerCache :=
  let pointer := cache.allocated
  let index := cache.bucket key
  { cache with
    entries := Function.update cache.entries pointer (some ⟨key, value⟩)
    hashNext := Function.update cache.hashNext pointer (cache.bucketHead index)
    buckets := cache.buckets.set index (some pointer)
    links := cache.links.pushFront pointer
    allocated := cache.allocated + 1
    size := cache.size + 1 }

/-- `generic_cache_put`, with its status. -/
def genericCachePut (key value : Bytes) (memory : CacheMemory) : Option (Int × PointerCache) :=
  (cache.findEntry key).bind fun found =>
    match found with
    | some pointer =>
      if memory.value = true ∧ value ≠ [] then
        (cache.entries pointer).map fun entry =>
          let entries := Function.update cache.entries pointer (some ⟨entry.key, value⟩)
          (0, { cache with entries }.moveToFront pointer)
      else some (-1, cache)
    | none =>
      (if cache.size ≥ cache.capacity then cache.evictLru else some cache).map fun roomy =>
        if memory.entry = true ∧ memory.key = true ∧ memory.value = true ∧ key ≠ [] ∧ value ≠ []
        then (0, roomy.insert key value)
        else (-1, roomy)

def genericCacheRemove (key : Bytes) : Option PointerCache :=
  (cache.findEntry key).bind fun found =>
    match found with
    | some pointer =>
      let unlinked := { cache with links := cache.links.unlink pointer }
      (unlinked.unchain (cache.bucket key) pointer).map fun unchained =>
        unchained.freeEntry pointer
    | none => some cache

/-- The loop of `generic_cache_clear`: free each entry after its `next` is read. -/
def freeFrom (next : Nat → Option Nat) :
    Nat → Option Nat → (Nat → Option SharedEntry) → Option (Nat → Option SharedEntry)
  | 0, _, _ => none
  | _ + 1, none, entries => some entries
  | fuel + 1, some pointer, entries =>
    (entries pointer).bind fun _ =>
      freeFrom next fuel (next pointer) (Function.update entries pointer none)

def genericCacheClear : Option PointerCache :=
  (freeFrom cache.links.next (cache.allocated + 1) cache.links.head cache.entries).map
    fun entries =>
      { cache with
        entries
        links := cache.links.clear
        buckets := List.replicate cache.bucketCount.toNat none
        size := 0 }

end PointerCache

/-- The pointers of the cache trace the chains and the order of the other. -/
structure Traces (cache : PointerCache) (shared : SharedCache) : Prop where
  entries : cache.entries = shared.entries
  listed : cache.links.Lists shared.order
  chained : ∀ index, Path cache.hashNext (cache.bucketHead index) (shared.chain index)
  buckets : cache.buckets.length = shared.buckets.length
  allocated : cache.allocated = shared.allocated
  capacity : cache.capacity = shared.capacity
  size : cache.size = shared.size

theorem length_le_of_below {numbers : List Nat} (nodup : numbers.Nodup) {bound : Nat}
    (below : ∀ number ∈ numbers, number < bound) : numbers.length ≤ bound := by
  have inside : numbers ⊆ List.range bound := fun number member =>
    List.mem_range.mpr (below number member)
  have fewer := (List.subperm_of_subset nodup inside).length_le
  rwa [List.length_range] at fewer

theorem erase_middle {before after : List Nat} {node : Nat}
    (nodup : (before ++ node :: after).Nodup) :
    (before ++ node :: after).erase node = before ++ after := by
  have outside : node ∉ before := fun member =>
    (List.nodup_append.mp nodup).2.2 node member node List.mem_cons_self rfl
  rw [List.erase_append_right _ outside, List.erase_cons_head]

namespace Traces

variable {cache : PointerCache} {shared : SharedCache} {stored : Bytes → Option Bytes}
  {key value : Bytes} {pointer index : Nat}

theorem bucket_eq (traces : Traces cache shared) (key : Bytes) :
    cache.bucket key = shared.bucket key := by
  rw [PointerCache.bucket, PointerCache.bucketCount, traces.capacity]
  rfl

theorem chain_length (kept : shared.Kept stored) (index : Nat) :
    (shared.chain index).length < shared.allocated + 1 := by
  apply Nat.lt_succ_of_le
  apply length_le_of_below (kept.linked.chainNodup index)
  intro pointer member
  exact kept.numbered pointer ((kept.linked.mem_order pointer).mpr ⟨index, member⟩)

theorem findEntry (traces : Traces cache shared) (kept : shared.Kept stored) (key : Bytes) :
    cache.findEntry key = some (shared.findEntry key) := by
  rw [PointerCache.findEntry, traces.bucket_eq, traces.allocated, SharedCache.findEntry]
  refine walkFrom_eq ?_ (traces.chained (shared.bucket key)) (chain_length kept _)
  intro pointer member
  obtain ⟨entry, held, -⟩ :=
    kept.placed pointer ((kept.linked.mem_order pointer).mpr ⟨_, member⟩)
  simp [traces.entries, SharedCache.keyAt, held]

theorem moveToFront (traces : Traces cache shared) (member : pointer ∈ shared.order) :
    Traces (cache.moveToFront pointer)
      { shared with toLinkedTable := shared.touch pointer } := by
  obtain ⟨before, after, order⟩ := List.append_of_mem member
  have listed := traces.listed
  rw [order] at listed
  have touched : (shared.touch pointer).order = pointer :: (before ++ after) := by
    rw [LinkedTable.touch, order, erase_middle listed.nodup]
  have fresh : pointer ∉ before ++ after := (List.nodup_middle.mp listed.nodup).notMem
  rw [PointerCache.moveToFront]
  cases before with
  | nil =>
    have first : cache.links.head = some pointer := listed.forward.start_eq_head
    rw [if_pos first]
    refine { traces with listed := ?_, chained := traces.chained }
    rw [touched]
    exact listed
  | cons first before =>
    have notFirst : cache.links.head ≠ some pointer := by
      rw [listed.forward.start_eq_head]
      rintro same
      exact fresh (Option.some.inj same ▸ List.mem_cons_self)
    rw [if_neg notFirst]
    refine { traces with listed := ?_, chained := traces.chained }
    rw [touched]
    exact listed.unlink.pushFront fresh

end Traces

section Unchain

variable (cache : PointerCache) {table : LinkedTable Nat} {index pointer : Nat}

/-- The pointers around an entry of a chain touch no other chain. -/
theorem unchain_eq (chained : ∀ index, Path cache.hashNext (cache.bucketHead index)
      (table.chain index))
    (linked : table.Linked) (sized : cache.buckets.length = table.buckets.length)
    (enough : (table.chain index).length < cache.allocated + 1)
    (member : pointer ∈ table.chain index) :
    ∃ hashNext buckets, cache.unchain index pointer = some { cache with hashNext, buckets } ∧
      buckets.length = cache.buckets.length ∧
        ∀ other, Path hashNext (buckets.getD other none)
          ((table.unlink index pointer).chain other) := by
  have inside : index < cache.buckets.length := sized ▸ LinkedTable.index_lt member
  obtain ⟨before, after, chain⟩ := List.append_of_mem member
  have way := chained index
  have nodup := linked.chainNodup index
  rw [chain] at way nodup enough
  have around := way.remove nodup
  have unlinked : ∀ other, (table.unlink index pointer).chain other =
      if index = other then before ++ after else table.chain other := by
    intro other
    change (table.setChain index ((table.chain index).erase pointer)).chain other = _
    rw [chain, erase_middle nodup, LinkedTable.setChain_chain, ← sized]
    simp only [inside, and_true]
  cases before with
  | nil =>
    have first : cache.bucketHead index = some pointer := way.start_eq_head
    refine ⟨cache.hashNext, cache.buckets.set index (cache.hashNext pointer), ?_,
      List.length_set, ?_⟩
    · rw [PointerCache.unchain, first]
      exact if_pos rfl
    · intro other
      rw [unlinked]
      split
      · rename_i same
        subst same
        rw [List.getD_eq_getElem?_getD, List.getElem?_set_self inside]
        exact around
      · rename_i elsewhere
        rw [List.getD_eq_getElem?_getD, List.getElem?_set_ne elsewhere]
        exact chained other
  | cons first before =>
    have starts : cache.bucketHead index = some first := way.start_eq_head
    have different : first ≠ pointer := by
      rintro rfl
      simp at nodup
    rw [starts] at way
    have short : before.length < cache.allocated + 1 := by
      simp only [List.length_append, List.length_cons] at enough
      omega
    have cut := cutBehind_eq way nodup short
    refine ⟨pointFrom cache.hashNext (first :: before).getLast? (cache.hashNext pointer),
      cache.buckets, ?_, rfl, ?_⟩
    · rw [PointerCache.unchain, starts]
      simp only [if_neg different, cut, Option.map_some]
    · intro other
      rw [unlinked]
      split
      · rename_i same
        subst same
        exact around
      · rename_i elsewhere
        apply (chained other).congr
        intro node hangs
        cases last : (first :: before).getLast? with
        | none => rfl
        | some last =>
          apply Function.update_of_ne
          rintro rfl
          have own : node ∈ table.chain index :=
            chain ▸ List.mem_append_left _ (List.mem_of_getLast? last)
          exact elsewhere (linked.oneChain own hangs)

end Unchain

namespace Traces

variable {cache : PointerCache} {shared : SharedCache} {stored : Bytes → Option Bytes}
  {key value : Bytes} {pointer : Nat}

theorem drop (traces : Traces cache shared) (kept : shared.Kept stored)
    (member : pointer ∈ shared.order) (named : shared.keyAt pointer = some key)
    {links : Links Nat} (listed : links.Lists (shared.order.erase pointer)) :
    ∃ unchained,
      { cache with links }.unchain (cache.bucket key) pointer = some unchained ∧
        Traces (unchained.freeEntry pointer) (shared.drop pointer key) := by
  have hangs := kept.mem_chain member named
  obtain ⟨hashNext, buckets, done, length, chained⟩ :=
    unchain_eq { cache with links } traces.chained kept.linked traces.buckets
      (traces.allocated ▸ chain_length kept _) hangs
  rw [traces.bucket_eq]
  refine ⟨_, done, ?_⟩
  exact {
    entries := by simp only [PointerCache.freeEntry, SharedCache.drop, traces.entries]
    listed := listed
    chained := chained
    buckets := (length.trans traces.buckets).trans List.length_set.symm
    allocated := traces.allocated
    capacity := traces.capacity
    size := congrArg (· - 1) traces.size }

theorem makeRoom (traces : Traces cache shared) (kept : shared.Kept stored) :
    ∃ roomy evicted sharedRoomy,
      (if cache.size ≥ cache.capacity then cache.evictLru else some cache) = some roomy ∧
        shared.makeRoom = some (evicted, sharedRoomy) ∧ Traces roomy sharedRoomy := by
  rw [SharedCache.makeRoom, traces.size, traces.capacity]
  split
  · cases last : shared.order.getLast? with
    | none =>
      have noTail : cache.links.tail = none := by
        rw [traces.listed.backward.start_eq_head, List.head?_reverse, last]
      refine ⟨cache, none, shared, ?_, ?_, traces⟩
      · rw [PointerCache.evictLru, noTail]
      · rw [SharedCache.evictLru, last]
    | some victim =>
      have tail : cache.links.tail = some victim := by
        rw [traces.listed.backward.start_eq_head, List.head?_reverse, last]
      have member : victim ∈ shared.order := List.mem_of_getLast? last
      obtain ⟨entry, held, -⟩ := kept.placed victim member
      have named : shared.keyAt victim = some entry.key :=
        congrArg (Option.map SharedEntry.key) held
      obtain ⟨before, order⟩ := List.getLast?_eq_some_iff.mp last
      have listed := traces.listed
      rw [order] at listed
      have erased : shared.order.erase victim = before := by
        rw [order, erase_middle listed.nodup, List.append_nil]
      obtain ⟨unchained, done, dropped⟩ :=
        traces.drop kept member named (erased ▸ listed.popBack)
      refine ⟨{ unchained.freeEntry victim with evictions := cache.evictions + 1 },
        some entry.key, shared.drop victim entry.key, ?_, ?_, ?_⟩
      · have here : cache.entries victim = some entry :=
          (congrFun traces.entries victim).trans held
        simp only [PointerCache.evictLru, tail, here, Option.bind_some, done, Option.map_some]
      · simp only [SharedCache.evictLru, last, named, Option.map_some]
      · exact { dropped with chained := dropped.chained }
  · exact ⟨cache, none, shared, rfl, rfl, traces⟩

theorem insert (traces : Traces cache shared) (kept : shared.Kept stored) (key value : Bytes) :
    Traces (cache.insert key value) (shared.insert key value) := by
  have fresh : shared.allocated ∉ shared.order := fun member =>
    Nat.lt_irrefl _ (kept.numbered _ member)
  have inside : shared.bucket key < cache.buckets.length := traces.buckets ▸ kept.bucket_lt key
  refine ⟨?_, ?_, ?_, ?_, ?_, ?_, ?_⟩
  · simp only [PointerCache.insert, SharedCache.insert, traces.entries, traces.allocated]
  · simp only [PointerCache.insert, SharedCache.insert, traces.allocated]
    exact traces.listed.pushFront fresh
  · intro index
    have outside : ∀ other, cache.allocated ∉ shared.chain other := fun other member =>
      fresh ((kept.linked.mem_order _).mpr ⟨other, traces.allocated ▸ member⟩)
    have linked : (shared.insert key value).chain index =
        (shared.setChain (shared.bucket key)
          (shared.allocated :: shared.chain (shared.bucket key))).chain index := rfl
    rw [linked, LinkedTable.setChain_chain, ← traces.buckets, ← traces.allocated]
    simp only [PointerCache.insert, PointerCache.bucketHead, traces.bucket_eq, inside, and_true,
      List.getD_eq_getElem?_getD]
    split
    · rename_i same
      subst same
      rw [List.getElem?_set_self inside, Option.getD_some]
      apply Path.cons
      rw [Function.update_self]
      exact (traces.chained _).update (outside _) _
    · rename_i elsewhere
      rw [List.getElem?_set_ne elsewhere]
      exact (traces.chained _).update (outside _) _
  · simp only [PointerCache.insert, List.length_set]
    exact traces.buckets.trans List.length_set.symm
  · exact congrArg (· + 1) traces.allocated
  · exact traces.capacity
  · exact congrArg (· + 1) traces.size

theorem put (traces : Traces cache shared) (kept : shared.Kept stored) (key value : Bytes)
    (memory : CacheMemory) :
    ∃ change next sharedNext,
      cache.genericCachePut key value memory = some (if change.stored then 0 else -1, next) ∧
        shared.genericCachePut key value memory = some (change, sharedNext) ∧
          Traces next sharedNext := by
  rw [PointerCache.genericCachePut, traces.findEntry kept, SharedCache.genericCachePut]
  cases found : shared.findEntry key with
  | some pointer =>
    obtain ⟨member, named⟩ := kept.findEntry_eq_some.mp found
    obtain ⟨old, held⟩ := SharedCache.keyAt_eq_some.mp named
    by_cases granted : memory.value = true ∧ value ≠ []
    · have written : Traces
          { cache with entries := Function.update cache.entries pointer (some ⟨key, value⟩) }
          (shared.write pointer key value) :=
        { traces with
          entries := by simp only [SharedCache.write, traces.entries]
          listed := traces.listed
          chained := traces.chained }
      have moved := written.moveToFront member
      refine ⟨⟨none, true⟩, _, _, ?_, ?_, moved⟩
      · simp only [Option.bind_some, if_pos granted, congrFun traces.entries pointer, held,
          Option.map_some, if_true]
      · simp only [if_pos granted, SharedCache.moveToFront, SharedCache.write,
          Function.update_self, Option.map_some]
    · refine ⟨⟨none, false⟩, cache, shared, ?_, ?_, traces⟩
      · simp only [Option.bind_some, if_neg granted]
        rfl
      · simp only [if_neg granted]
  | none =>
    obtain ⟨roomy, evicted, sharedRoomy, made, sharedMade, tracesRoomy⟩ := traces.makeRoom kept
    obtain ⟨_, _, again, keptRoomy, -, -⟩ := kept.makeRoom
    obtain ⟨rfl, rfl⟩ := Prod.mk.inj (Option.some.inj (sharedMade.symm.trans again))
    simp only [Option.bind_some, made, sharedMade, Option.map_some]
    split
    · exact ⟨⟨evicted, true⟩, _, _, rfl, rfl, tracesRoomy.insert keptRoomy key value⟩
    · exact ⟨⟨evicted, false⟩, _, _, rfl, rfl, tracesRoomy⟩

theorem remove (traces : Traces cache shared) (kept : shared.Kept stored) (key : Bytes) :
    ∃ next, cache.genericCacheRemove key = some next ∧
      Traces next (shared.genericCacheRemove key) := by
  rw [PointerCache.genericCacheRemove, traces.findEntry kept, SharedCache.genericCacheRemove]
  cases found : shared.findEntry key with
  | some pointer =>
    obtain ⟨member, named⟩ := kept.findEntry_eq_some.mp found
    obtain ⟨before, after, order⟩ := List.append_of_mem member
    have listed := traces.listed
    rw [order] at listed
    have erased : shared.order.erase pointer = before ++ after := by
      rw [order, erase_middle listed.nodup]
    obtain ⟨unchained, done, dropped⟩ :=
      traces.drop kept member named (erased ▸ listed.unlink)
    refine ⟨_, ?_, dropped⟩
    simp only [Option.bind_some, done, Option.map_some]
  | none => exact ⟨cache, rfl, traces⟩

theorem get_of_found (traces : Traces cache shared) (kept : shared.Kept stored) (granted : Bool)
    (found : shared.findEntry key = some pointer)
    (held : shared.entries pointer = some ⟨key, value⟩) :
    ∃ next, cache.genericCacheGet key granted =
        some (if granted = true ∧ value ≠ [] then some value else none, next) ∧
      Traces next { shared with toLinkedTable := shared.touch pointer } := by
  have member := (kept.findEntry_eq_some.mp found).1
  have counted : Traces { cache with hits := cache.hits + 1 } shared :=
    { traces with listed := traces.listed, chained := traces.chained }
  rw [PointerCache.genericCacheGet, traces.findEntry kept, found]
  simp only [Option.bind_some, congrFun traces.entries pointer, held, Option.map_some]
  split
  · exact ⟨_, rfl, counted.moveToFront member⟩
  · exact ⟨_, rfl, traces.moveToFront member⟩

theorem get_of_missing (traces : Traces cache shared) (kept : shared.Kept stored) (granted : Bool)
    (missing : shared.findEntry key = none) :
    ∃ next, cache.genericCacheGet key granted = some (none, next) ∧ Traces next shared := by
  rw [PointerCache.genericCacheGet, traces.findEntry kept, missing]
  exact ⟨_, rfl, { traces with listed := traces.listed, chained := traces.chained }⟩

end Traces

theorem empty_traced (next : Nat → Option Nat) (count index : Nat) :
    Path next ((List.replicate count none).getD index none)
      ((LinkedTable.empty count : LinkedTable Nat).chain index) := by
  have none : (List.replicate count (none : Option Nat)).getD index none = none := by
    simp only [List.getD_eq_getElem?_getD, List.getElem?_replicate]
    split <;> rfl
  rw [none, LinkedTable.empty_chain]
  exact .nil

theorem freeFrom_eq {next : Nat → Option Nat} {start : Option Nat} {nodes : List Nat}
    (path : Path next start nodes) (nodup : nodes.Nodup) :
    ∀ {fuel : Nat} {entries : Nat → Option SharedEntry}, nodes.length < fuel →
      (∀ node ∈ nodes, (entries node).isSome) →
        PointerCache.freeFrom next fuel start entries =
          some fun pointer => if pointer ∈ nodes then none else entries pointer := by
  induction path with
  | nil =>
    intro fuel entries enough _
    cases fuel with
    | zero => cases enough
    | succ fuel => simp [PointerCache.freeFrom]
  | @cons node nodes tail ih =>
    intro fuel entries enough live
    cases fuel with
    | zero => cases enough
    | succ fuel =>
      have distinct := List.nodup_cons.mp nodup
      obtain ⟨entry, held⟩ := Option.isSome_iff_exists.mp (live node List.mem_cons_self)
      have others : ∀ other ∈ nodes,
          (Function.update entries node none other).isSome := by
        intro other member
        have different : other ≠ node := by
          rintro rfl
          exact distinct.1 member
        rw [Function.update_of_ne different]
        exact live other (List.mem_cons_of_mem node member)
      rw [PointerCache.freeFrom, held, Option.bind_some,
        ih distinct.2 (Nat.lt_of_succ_lt_succ enough) others]
      congr 1
      funext pointer
      by_cases same : pointer = node
      · simp [same]
      · simp [same]

theorem Traces.clear {cache : PointerCache} {shared : SharedCache}
    {stored : Bytes → Option Bytes} (traces : Traces cache shared) (kept : shared.Kept stored) :
    ∃ next, cache.genericCacheClear = some next ∧ Traces next shared.genericCacheClear := by
  have short : shared.order.length < cache.allocated + 1 := by
    rw [traces.allocated]
    exact Nat.lt_succ_of_le (length_le_of_below kept.linked.orderNodup kept.numbered)
  have live : ∀ pointer ∈ shared.order, (cache.entries pointer).isSome := by
    intro pointer member
    rw [traces.entries]
    exact kept.entries_isSome.mpr member
  have freed := freeFrom_eq traces.listed.forward traces.listed.nodup short live
  rw [PointerCache.genericCacheClear, freed]
  have counts : cache.bucketCount = shared.bucketCount := congrArg (· * 2) traces.capacity
  refine ⟨_, rfl, ?_⟩
  exact {
    entries := by simp only [SharedCache.genericCacheClear, traces.entries]
    listed := Links.Lists.clear _
    chained := by
      intro index
      simp only [PointerCache.bucketHead, counts]
      exact empty_traced _ _ index
    buckets := by
      simp only [SharedCache.genericCacheClear, LinkedTable.empty, List.length_replicate, counts]
    allocated := traces.allocated
    capacity := traces.capacity
    size := rfl }

theorem traces_create {capacity : UInt64} {granted : Bool} {cache : PointerCache}
    (created : PointerCache.genericCacheCreate capacity granted = some cache) :
    ∃ shared, SharedCache.genericCacheCreate capacity granted = some shared ∧
      Traces cache shared := by
  rw [PointerCache.genericCacheCreate] at created
  rw [SharedCache.genericCacheCreate]
  split at created
  · cases created
  · rename_i accepted
    cases created
    rw [if_neg accepted]
    refine ⟨_, rfl, ?_⟩
    exact {
      entries := rfl
      listed := ⟨.nil, .nil, List.nodup_nil⟩
      chained := fun index => empty_traced _ _ index
      buckets := by simp only [LinkedTable.empty, List.length_replicate]
      allocated := rfl
      capacity := rfl
      size := rfl }

end Jdbx
