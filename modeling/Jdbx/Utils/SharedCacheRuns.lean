import Jdbx.Utils.SharedCache

/-!
# Interleavings of the generic cache

The sections of put, remove and clear keep the cache in order, and so does the second
section of a get as long as its entry is still there.
-/

namespace Jdbx

open Library

namespace SharedCache

/-- What each section finds.  `stored` is the value that each key in the cache has. -/
structure Kept (cache : SharedCache) (stored : Bytes → Option Bytes) : Prop where
  linked : cache.Linked
  sized : cache.buckets.length = cache.bucketCount.toNat
  positive : 0 < cache.bucketCount.toNat
  room : 0 < cache.capacity.toNat
  counted : cache.size.toNat = cache.order.length
  bounded : cache.size ≤ cache.capacity
  placed : ∀ pointer ∈ cache.order, ∃ entry, cache.entries pointer = some entry ∧
    pointer ∈ cache.chain (cache.bucket entry.key)
  freed : ∀ pointer, pointer ∉ cache.order → cache.entries pointer = none
  numbered : ∀ pointer ∈ cache.order, pointer < cache.allocated
  oneEntry : ∀ first ∈ cache.order, ∀ second ∈ cache.order,
    cache.keyAt first = cache.keyAt second → first = second
  stored_iff : ∀ key value, stored key = some value ↔
    ∃ pointer ∈ cache.order, cache.entries pointer = some ⟨key, value⟩

variable {cache next : SharedCache} {stored : Bytes → Option Bytes} {key value : Bytes}
  {pointer : Nat}

theorem kept_create {capacity : UInt64} {granted : Bool}
    (created : genericCacheCreate capacity granted = some cache) :
    cache.Kept fun _ => none := by
  rw [genericCacheCreate] at created
  split_ifs at created with refused
  cases created
  have positive : ∀ {count : UInt64}, count ≠ 0 → 0 < count.toNat := by
    intro count nonzero
    apply Nat.pos_of_ne_zero
    intro zero
    exact nonzero (UInt64.toNat_inj.mp zero)
  have capacityPositive : capacity ≠ 0 := fun zero => refused (Or.inl zero)
  have countPositive : capacity * 2 ≠ 0 := fun zero => refused (Or.inr (Or.inr (Or.inl zero)))
  exact {
    linked := LinkedTable.linked_empty _
    sized := List.length_replicate
    positive := positive countPositive
    room := positive capacityPositive
    counted := rfl
    bounded := UInt64.le_iff_toNat_le.mpr (Nat.zero_le _)
    placed := fun _ member => (List.not_mem_nil member).elim
    freed := fun _ _ => rfl
    numbered := fun _ member => (List.not_mem_nil member).elim
    oneEntry := fun _ member => (List.not_mem_nil member).elim
    stored_iff := by simp }

theorem keyAt_eq_some :
    cache.keyAt pointer = some key ↔ ∃ value, cache.entries pointer = some ⟨key, value⟩ := by
  rw [keyAt, Option.map_eq_some_iff]
  constructor
  · rintro ⟨entry, held, rfl⟩
    exact ⟨entry.value, held⟩
  · rintro ⟨value, held⟩
    exact ⟨⟨key, value⟩, held, rfl⟩

namespace Kept

theorem bucket_lt (kept : cache.Kept stored) (key : Bytes) :
    cache.bucket key < cache.buckets.length := by
  rw [kept.sized, bucket, UInt64.toNat_toUInt32]
  apply Nat.lt_of_le_of_lt (Nat.mod_le _ _)
  rw [UInt64.toNat_mod]
  exact Nat.mod_lt _ kept.positive

theorem mem_chain (kept : cache.Kept stored) (member : pointer ∈ cache.order)
    (named : cache.keyAt pointer = some key) : pointer ∈ cache.chain (cache.bucket key) := by
  obtain ⟨entry, held, inChain⟩ := kept.placed pointer member
  rw [keyAt, held] at named
  cases named
  exact inChain

theorem findEntry_eq_some (kept : cache.Kept stored) :
    cache.findEntry key = some pointer ↔
      pointer ∈ cache.order ∧ cache.keyAt pointer = some key := by
  have sound : ∀ {found}, cache.findEntry key = some found →
      found ∈ cache.order ∧ cache.keyAt found = some key := by
    intro found searched
    have inChain := List.mem_of_find?_eq_some searched
    have named := List.find?_some searched
    exact ⟨(kept.linked.mem_order found).mpr ⟨_, inChain⟩, of_decide_eq_true named⟩
  refine ⟨sound, fun inside => ?_⟩
  obtain ⟨member, named⟩ := inside
  cases searched : cache.findEntry key with
  | none =>
      have differs := List.find?_eq_none.mp searched pointer (kept.mem_chain member named)
      exact absurd (decide_eq_true named) differs
  | some found =>
      obtain ⟨foundMember, foundNamed⟩ := sound searched
      exact congrArg some
        (kept.oneEntry found foundMember pointer member (foundNamed.trans named.symm))

theorem findEntry_eq_none (kept : cache.Kept stored) (missing : cache.findEntry key = none)
    (member : pointer ∈ cache.order) : cache.keyAt pointer ≠ some key := by
  intro named
  rw [kept.findEntry_eq_some.mpr ⟨member, named⟩] at missing
  cases missing

theorem stored_findEntry (kept : cache.Kept stored) (found : cache.findEntry key = some pointer) :
    stored key = (cache.entries pointer).map SharedEntry.value := by
  obtain ⟨member, named⟩ := kept.findEntry_eq_some.mp found
  obtain ⟨value, held⟩ := keyAt_eq_some.mp named
  rw [held, (kept.stored_iff key value).mpr ⟨pointer, member, held⟩]
  exact rfl

theorem entries_isSome (kept : cache.Kept stored) :
    (cache.entries pointer).isSome ↔ pointer ∈ cache.order := by
  constructor
  · intro held
    by_contra missing
    rw [kept.freed pointer missing] at held
    cases held
  · intro member
    obtain ⟨entry, held, -⟩ := kept.placed pointer member
    exact Option.isSome_iff_exists.mpr ⟨entry, held⟩

/-! ## What the parts of the sections keep -/

theorem touch (kept : cache.Kept stored) (member : pointer ∈ cache.order) :
    Kept { cache with toLinkedTable := cache.touch pointer } stored := by
  have same : ∀ {found}, found ∈ (cache.touch pointer).order ↔ found ∈ cache.order :=
    LinkedTable.mem_touch member
  exact {
    linked := kept.linked.touch member
    sized := kept.sized
    positive := kept.positive
    room := kept.room
    counted := kept.counted.trans (LinkedTable.length_touch member).symm
    bounded := kept.bounded
    placed := fun found inside => kept.placed found (same.mp inside)
    freed := fun found outside => kept.freed found fun inside => outside (same.mpr inside)
    numbered := fun found inside => kept.numbered found (same.mp inside)
    oneEntry := fun first inFirst second inSecond =>
      kept.oneEntry first (same.mp inFirst) second (same.mp inSecond)
    stored_iff := by
      intro key value
      simp only [kept.stored_iff, same] }

theorem moveToFront (kept : cache.Kept stored) (member : pointer ∈ cache.order) :
    ∃ next, cache.moveToFront pointer = some next ∧ next.Kept stored := by
  obtain ⟨entry, held, -⟩ := kept.placed pointer member
  refine ⟨_, ?_, kept.touch member⟩
  rw [SharedCache.moveToFront, held]
  exact rfl

theorem keyAt_write (named : cache.keyAt pointer = some key) (found : Nat) :
    (cache.write pointer key value).keyAt found = cache.keyAt found := by
  simp only [keyAt, write]
  by_cases same : found = pointer
  · subst same
    rw [Function.update_self, ← keyAt, named]
    exact rfl
  · rw [Function.update_of_ne same]

theorem write_entries_of_ne {found : Nat} (different : found ≠ pointer) :
    (cache.write pointer key value).entries found = cache.entries found :=
  Function.update_of_ne different _ _

theorem write_entries_self :
    (cache.write pointer key value).entries pointer = some ⟨key, value⟩ :=
  Function.update_self ..

theorem write (kept : cache.Kept stored) (member : pointer ∈ cache.order)
    (named : cache.keyAt pointer = some key) (value : Bytes) :
    (cache.write pointer key value).Kept (Function.update stored key (some value)) := by
  have sameKey : ∀ found, (cache.write pointer key value).keyAt found = cache.keyAt found :=
    keyAt_write named
  exact {
    linked := kept.linked
    sized := kept.sized
    positive := kept.positive
    room := kept.room
    counted := kept.counted
    bounded := kept.bounded
    placed := by
      intro found inside
      by_cases same : found = pointer
      · subst same
        exact ⟨⟨key, value⟩, write_entries_self, kept.mem_chain member named⟩
      · obtain ⟨entry, held, inChain⟩ := kept.placed found inside
        exact ⟨entry, (write_entries_of_ne same).trans held, inChain⟩
    freed := by
      intro found outside
      have different : found ≠ pointer := fun same => outside (same ▸ member)
      exact (write_entries_of_ne different).trans (kept.freed found outside)
    numbered := kept.numbered
    oneEntry := by
      intro first inFirst second inSecond same
      rw [sameKey, sameKey] at same
      exact kept.oneEntry first inFirst second inSecond same
    stored_iff := by
      intro tested held
      by_cases same : tested = key
      · subst same
        rw [Function.update_self]
        constructor
        · intro stands
          cases stands
          exact ⟨pointer, member, write_entries_self⟩
        · rintro ⟨found, inside, holds⟩
          have foundNamed := sameKey found
          rw [keyAt_eq_some.mpr ⟨held, holds⟩] at foundNamed
          obtain rfl := kept.oneEntry found inside pointer member (foundNamed.symm.trans named.symm)
          rw [write_entries_self] at holds
          cases holds
          exact rfl
      · rw [Function.update_of_ne same, kept.stored_iff]
        have different : ∀ found, cache.keyAt found = some tested → found ≠ pointer := by
          rintro found foundNamed rfl
          exact same (Option.some.inj (foundNamed.symm.trans named))
        constructor
        · rintro ⟨found, inside, holds⟩
          have other := different found (keyAt_eq_some.mpr ⟨held, holds⟩)
          exact ⟨found, inside, (write_entries_of_ne other).trans holds⟩
        · rintro ⟨found, inside, holds⟩
          have other := different found
            ((sameKey found).symm.trans (keyAt_eq_some.mpr ⟨held, holds⟩))
          exact ⟨found, inside, (write_entries_of_ne other).symm.trans holds⟩ }

theorem drop_entries_of_ne {found : Nat} (different : found ≠ pointer) :
    (cache.drop pointer key).entries found = cache.entries found :=
  Function.update_of_ne different _ _

theorem drop (kept : cache.Kept stored) (member : pointer ∈ cache.order)
    (named : cache.keyAt pointer = some key) :
    (cache.drop pointer key).Kept (Function.update stored key none) := by
  have inChain := kept.mem_chain member named
  have shorter : (cache.drop pointer key).order.length + 1 = cache.order.length :=
    LinkedTable.Linked.length_unlink member
  have left : ∀ {found}, found ∈ (cache.drop pointer key).order ↔
      found ≠ pointer ∧ found ∈ cache.order := kept.linked.mem_unlink
  have sameKey : ∀ found, found ≠ pointer →
      (cache.drop pointer key).keyAt found = cache.keyAt found :=
    fun found different => congrArg (Option.map SharedEntry.key) (drop_entries_of_ne different)
  have counted : (cache.size - 1).toNat = cache.size.toNat - 1 := by
    apply UInt64.toNat_sub_of_le
    rw [UInt64.le_iff_toNat_le, kept.counted, UInt64.toNat_one]
    omega
  have bounded := UInt64.le_iff_toNat_le.mp kept.bounded
  exact {
    linked := kept.linked.unlink inChain
    sized := List.length_set.trans kept.sized
    positive := kept.positive
    room := kept.room
    counted := by
      have := kept.counted
      exact counted.trans (by omega)
    bounded := by
      rw [UInt64.le_iff_toNat_le]
      exact counted.symm ▸ Nat.le_trans (Nat.sub_le _ 1) bounded
    placed := by
      intro found inside
      have other := left.mp inside
      obtain ⟨entry, held, hangs⟩ := kept.placed found other.2
      exact ⟨entry, (drop_entries_of_ne other.1).trans held,
        (kept.linked.mem_unlink_chain inChain).mpr ⟨other.1, hangs⟩⟩
    freed := by
      intro found outside
      by_cases same : found = pointer
      · subst same
        exact Function.update_self ..
      · apply (drop_entries_of_ne same).trans
        exact kept.freed found fun inside => outside (left.mpr ⟨same, inside⟩)
    numbered := fun found inside => kept.numbered found (left.mp inside).2
    oneEntry := by
      intro first inFirst second inSecond same
      rw [sameKey first (left.mp inFirst).1, sameKey second (left.mp inSecond).1] at same
      exact kept.oneEntry first (left.mp inFirst).2 second (left.mp inSecond).2 same
    stored_iff := by
      intro tested value
      have differs : ∀ found ∈ cache.order, found ≠ pointer → cache.keyAt found ≠ some key := by
        intro found inside different foundNamed
        exact different (kept.oneEntry found inside pointer member (foundNamed.trans named.symm))
      by_cases same : tested = key
      · subst same
        rw [Function.update_self]
        constructor
        · intro stands
          cases stands
        · rintro ⟨found, inside, held⟩
          have other := left.mp inside
          rw [drop_entries_of_ne other.1] at held
          exact absurd (keyAt_eq_some.mpr ⟨value, held⟩) (differs found other.2 other.1)
      · rw [Function.update_of_ne same, kept.stored_iff]
        constructor
        · rintro ⟨found, inside, held⟩
          have different : found ≠ pointer := by
            rintro rfl
            exact same (Option.some.inj ((keyAt_eq_some.mpr ⟨value, held⟩).symm.trans named))
          exact ⟨found, left.mpr ⟨different, inside⟩, (drop_entries_of_ne different).trans held⟩
        · rintro ⟨found, inside, held⟩
          have other := left.mp inside
          exact ⟨found, other.2, (drop_entries_of_ne other.1).symm.trans held⟩ }

theorem insert_entries_of_ne {found : Nat} (different : found ≠ cache.allocated) :
    (cache.insert key value).entries found = cache.entries found :=
  Function.update_of_ne different _ _

theorem insert_entries_self :
    (cache.insert key value).entries cache.allocated = some ⟨key, value⟩ :=
  Function.update_self ..

theorem insert (kept : cache.Kept stored) (roomy : cache.size < cache.capacity)
    (missing : ∀ pointer ∈ cache.order, cache.keyAt pointer ≠ some key) (value : Bytes) :
    (cache.insert key value).Kept (Function.update stored key (some value)) := by
  have old : ∀ pointer ∈ cache.order, pointer ≠ cache.allocated :=
    fun pointer member => Nat.ne_of_lt (kept.numbered pointer member)
  have fresh : cache.allocated ∉ cache.order := fun member => old _ member rfl
  have mem_insert : ∀ {found}, found ∈ (cache.insert key value).order ↔
      found = cache.allocated ∨ found ∈ cache.order := List.mem_cons
  have oldKey : ∀ found ∈ cache.order,
      (cache.insert key value).keyAt found = cache.keyAt found :=
    fun found member =>
      congrArg (Option.map SharedEntry.key) (insert_entries_of_ne (old found member))
  have newKey : (cache.insert key value).keyAt cache.allocated = some key :=
    congrArg (Option.map SharedEntry.key) insert_entries_self
  have small : cache.size.toNat < cache.capacity.toNat := UInt64.lt_iff_toNat_lt.mp roomy
  have counted : (cache.size + 1).toNat = cache.size.toNat + 1 := by
    rw [UInt64.toNat_add, UInt64.toNat_one]
    have := cache.capacity.toNat_lt
    omega
  exact {
    linked := kept.linked.link (kept.bucket_lt key) fresh
    sized := List.length_set.trans kept.sized
    positive := kept.positive
    room := kept.room
    counted := counted.trans (congrArg (· + 1) kept.counted)
    bounded := by
      rw [UInt64.le_iff_toNat_le]
      exact counted.symm ▸ small
    placed := by
      intro found inside
      rcases mem_insert.mp inside with rfl | inside
      · exact ⟨⟨key, value⟩, insert_entries_self,
          (LinkedTable.mem_link_chain (kept.bucket_lt key)).mpr (Or.inl ⟨rfl, rfl⟩)⟩
      · obtain ⟨entry, held, hangs⟩ := kept.placed found inside
        exact ⟨entry, (insert_entries_of_ne (old found inside)).trans held,
          (LinkedTable.mem_link_chain (kept.bucket_lt key)).mpr (Or.inr hangs)⟩
    freed := by
      intro found outside
      have other : found ≠ cache.allocated := fun same => outside (mem_insert.mpr (Or.inl same))
      apply (insert_entries_of_ne other).trans
      exact kept.freed found fun inside => outside (mem_insert.mpr (Or.inr inside))
    numbered := by
      intro found inside
      rcases mem_insert.mp inside with rfl | inside
      · exact Nat.lt_succ_self _
      · exact Nat.lt_succ_of_lt (kept.numbered found inside)
    oneEntry := by
      intro first inFirst second inSecond same
      rcases mem_insert.mp inFirst with rfl | inFirst
      · rcases mem_insert.mp inSecond with rfl | inSecond
        · exact rfl
        · rw [newKey, oldKey second inSecond] at same
          exact absurd same.symm (missing second inSecond)
      · rcases mem_insert.mp inSecond with rfl | inSecond
        · rw [newKey, oldKey first inFirst] at same
          exact absurd same (missing first inFirst)
        · rw [oldKey first inFirst, oldKey second inSecond] at same
          exact kept.oneEntry first inFirst second inSecond same
    stored_iff := by
      intro tested held
      by_cases same : tested = key
      · subst same
        rw [Function.update_self]
        constructor
        · intro stands
          cases stands
          exact ⟨cache.allocated, mem_insert.mpr (Or.inl rfl), insert_entries_self⟩
        · rintro ⟨found, inside, holds⟩
          rcases mem_insert.mp inside with rfl | inside
          · rw [insert_entries_self] at holds
            cases holds
            exact rfl
          · rw [insert_entries_of_ne (old found inside)] at holds
            exact absurd (keyAt_eq_some.mpr ⟨held, holds⟩) (missing found inside)
      · rw [Function.update_of_ne same, kept.stored_iff]
        constructor
        · rintro ⟨found, inside, holds⟩
          exact ⟨found, mem_insert.mpr (Or.inr inside),
            (insert_entries_of_ne (old found inside)).trans holds⟩
        · rintro ⟨found, inside, holds⟩
          rcases mem_insert.mp inside with rfl | inside
          · rw [insert_entries_self] at holds
            cases holds
            exact absurd rfl same
          · exact ⟨found, inside, (insert_entries_of_ne (old found inside)).symm.trans holds⟩ }

theorem makeRoom (kept : cache.Kept stored) :
    ∃ evicted next, cache.makeRoom = some (evicted, next) ∧
      next.Kept (storedWithout stored evicted) ∧ next.size < next.capacity ∧
        ∀ pointer ∈ next.order, pointer ∈ cache.order ∧
          next.keyAt pointer = cache.keyAt pointer := by
  rw [SharedCache.makeRoom]
  split_ifs with full
  · have positive : 0 < cache.size.toNat :=
      Nat.lt_of_lt_of_le kept.room (UInt64.le_iff_toNat_le.mp full)
    rw [kept.counted] at positive
    obtain ⟨victim, last⟩ : ∃ victim, cache.order.getLast? = some victim :=
      Option.isSome_iff_exists.mp (List.getLast?_isSome.mpr (List.ne_nil_of_length_pos positive))
    have member : victim ∈ cache.order := List.mem_of_getLast? last
    obtain ⟨entry, held, -⟩ := kept.placed victim member
    have named : cache.keyAt victim = some entry.key :=
      congrArg (Option.map SharedEntry.key) held
    have dropped := kept.drop member named
    refine ⟨some entry.key, cache.drop victim entry.key, ?_, dropped, ?_, ?_⟩
    · simp only [evictLru, last, named, Option.map_some]
    · have shorter : (cache.drop victim entry.key).order.length + 1 = cache.order.length :=
        LinkedTable.Linked.length_unlink member
      have bounded := UInt64.le_iff_toNat_le.mp kept.bounded
      rw [UInt64.lt_iff_toNat_lt, dropped.counted]
      rw [kept.counted] at bounded
      exact Nat.lt_of_lt_of_le (shorter ▸ Nat.lt_succ_self _) bounded
    · intro pointer inside
      have other := kept.linked.mem_unlink.mp inside
      exact ⟨other.2, congrArg (Option.map SharedEntry.key) (drop_entries_of_ne other.1)⟩
  · exact ⟨none, cache, rfl, kept, UInt64.not_le.mp full, fun _ inside => ⟨inside, rfl⟩⟩

theorem put (kept : cache.Kept stored) (key value : Bytes) (memory : CacheMemory) :
    ∃ change next, cache.genericCachePut key value memory = some (change, next) ∧
      next.Kept (storedAfter stored change key value) := by
  rw [genericCachePut]
  cases found : cache.findEntry key with
  | some pointer =>
      obtain ⟨member, named⟩ := kept.findEntry_eq_some.mp found
      obtain ⟨next, moved, keptNext⟩ := (kept.write member named value).moveToFront member
      dsimp only
      split_ifs with granted
      · exact ⟨⟨none, true⟩, next, by rw [moved, Option.map_some], keptNext⟩
      · exact ⟨⟨none, false⟩, cache, rfl, kept⟩
  | none =>
      obtain ⟨evicted, roomy, made, keptRoomy, below, fewer⟩ := kept.makeRoom
      have missing : ∀ pointer ∈ roomy.order, roomy.keyAt pointer ≠ some key := by
        intro pointer inside named
        have before := fewer pointer inside
        exact kept.findEntry_eq_none found before.1 (before.2.symm.trans named)
      simp only [made, Option.map_some, Option.some.injEq]
      split_ifs with granted
      · exact ⟨_, _, rfl, keptRoomy.insert below missing value⟩
      · exact ⟨_, _, rfl, keptRoomy⟩

theorem remove (kept : cache.Kept stored) (key : Bytes) :
    (cache.genericCacheRemove key).Kept (Function.update stored key none) := by
  rw [genericCacheRemove]
  cases found : cache.findEntry key with
  | some pointer =>
      obtain ⟨member, named⟩ := kept.findEntry_eq_some.mp found
      exact kept.drop member named
  | none =>
      have unset : stored key = none := by
        rw [Option.eq_none_iff_forall_ne_some]
        intro value stands
        obtain ⟨pointer, member, held⟩ := (kept.stored_iff key value).mp stands
        exact kept.findEntry_eq_none found member (keyAt_eq_some.mpr ⟨value, held⟩)
      rw [← unset, Function.update_eq_self]
      exact kept

theorem clear (kept : cache.Kept stored) : cache.genericCacheClear.Kept fun _ => none :=
  { linked := LinkedTable.linked_empty _
    sized := List.length_replicate
    positive := kept.positive
    room := kept.room
    counted := rfl
    bounded := UInt64.le_iff_toNat_le.mpr (Nat.zero_le _)
    placed := fun _ member => (List.not_mem_nil member).elim
    freed := by
      intro pointer _
      by_cases member : pointer ∈ cache.order
      · exact if_pos member
      · exact (if_neg member).trans (kept.freed pointer member)
    numbered := fun _ member => (List.not_mem_nil member).elim
    oneEntry := fun _ member => (List.not_mem_nil member).elim
    stored_iff := by
      intro key value
      refine iff_of_false (Option.some_ne_none value).symm ?_
      rintro ⟨pointer, member, -⟩
      exact List.not_mem_nil member }

end Kept

end SharedCache

/-! ## Runs -/

/-- The cache is kept, and what gets have returned or are about to is right. -/
structure SharedCacheState.Kept (state : SharedCacheState) : Prop where
  cache : state.cache.Kept state.stored
  answered : ∀ answer ∈ state.answers, answer.Right
  answering : ∀ thread, ∀ found ∈ state.moving thread, found.2.Right

namespace SharedCacheState.Kept

variable {state next : SharedCacheState}

theorem law (kept : state.Kept) : SharedCacheLaw state where
  linked := kept.cache.linked
  allocated := fun _ member => kept.cache.entries_isSome.mpr member
  oneEntry := kept.cache.oneEntry
  counted := kept.cache.counted
  bounded := kept.cache.bounded
  answered := kept.answered

theorem answered_append (kept : state.Kept) {answer : CacheAnswer} (right : answer.Right) :
    ∀ given ∈ state.answers ++ [answer], given.Right := by
  intro given member
  rcases List.mem_append.mp member with before | new
  · exact kept.answered given before
  · rwa [List.mem_singleton.mp new]

theorem answering_update (kept : state.Kept) (thread : Nat) {place : Option (Nat × CacheAnswer)}
    (right : ∀ found ∈ place, found.2.Right) :
    ∀ other, ∀ found ∈ Function.update state.moving thread place other, found.2.Right := by
  intro other
  by_cases same : other = thread
  · rwa [same, Function.update_self]
  · rw [Function.update_of_ne same]
    exact kept.answering other

theorem search (kept : state.Kept) (thread : Nat) (key : Bytes) (granted : Bool) :
    (state.search thread key granted).Kept := by
  rw [SharedCacheState.search]
  cases found : state.cache.findEntry key with
  | none =>
      have right : CacheAnswer.Right ⟨none, state.stored key⟩ := by
        intro value returned
        cases returned
      exact ⟨kept.cache, kept.answered_append right, kept.answering⟩
  | some pointer =>
      refine ⟨kept.cache, kept.answered, kept.answering_update thread fun place held => ?_⟩
      cases held
      intro value returned
      rw [kept.cache.stored_findEntry found]
      cases granted with
      | true => exact returned
      | false => cases returned

theorem move (kept : state.Kept) {thread pointer : Nat} {answer : CacheAnswer}
    (found : state.moving thread = some (pointer, answer)) (member : pointer ∈ state.cache.order) :
    ∃ next, state.move thread pointer answer = some next ∧ next.Kept := by
  obtain ⟨cache, moved, keptCache⟩ := kept.cache.moveToFront member
  have right := kept.answering thread (pointer, answer) found
  refine ⟨_, by rw [SharedCacheState.move, moved, Option.map_some], keptCache,
    kept.answered_append right, kept.answering_update thread ?_⟩
  intro place held
  cases held

theorem step (kept : state.Kept) {event : SharedCacheEvent} (stays : EntryStays state event) :
    ∃ next, sharedCacheStep state event = some next ∧ next.Kept := by
  cases event with
  | search thread key granted =>
      rw [sharedCacheStep]
      cases state.moving thread with
      | some _ => exact ⟨state, rfl, kept⟩
      | none => exact ⟨_, rfl, kept.search thread key granted⟩
  | move thread =>
      rw [sharedCacheStep]
      cases found : state.moving thread with
      | some moving => exact kept.move found (stays moving found)
      | none => exact ⟨state, rfl, kept⟩
  | put key value memory =>
      obtain ⟨change, cache, done, keptCache⟩ := kept.cache.put key value memory
      refine ⟨{ state with cache := cache, stored := storedAfter state.stored change key value },
        ?_, keptCache, kept.answered, kept.answering⟩
      rw [sharedCacheStep, SharedCacheState.put, done, Option.map_some]
  | remove key => exact ⟨_, rfl, kept.cache.remove key, kept.answered, kept.answering⟩
  | clear => exact ⟨_, rfl, kept.cache.clear, kept.answered, kept.answering⟩

theorem entryStays (kept : state.Kept) {event : SharedCacheEvent}
    (goesOn : ∃ next, sharedCacheStep state event = some next) : EntryStays state event := by
  cases event with
  | move thread =>
      intro found moves
      obtain ⟨next, taken⟩ := goesOn
      rw [sharedCacheStep, Option.mem_def.mp moves] at taken
      obtain ⟨cache, moved, -⟩ := Option.map_eq_some_iff.mp taken
      obtain ⟨entry, held, -⟩ := Option.map_eq_some_iff.mp moved
      exact kept.cache.entries_isSome.mp (Option.isSome_iff_exists.mpr ⟨entry, held⟩)
  | search thread key granted => trivial
  | put key value memory => trivial
  | remove key => trivial
  | clear => trivial

end SharedCacheState.Kept

theorem keeps_sharedCache :
    Keeps sharedCacheStep EntryStays SharedCacheState.Kept := by
  intro state event next kept stays taken
  obtain ⟨other, same, keptNext⟩ := kept.step stays
  obtain rfl := Option.some.inj (same.symm.trans taken)
  exact keptNext

theorem sharedCacheLaw_iff_entryStays {capacity : UInt64} {granted : Bool} {cache : SharedCache}
    (created : SharedCache.genericCacheCreate capacity granted = some cache)
    (events : List SharedCacheEvent) :
    EveryStep sharedCacheStep SectionLawful (.start cache) events ↔
      EveryStep sharedCacheStep EntryStays (.start cache) events := by
  have kept : (SharedCacheState.start cache).Kept := by
    refine ⟨SharedCache.kept_create created, fun answer member => ?_, fun _ _ moves => ?_⟩
    · cases member
    · cases moves
  apply EveryStep.iff_of_keeps keeps_sharedCache ?_ kept
  intro state event keptState
  constructor
  · rintro ⟨next, taken, -⟩
    exact keptState.entryStays ⟨next, taken⟩
  · intro stays
    obtain ⟨next, taken, keptNext⟩ := keptState.step stays
    exact ⟨next, taken, keptNext.law⟩

def cacheOfTwo : SharedCache where
  toLinkedTable := .empty 4
  entries := fun _ => none
  allocated := 0
  capacity := 2
  size := 0

def stayingRun : List SharedCacheEvent :=
  [.put [1] [10] ⟨true, true, true⟩, .search 0 [1] true, .put [2] [20] ⟨true, true, true⟩,
    .search 1 [2] true, .move 1, .move 0]

theorem sharedCacheLaw_iff_entryStays_stayingRun :
    SharedCache.genericCacheCreate 2 true = some cacheOfTwo ∧
      EveryStep sharedCacheStep SectionLawful (.start cacheOfTwo) stayingRun := by
  have created : SharedCache.genericCacheCreate 2 true = some cacheOfTwo := rfl
  have stays : EveryStep sharedCacheStep EntryStays (.start cacheOfTwo) stayingRun := by
    decide +kernel
  exact ⟨created, (sharedCacheLaw_iff_entryStays created stayingRun).mpr stays⟩

def removedBetweenRun : List SharedCacheEvent :=
  [.put [1] [10] ⟨true, true, true⟩, .search 0 [1] true, .remove [1], .move 0]

theorem not_sharedCacheLaw_removedBetweenRun :
    SharedCache.genericCacheCreate 2 true = some cacheOfTwo ∧
      ¬ EveryStep sharedCacheStep SectionLawful (.start cacheOfTwo) removedBetweenRun := by
  refine ⟨rfl, fun lawful => ?_⟩
  have goesOn : EveryStep sharedCacheStep
      (fun state event => (sharedCacheStep state event).isSome = true) (.start cacheOfTwo)
      removedBetweenRun := by
    apply lawful.mono
    intro state event met
    obtain ⟨next, taken, -⟩ := met
    exact Option.isSome_iff_exists.mpr ⟨next, taken⟩
  exact absurd goesOn (by decide +kernel)

end Jdbx
