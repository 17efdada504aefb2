import Jdbx.Utils.JsonCache
import Mathlib.Data.List.Perm.Basic
import Mathlib.Data.List.Nodup

/-!
# Runs of the cache of JSON values

The list, the two counters and the expiries through every call, and the entry that each
eviction takes.
-/

namespace Jdbx

open Library JsonCache

variable {δ : Type} {entries others : List (JsonCacheEntry δ)} {entry : JsonCacheEntry δ}
  {index events : Nat} {type : CacheType} {key : Bytes}

theorem entrySizes_cons : entrySizes (entry :: entries) = entry.size + entrySizes entries :=
  rfl

theorem entrySizes_perm (same : entries.Perm others) : entrySizes entries = entrySizes others := by
  apply same.foldr_eq'
  intro first _ second _ bytes
  rw [← UInt64.add_assoc, ← UInt64.add_assoc, UInt64.add_comm second.size]

theorem perm_eraseIdx (found : entries[index]? = some entry) :
    entries.Perm (entry :: entries.eraseIdx index) := by
  obtain ⟨inside, rfl⟩ := List.getElem?_eq_some_iff.mp found
  exact (List.getElem_cons_eraseIdx_perm inside).symm

theorem entrySizes_eraseIdx (found : entries[index]? = some entry) :
    entrySizes (entries.eraseIdx index) = entrySizes entries - entry.size := by
  rw [entrySizes_perm (perm_eraseIdx found), entrySizes_cons, UInt64.add_comm,
    UInt64.add_sub_cancel]

theorem placeEntry_perm {new : JsonCacheEntry δ} (found : entries[index]? = some entry) :
    (placeEntry type index new entries).Perm (new :: entries.eraseIdx index) := by
  obtain ⟨inside, -⟩ := List.getElem?_eq_some_iff.mp found
  cases type with
  | lru => exact .refl _
  | lfu =>
    apply List.perm_middle.trans
    rw [List.takeWhile_append_dropWhile]
  | fifo => exact List.set_perm_cons_eraseIdx inside new

theorem findCacheEntry_cases (keyed : ∀ entry ∈ entries, entry.key.isSome) (key : Bytes) :
    (findCacheEntry key entries = some none ∧ ∀ entry ∈ entries, entry.key ≠ some key) ∨
      ∃ index entry, findCacheEntry key entries = some (some (index, entry)) ∧
        entries[index]? = some entry ∧ entry.key = some key := by
  induction entries with
  | nil => exact Or.inl ⟨rfl, fun _ member => (List.not_mem_nil member).elim⟩
  | cons first rest ih =>
    obtain ⟨stored, named⟩ := Option.isSome_iff_exists.mp (keyed first List.mem_cons_self)
    have restKeyed : ∀ entry ∈ rest, entry.key.isSome :=
      fun entry member => keyed entry (List.mem_cons_of_mem first member)
    rw [findCacheEntry, named]
    by_cases same : stored = key
    · subst same
      exact Or.inr ⟨0, first, if_pos rfl, rfl, named⟩
    · simp only [if_neg same]
      rcases ih restKeyed with ⟨missing, others⟩ | ⟨index, entry, found⟩
      · refine Or.inl ⟨by rw [missing]; rfl, fun entry member => ?_⟩
        rcases List.mem_cons.mp member with rfl | member
        · exact fun keyed => same (Option.some.inj (named.symm.trans keyed))
        · exact others entry member
      · refine Or.inr ⟨index + 1, entry, by rw [found.1]; rfl, ?_, found.2.2⟩
        rw [List.getElem?_cons_succ]
        exact found.2.1

theorem foldl_sub_size (entries : List (JsonCacheEntry δ)) (bytes : UInt64) :
    entries.foldl (fun bytes entry => bytes - entry.size) bytes = bytes - entrySizes entries := by
  induction entries generalizing bytes with
  | nil => exact (UInt64.sub_zero bytes).symm
  | cons first rest ih =>
    rw [List.foldl_cons, ih, entrySizes_cons]
    grind

theorem entrySizes_filter (chosen : JsonCacheEntry δ → Bool) :
    entrySizes entries = entrySizes (entries.filter chosen) +
      entrySizes (entries.filter fun entry => !chosen entry) := by
  induction entries with
  | nil => exact rfl
  | cons first rest ih =>
    cases isChosen : chosen first with
    | true =>
      simp only [List.filter_cons, isChosen, entrySizes_cons, ih,
        Bool.not_true, if_true, Bool.false_eq_true, if_false]
      grind
    | false =>
      simp only [List.filter_cons, isChosen, entrySizes_cons, ih,
        Bool.not_false, if_true, Bool.false_eq_true, if_false]
      grind

theorem leastUsedFrom_spec {best start : Nat} {minCount : UInt32}
    (all : List (JsonCacheEntry δ)) (rest : entries = all.drop start)
    (held : ∃ entry, all[best]? = some entry ∧ entry.accessCount = minCount ∧
      ∀ other ∈ all.take start, minCount ≤ other.accessCount) :
    ∃ entry, all[leastUsedFrom entries start best minCount]? = some entry ∧
      ∀ other ∈ all, entry.accessCount ≤ other.accessCount := by
  induction entries generalizing start best minCount with
  | nil =>
    obtain ⟨entry, found, rfl, least⟩ := held
    refine ⟨entry, found, fun other member => least other ?_⟩
    rwa [List.take_of_length_le (List.drop_eq_nil_iff.mp rest.symm)]
  | cons first entries ih =>
    have atStart : all[start]? = some first := by
      rw [← List.head?_drop, ← rest]
      exact rfl
    have later : entries = all.drop (start + 1) := by
      rw [← List.tail_drop, ← rest]
      exact rfl
    have taken : ∀ other ∈ all.take (start + 1), other ∈ all.take start ∨ other = first := by
      intro other member
      rw [List.take_add_one, atStart] at member
      simpa using member
    obtain ⟨entry, found, rfl, least⟩ := held
    rw [leastUsedFrom]
    split_ifs with fewer
    · apply ih later
      refine ⟨first, atStart, rfl, fun other member => ?_⟩
      rcases taken other member with before | rfl
      · exact UInt32.le_trans (UInt32.le_of_lt fewer) (least other before)
      · exact UInt32.le_refl _
    · apply ih later
      refine ⟨entry, found, rfl, fun other member => ?_⟩
      rcases taken other member with before | rfl
      · exact least other before
      · exact UInt32.not_lt.mp fewer

/-! ## What is known of the entries -/

/-- What holds of an entry after so many events. -/
structure CacheEntryLaw (events : Nat) (entry : JsonCacheEntry δ) : Prop where
  keyed : entry.key.isSome
  counts : entry.accessCount.toNat = entry.history.uses
  used : entry.history.used < events
  inserted : entry.history.inserted < events
  living : ∀ now, entry.expired now = false → ∀ ends ∈ entry.history.deadline, now.toInt < ends

theorem CacheEntryLaw.mono {later : Nat} (law : CacheEntryLaw events entry)
    (after : events ≤ later) : CacheEntryLaw later entry :=
  { law with
    used := Nat.lt_of_lt_of_le law.used after
    inserted := Nat.lt_of_lt_of_le law.inserted after }

theorem CacheEntryLaw.use (law : CacheEntryLaw events entry)
    (fits : entry.history.uses + 1 < 2 ^ 32) : CacheEntryLaw (events + 1) (entry.use events) where
  keyed := law.keyed
  counts := by
    have counted := law.counts
    simp only [JsonCacheEntry.use, UInt32.toNat_add, UInt32.toNat_one]
    omega
  used := Nat.lt_succ_self events
  inserted := Nat.lt_succ_of_lt law.inserted
  living := law.living

structure CacheEntriesLaw (type : CacheType) (events : Nat) (entries : List (JsonCacheEntry δ)) :
    Prop where
  each : ∀ entry ∈ entries, CacheEntryLaw events entry
  oneEntry : (entries.map JsonCacheEntry.key).Nodup
  inOrder : InOrder type entries

theorem inOrder_nil (type : CacheType) : InOrder type ([] : List (JsonCacheEntry δ)) := by
  cases type with
  | lru => exact List.Pairwise.nil
  | lfu => trivial
  | fifo => exact List.Pairwise.nil

theorem InOrder.sublist (inOrder : InOrder type entries) (fewer : others.Sublist entries) :
    InOrder type others := by
  cases type with
  | lru => exact List.Pairwise.sublist fewer inOrder
  | lfu => trivial
  | fifo => exact List.Pairwise.sublist fewer inOrder

def insertedAt (entry : JsonCacheEntry δ) : Nat :=
  entry.history.inserted

namespace CacheEntriesLaw

theorem sublist (law : CacheEntriesLaw type events entries) (fewer : others.Sublist entries) :
    CacheEntriesLaw type events others where
  each := fun entry member => law.each entry (fewer.subset member)
  oneEntry := law.oneEntry.sublist (fewer.map JsonCacheEntry.key)
  inOrder := law.inOrder.sublist fewer

theorem mono {later : Nat} (law : CacheEntriesLaw type events entries) (after : events ≤ later) :
    CacheEntriesLaw type later entries :=
  { law with each := fun entry member => (law.each entry member).mono after }

theorem cons (law : CacheEntriesLaw type events entries) (new : CacheEntryLaw (events + 1) entry)
    (used : entry.history.used = events) (inserted : entry.history.inserted = events)
    (fresh : ∀ other ∈ entries, other.key ≠ entry.key) :
    CacheEntriesLaw type (events + 1) (entry :: entries) where
  each := by
    intro other member
    rcases List.mem_cons.mp member with rfl | member
    · exact new
    · exact (law.each other member).mono (Nat.le_succ events)
  oneEntry := by
    rw [List.map_cons, List.nodup_cons]
    refine ⟨fun member => ?_, law.oneEntry⟩
    obtain ⟨other, inside, same⟩ := List.mem_map.mp member
    exact fresh other inside same
  inOrder := by
    cases type with
    | lru =>
      exact List.pairwise_cons.mpr ⟨fun other member => used ▸ (law.each other member).used,
        law.inOrder⟩
    | lfu => trivial
    | fifo =>
      exact List.pairwise_cons.mpr
        ⟨fun other member => inserted ▸ (law.each other member).inserted, law.inOrder⟩

theorem place {new : JsonCacheEntry δ} (law : CacheEntriesLaw type events entries)
    (found : entries[index]? = some entry) (newLaw : CacheEntryLaw (events + 1) new)
    (used : new.history.used = events) (inserted : new.history.inserted = entry.history.inserted)
    (sameKey : new.key = entry.key) :
    CacheEntriesLaw type (events + 1) (placeEntry type index new entries) where
  each := by
    intro other member
    rcases List.mem_cons.mp ((placeEntry_perm found).mem_iff.mp member) with rfl | member
    · exact newLaw
    · exact (law.each other (List.eraseIdx_subset member)).mono (Nat.le_succ events)
  oneEntry := by
    have same : ((placeEntry type index new entries).map JsonCacheEntry.key).Perm
        (entries.map JsonCacheEntry.key) := by
      apply ((placeEntry_perm found).map _).trans
      rw [List.map_cons, sameKey, ← List.map_cons]
      exact ((perm_eraseIdx found).map _).symm
    exact same.nodup_iff.mpr law.oneEntry
  inOrder := by
    obtain ⟨inside, rfl⟩ := List.getElem?_eq_some_iff.mp found
    cases type with
    | lru =>
      refine List.pairwise_cons.mpr ⟨fun other member => ?_, ?_⟩
      · exact used ▸ (law.each other (List.eraseIdx_subset member)).used
      · exact law.inOrder.sublist (List.eraseIdx_sublist entries index)
    | lfu => trivial
    | fifo =>
      have same : (entries.set index new).map insertedAt = entries.map insertedAt := by
        apply List.ext_getElem?
        intro other
        rw [List.map_set, List.getElem?_set]
        split_ifs with here within
        · subst here
          rw [List.getElem?_eq_getElem within, List.getElem_map]
          exact congrArg some inserted
        · subst here
          exact (List.getElem?_eq_none (Nat.not_lt.mp within)).symm
        · exact rfl
      have before : (entries.map insertedAt).Pairwise fun first second => second < first :=
        List.pairwise_map.mpr law.inOrder
      rw [← same] at before
      exact List.pairwise_map.mp before

theorem victim (law : CacheEntriesLaw type events entries) (nonempty : entries ≠ []) :
    ∃ victim, entries[victimIndex type entries]? = some victim ∧
      CacheEviction.Named ⟨type, victim, entries.eraseIdx (victimIndex type entries)⟩ := by
  have atEnd : entries[entries.length - 1]? = some (entries.getLast nonempty) := by
    rw [← List.getLast?_eq_getElem?, List.getLast?_eq_some_getLast nonempty]
  have left : entries.eraseIdx (entries.length - 1) = entries.dropLast :=
    List.eraseIdx_length_sub_one
  have beforeEnd : ∀ {later : JsonCacheEntry δ → JsonCacheEntry δ → Prop},
      entries.Pairwise later →
        ∀ other ∈ entries.dropLast, later other (entries.getLast nonempty) := by
    intro later pairs other member
    rw [← List.dropLast_append_getLast nonempty] at pairs
    exact (List.pairwise_append.mp pairs).2.2 other member _ List.mem_cons_self
  cases type with
  | lru =>
    refine ⟨_, atEnd, fun other member => ?_⟩
    rw [victimIndex, left] at member
    exact Nat.le_of_lt (beforeEnd law.inOrder other member)
  | fifo =>
    refine ⟨_, atEnd, fun other member => ?_⟩
    rw [victimIndex, left] at member
    exact Nat.le_of_lt (beforeEnd law.inOrder other member)
  | lfu =>
    obtain ⟨first, rest, rfl⟩ := List.exists_cons_of_ne_nil nonempty
    have start : ∃ entry, (first :: rest)[0]? = some entry ∧
        entry.accessCount = first.accessCount ∧
          ∀ other ∈ (first :: rest).take 1, first.accessCount ≤ other.accessCount := by
      refine ⟨first, rfl, rfl, fun other member => ?_⟩
      rw [List.mem_singleton.mp member]
      exact UInt32.le_refl _
    obtain ⟨victim, found, fewest⟩ := leastUsedFrom_spec (first :: rest) rfl start
    refine ⟨victim, found, fun other member => ?_⟩
    have inside := List.eraseIdx_subset member
    have fewer := UInt32.le_iff_toNat_le.mp (fewest other inside)
    rwa [(law.each other inside).counts,
      (law.each victim (List.mem_of_getElem? found)).counts] at fewer

end CacheEntriesLaw

namespace JsonCache

variable {cache next : JsonCache δ}

/-- What holds of the cache after so many events, whatever its capacity. -/
structure Kept (cache : JsonCache δ) (events : Nat) : Prop where
  law : CacheEntriesLaw cache.config.type events cache.entries
  counted : cache.size = cache.entries.length
  summed : cache.byteSize = entrySizes cache.entries
  named : ∀ eviction ∈ cache.evicted, eviction.Named

theorem Kept.mono {later : Nat} (kept : cache.Kept events) (after : events ≤ later) :
    cache.Kept later :=
  { kept with law := kept.law.mono after }

theorem Kept.keyed (kept : cache.Kept events) : ∀ entry ∈ cache.entries, entry.key.isSome :=
  fun entry member => (kept.law.each entry member).keyed

theorem Kept.unlinkAt (kept : cache.Kept events) (found : cache.entries[index]? = some entry) :
    (cache.unlinkAt index entry).Kept events where
  law := kept.law.sublist (List.eraseIdx_sublist cache.entries index)
  counted := by
    obtain ⟨inside, -⟩ := List.getElem?_eq_some_iff.mp found
    rw [JsonCache.unlinkAt, List.length_eraseIdx_of_lt inside, kept.counted]
  summed := by
    rw [JsonCache.unlinkAt, entrySizes_eraseIdx found, kept.summed]
  named := kept.named

/-- The cache with fewer entries, the same ones otherwise. -/
structure Fewer (cache next : JsonCache δ) : Prop where
  config : next.config = cache.config
  lastCleanup : next.lastCleanup = cache.lastCleanup
  entries : next.entries.Sublist cache.entries

theorem Fewer.refl (cache : JsonCache δ) : Fewer cache cache :=
  ⟨rfl, rfl, .refl _⟩

theorem Fewer.trans {last : JsonCache δ} (first : Fewer cache next) (second : Fewer next last) :
    Fewer cache last :=
  ⟨second.config.trans first.config, second.lastCleanup.trans first.lastCleanup,
    second.entries.trans first.entries⟩

theorem Kept.evictEntry (kept : cache.Kept events) (nonempty : 0 < cache.size) :
    cache.evictEntry.Kept events ∧ Fewer cache cache.evictEntry ∧
      cache.evictEntry.size + 1 = cache.size := by
  rw [kept.counted] at nonempty
  obtain ⟨victim, found, named⟩ := kept.law.victim (List.ne_nil_of_length_pos nonempty)
  have evicts : cache.evictEntry = { cache.unlinkAt (victimIndex cache.config.type cache.entries)
        victim with
      evicted := cache.evicted ++ [{
        type := cache.config.type
        victim := victim
        others := cache.entries.eraseIdx (victimIndex cache.config.type cache.entries) }] } := by
    simp only [JsonCache.evictEntry, found]
  have unlinked := kept.unlinkAt found
  rw [evicts]
  refine ⟨⟨unlinked.law, unlinked.counted, unlinked.summed, fun eviction member => ?_⟩,
    ⟨rfl, rfl, List.eraseIdx_sublist _ _⟩, ?_⟩
  · rcases List.mem_append.mp member with before | new
    · exact kept.named eviction before
    · rw [List.mem_singleton.mp new]
      exact named
  · have := kept.counted
    simp only [JsonCache.unlinkAt]
    omega

theorem Kept.evictWhile {exceeds : JsonCache δ → Bool}
    (positive : ∀ cache, exceeds cache → 0 < cache.size)
    {rounds : Nat} (kept : cache.Kept events) (enough : cache.size ≤ rounds) :
    ∃ next, evictWhile exceeds rounds cache = some next ∧ next.Kept events ∧ Fewer cache next ∧
      next.size ≤ cache.size ∧ exceeds next = false := by
  induction rounds generalizing cache with
  | zero =>
    have under : exceeds cache = false := by
      by_contra isOver
      have := positive cache (eq_true_of_ne_false isOver)
      omega
    exact ⟨cache, by simp [JsonCache.evictWhile, under], kept, .refl cache, Nat.le_refl _, under⟩
  | succ rounds ih =>
    rw [JsonCache.evictWhile]
    split_ifs with isOver
    · obtain ⟨keptNext, fewer, size⟩ := kept.evictEntry (positive cache isOver)
      obtain ⟨last, ends, keptLast, fewerLast, sizeLast, under⟩ :=
        ih keptNext (by omega)
      exact ⟨last, ends, keptLast, fewer.trans fewerLast, by omega, under⟩
    · exact ⟨cache, rfl, kept, .refl cache, Nat.le_refl _, eq_false_of_ne_true isOver⟩

/-! ## The calls -/

theorem Kept.cacheRunCleanup (kept : cache.Kept events) (now : Int64) :
    (cache.cacheRunCleanup now).Kept events where
  law := kept.law.sublist List.filter_sublist
  counted := by
    have split := List.length_eq_length_filter_add (l := cache.entries) (·.expired now)
    have := kept.counted
    simp only [JsonCache.cacheRunCleanup]
    omega
  summed := by
    simp only [JsonCache.cacheRunCleanup]
    rw [foldl_sub_size, kept.summed, entrySizes_filter (·.expired now), UInt64.add_comm,
      UInt64.add_sub_cancel]
  named := kept.named

theorem Kept.cacheRemove (kept : cache.Kept events) (key : Bytes) :
    ∃ next, cache.cacheRemove key = some next ∧ next.Kept events ∧ Fewer cache next ∧
      next.size ≤ cache.size := by
  rw [JsonCache.cacheRemove]
  rcases findCacheEntry_cases kept.keyed key with ⟨missing, -⟩ | ⟨index, entry, found, held, -⟩
  · rw [missing]
    exact ⟨cache, rfl, kept, .refl cache, Nat.le_refl _⟩
  · rw [found]
    exact ⟨_, rfl, kept.unlinkAt held, ⟨rfl, rfl, List.eraseIdx_sublist _ _⟩, Nat.sub_le _ _⟩

theorem Kept.useAt {new : JsonCacheEntry δ} (kept : cache.Kept events)
    (held : cache.entries[index]? = some entry) (newLaw : CacheEntryLaw (events + 1) new)
    (used : new.history.used = events) (inserted : new.history.inserted = entry.history.inserted)
    (sameKey : new.key = entry.key) :
    Kept { cache.useAt index new with byteSize := cache.byteSize + (new.size - entry.size) }
      (events + 1) where
  law := kept.law.place held newLaw used inserted sameKey
  counted := by
    obtain ⟨inside, -⟩ := List.getElem?_eq_some_iff.mp held
    have same : (placeEntry cache.config.type index new cache.entries).length =
        (new :: cache.entries.eraseIdx index).length := (placeEntry_perm held).length_eq
    have := kept.counted
    simp only [List.length_cons, List.length_eraseIdx_of_lt inside] at same
    simp only [JsonCache.useAt]
    omega
  summed := by
    simp only [JsonCache.useAt]
    rw [entrySizes_perm (placeEntry_perm held), entrySizes_cons, entrySizes_eraseIdx held,
      kept.summed]
    grind
  named := kept.named

theorem Kept.cacheGet (kept : cache.Kept events) (fits : CountFits cache.entries key) (now : Int64)
    (cloned : Bool) :
    ∃ answer next, cache.cacheGet events key now cloned = some (answer, next) ∧
      next.Kept (events + 1) ∧ next.config = cache.config ∧ next.size ≤ cache.size ∧
        (answer.result.isSome → ∀ ends ∈ answer.deadline, answer.now.toInt < ends) := by
  rw [JsonCache.cacheGet]
  rcases findCacheEntry_cases kept.keyed key with ⟨missing, -⟩ | ⟨index, entry, found, held, named⟩
  · rw [missing]
    exact ⟨_, cache, rfl, kept.mono (Nat.le_succ events), rfl, Nat.le_refl _,
      fun returned => nomatch returned⟩
  · rw [found]
    simp only [Option.map_some]
    have member := List.mem_of_getElem? held
    have law := kept.law.each entry member
    cases past : entry.expired now with
    | true =>
      exact ⟨_, _, rfl, (kept.unlinkAt held).mono (Nat.le_succ events), rfl, Nat.sub_le _ _,
        fun returned => nomatch returned⟩
    | false =>
      have used := kept.useAt held (law.use (fits entry member named)) rfl rfl rfl
      have sameBytes : cache.byteSize + ((entry.use events).size - entry.size) =
          cache.byteSize := by
        simp only [JsonCacheEntry.use]
        grind
      rw [sameBytes] at used
      exact ⟨_, _, rfl, used, rfl, Nat.le_refl _, fun _ => law.living now past⟩

theorem living_of_expiryFits {stamp ttl : Int64} (fits : ExpiryFits stamp ttl)
    (expires : entry.expires = expiry stamp ttl) (now : Int64)
    (alive : entry.expired now = false) : ∀ ends ∈ deadline stamp ttl, now.toInt < ends := by
  intro ends stands
  rw [deadline] at stands
  split_ifs at stands with limited
  · cases stands
    obtain ⟨positive, below⟩ := fits limited
    have sum : (stamp + ttl).toInt = stamp.toInt + ttl.toInt := by
      rw [Int64.toInt_add]
      exact Int.bmod_eq_of_le (by omega) (by omega)
    rw [JsonCacheEntry.expired, expires, expiry, if_pos limited, Bool.and_eq_false_iff,
      decide_eq_false_iff_not, decide_eq_false_iff_not, Int64.lt_iff_toInt_lt,
      Int64.le_iff_toInt_le, sum] at alive
    have zero : (0 : Int64).toInt = 0 := rfl
    omega
  · cases stands

theorem Kept.updateEntry (kept : cache.Kept events) (held : cache.entries[index]? = some entry)
    (named : entry.key = some key) (countFits : CountFits cache.entries key)
    {ttl stamp : Int64} (fits : ExpiryFits stamp (cache.config.effectiveTtl ttl))
    (value : JsonValue δ) (valueSize : UInt64) (copies : EntryCopies) :
    (cache.updateEntry events index entry key value valueSize ttl stamp copies).Kept
      (events + 1) := by
  have member := List.mem_of_getElem? held
  have used := (kept.law.each entry member).use (countFits entry member named)
  simp only [JsonCache.updateEntry]
  refine kept.useAt held ?_ ?_ ?_ ?_
  · exact { used with living := living_of_expiryFits fits rfl }
  · exact rfl
  · exact rfl
  · exact rfl

theorem createEntry_law {stamp ttl : Int64} (fits : ExpiryFits stamp ttl) (key : Bytes)
    (value : JsonValue δ) (valueSize : UInt64) {copies : EntryCopies} (copied : copies.key) :
    CacheEntryLaw (events + 1) (createEntry events key value valueSize ttl stamp copies) where
  keyed := by simp [createEntry, copied]
  counts := rfl
  used := Nat.lt_succ_self events
  inserted := Nat.lt_succ_self events
  living := living_of_expiryFits fits rfl

section Room

variable [CDoubleSize δ]

theorem atMemoryLimit_pos (cache : JsonCache δ) (limit : cache.atMemoryLimit) : 0 < cache.size := by
  simp only [atMemoryLimit, Bool.and_eq_true, decide_eq_true_eq] at limit
  exact limit.2

theorem Kept.makeRoom (kept : cache.Kept events)
    (bounded : cache.config.capacity ≠ 0 → cache.size ≤ cache.config.capacity) :
    ∃ next, cache.makeRoom = some next ∧ next.Kept events ∧ Fewer cache next ∧
      (cache.config.capacity ≠ 0 → next.size < cache.config.capacity) := by
  rw [JsonCache.makeRoom]
  split_ifs with full
  · obtain ⟨keptNext, fewer, size⟩ := kept.evictEntry (Nat.lt_of_lt_of_le full.1 full.2)
    obtain ⟨last, ends, keptLast, fewerLast, sizeLast, -⟩ :=
      keptNext.evictWhile atMemoryLimit_pos (Nat.le_of_eq keptNext.counted)
    refine ⟨last, ends, keptLast, fewer.trans fewerLast, fun limited => ?_⟩
    have := bounded limited
    omega
  · obtain ⟨last, ends, keptLast, fewerLast, sizeLast, -⟩ :=
      kept.evictWhile atMemoryLimit_pos (Nat.le_of_eq kept.counted)
    refine ⟨last, ends, keptLast, fewerLast, fun limited => ?_⟩
    have := Nat.pos_of_ne_zero limited
    omega

theorem Kept.addEntry (kept : cache.Kept events)
    (bounded : cache.config.capacity ≠ 0 → cache.size ≤ cache.config.capacity)
    (missing : ∀ entry ∈ cache.entries, entry.key ≠ some key) {ttl now stamp : Int64}
    (notDue : cache.cleanupDue now = false) {copies : EntryCopies}
    (copied : copies.entry → copies.key)
    (fits : ExpiryFits stamp (cache.config.effectiveTtl ttl)) (value : JsonValue δ)
    (valueSize : UInt64) :
    ∃ next, cache.addEntry events key value valueSize ttl now stamp copies = some next ∧
      next.Kept (events + 1) ∧ next.config = cache.config ∧
        (cache.config.capacity ≠ 0 → next.size ≤ cache.config.capacity) := by
  obtain ⟨roomy, made, keptRoomy, fewer, room⟩ := kept.makeRoom bounded
  rw [JsonCache.addEntry, notDue, made]
  simp only [Bool.false_eq_true, if_false, Option.map_some, Option.some.injEq, exists_eq_left']
  split_ifs with granted
  · have entryLaw : CacheEntryLaw (events + 1) (createEntry events key value valueSize
        (roomy.config.effectiveTtl ttl) stamp copies) :=
      createEntry_law (fewer.config ▸ fits) key value valueSize (copied granted)
    have named : (createEntry events key value valueSize (roomy.config.effectiveTtl ttl) stamp
        copies).key = some key := if_pos (copied granted)
    refine ⟨⟨keptRoomy.law.cons entryLaw rfl rfl fun other inside => ?_, ?_, ?_, keptRoomy.named⟩,
      fewer.config, room⟩
    · rw [named]
      exact missing other (fewer.entries.subset inside)
    · exact congrArg (· + 1) keptRoomy.counted
    · rw [entrySizes_cons, keptRoomy.summed, UInt64.add_comm]
  · exact ⟨keptRoomy.mono (Nat.le_succ events), fewer.config,
      fun limited => Nat.le_of_lt (room limited)⟩

end Room

theorem Kept.cacheSetConfig (kept : cache.Kept events) {config : JsonCacheConfig δ}
    (bounded : cache.config.capacity ≠ 0 → cache.size ≤ cache.config.capacity)
    (unbounded : cache.config.capacity = 0 → config.capacity ≠ 0 → cache.size ≤ config.capacity)
    (inOrder : InOrder config.type cache.entries) :
    ∃ next, cache.cacheSetConfig config = some next ∧ next.Kept events ∧
      (next.config.capacity ≠ 0 → next.size ≤ next.config.capacity) := by
  have keptNew : Kept { cache with config := config } events :=
    { law := { kept.law with inOrder := inOrder }
      counted := kept.counted
      summed := kept.summed
      named := kept.named }
  rw [JsonCache.cacheSetConfig]
  split_ifs with reduced
  · have positive : ∀ left : JsonCache δ,
        decide (config.capacity < left.size) = true → 0 < left.size :=
      fun left exceeds => Nat.lt_of_le_of_lt (Nat.zero_le _) (of_decide_eq_true exceeds)
    obtain ⟨next, ends, keptNext, fewer, -, under⟩ :=
      keptNew.evictWhile positive (Nat.le_of_eq kept.counted)
    refine ⟨next, ends, keptNext, fun _ => ?_⟩
    rw [fewer.config]
    exact Nat.not_lt.mp (of_decide_eq_false under)
  · refine ⟨_, rfl, keptNew, fun limited => ?_⟩
    by_cases before : cache.config.capacity = 0
    · exact unbounded before limited
    · exact Nat.le_trans (bounded before) (Nat.not_lt.mp reduced)

end JsonCache

structure JsonCacheState.Kept (state : JsonCacheState δ) : Prop where
  cache : state.cache.Kept state.events
  bounded : state.cache.config.capacity ≠ 0 → state.cache.size ≤ state.cache.config.capacity
  living : ∀ answer ∈ state.gets, answer.result.isSome → ∀ ends ∈ answer.deadline,
    answer.now.toInt < ends

namespace JsonCacheState.Kept

variable {state : JsonCacheState δ}

theorem law (kept : state.Kept) : JsonCacheLaw state where
  oneEntry := kept.cache.law.oneEntry
  counted := kept.cache.counted
  summed := kept.cache.summed
  bounded := kept.bounded
  living := kept.living
  named := kept.cache.named

theorem withCache (kept : state.Kept) {cache : JsonCache δ}
    (keptCache : cache.Kept (state.events + 1))
    (bounded : cache.config.capacity ≠ 0 → cache.size ≤ cache.config.capacity) :
    (state.withCache cache).Kept :=
  ⟨keptCache, bounded, kept.living⟩

section Put

variable [CDoubleSize δ]

theorem put (kept : state.Kept) {ttl now stamp : Int64} {copies : EntryCopies}
    (value : JsonValue δ) (valueSize : UInt64)
    (keeps : KeepsCacheLaw state (.put key value valueSize ttl now stamp copies)) :
    ∃ next, jsonCacheStep state (.put key value valueSize ttl now stamp copies) = some next ∧
      next.Kept := by
  obtain ⟨adds, expiryFits, countFits⟩ := keeps
  rw [jsonCacheStep, cachePut]
  rcases findCacheEntry_cases kept.cache.keyed key with
    ⟨missing, others⟩ | ⟨index, entry, found, held, named⟩
  · obtain ⟨notDue, copied⟩ := adds others
    obtain ⟨cache, added, keptCache, sameConfig, bounded⟩ :=
      kept.cache.addEntry kept.bounded others notDue copied expiryFits value valueSize
    rw [← sameConfig] at bounded
    refine ⟨state.withCache cache, ?_, kept.withCache keptCache bounded⟩
    rw [missing, Option.bind_some, added, Option.map_some]
  · have keptCache :=
      kept.cache.updateEntry held named countFits expiryFits value valueSize copies
    exact ⟨_, by rw [found]; rfl, kept.withCache keptCache kept.bounded⟩

theorem step (kept : state.Kept) {call : JsonCacheCall δ} (keeps : KeepsCacheLaw state call) :
    ∃ next, jsonCacheStep state call = some next ∧ next.Kept := by
  cases call with
  | put key value valueSize ttl now stamp copies => exact kept.put value valueSize keeps
  | get key now cloned =>
    obtain ⟨answer, cache, returned, keptCache, sameConfig, size, living⟩ :=
      kept.cache.cacheGet keeps now cloned
    refine ⟨_, by rw [jsonCacheStep, returned]; rfl, keptCache, fun limited => ?_, ?_⟩
    · have limited : cache.config.capacity ≠ 0 := limited
      rw [sameConfig] at limited
      exact Nat.le_trans size (sameConfig ▸ kept.bounded limited)
    · intro given member
      rcases List.mem_append.mp member with before | new
      · exact kept.living given before
      · rw [List.mem_singleton.mp new]
        exact living
  | remove key =>
    obtain ⟨cache, removed, keptCache, fewer, size⟩ := kept.cache.cacheRemove key
    refine ⟨_, by rw [jsonCacheStep, removed]; rfl,
      kept.withCache (keptCache.mono (Nat.le_succ _)) fun limited => ?_⟩
    rw [fewer.config] at limited ⊢
    exact Nat.le_trans size (kept.bounded limited)
  | cleanup now =>
    refine ⟨_, rfl,
      kept.withCache ((kept.cache.cacheRunCleanup now).mono (Nat.le_succ _)) fun limited => ?_⟩
    exact Nat.le_trans (Nat.sub_le _ _) (kept.bounded limited)
  | setConfig config =>
    obtain ⟨cache, set, keptCache, bounded⟩ :=
      kept.cache.cacheSetConfig kept.bounded keeps.1 keeps.2
    exact ⟨_, by rw [jsonCacheStep, set]; rfl,
      kept.withCache (keptCache.mono (Nat.le_succ _)) bounded⟩

end Put

end JsonCacheState.Kept

section Runs

variable [CDoubleSize δ]

theorem keeps_jsonCache : Keeps jsonCacheStep KeepsCacheLaw (JsonCacheState.Kept (δ := δ)) := by
  intro state call next kept keeps taken
  obtain ⟨other, same, keptNext⟩ := kept.step keeps
  obtain rfl := Option.some.inj (same.symm.trans taken)
  exact keptNext

theorem jsonCacheLaw_of_keepsCacheLaw (config : JsonCacheConfig δ) (now : Int64)
    {calls : List (JsonCacheCall δ)}
    (keeps : EveryStep jsonCacheStep KeepsCacheLaw (.start config now) calls) :
    EveryStep jsonCacheStep CallLawful (.start config now) calls := by
  have kept : (JsonCacheState.start config now).Kept := by
    refine ⟨⟨⟨fun _ member => ?_, List.nodup_nil, inOrder_nil _⟩, rfl, rfl, fun _ member => ?_⟩,
      fun _ => Nat.zero_le _, fun _ member => ?_⟩
    · cases member
    · cases member
    · cases member
  apply EveryStep.of_keeps keeps_jsonCache ?_ kept keeps
  intro state call keptState keepsCall
  obtain ⟨next, taken, keptNext⟩ := keptState.step keepsCall
  exact ⟨next, taken, keptNext.law⟩

end Runs

def cacheConfig (capacity : Nat) (type : CacheType) : JsonCacheConfig Rat where
  capacity := capacity
  defaultTtl := 0
  type := type
  maxMemoryMb := 0
  cleanupInterval := 60

def copied : EntryCopies :=
  ⟨true, true, true⟩

/-- A cache of two entries under each policy, with an eviction, an expiry and a bound that
is lowered. -/
def boundedCalls : List (JsonCacheCall Rat) :=
  [.put [1] .null 32 0 5 5 copied, .put [2] .null 32 10 6 6 copied, .get [1] 7 true,
    .put [3] .null 32 0 8 8 copied, .get [3] 9 true, .setConfig (cacheConfig 2 .lfu),
    .put [4] .null 32 2 9 9 copied, .get [4] 11 true, .setConfig (cacheConfig 1 .fifo),
    .cleanup 60, .remove [3]]

theorem jsonCacheLaw_of_keepsCacheLaw_boundedCalls :
    EveryStep jsonCacheStep CallLawful (.start (cacheConfig 2 .lru) 0) boundedCalls := by
  have keeps : EveryStep jsonCacheStep KeepsCacheLaw (.start (cacheConfig 2 .lru) 0)
      boundedCalls := by
    decide +kernel
  exact jsonCacheLaw_of_keepsCacheLaw (cacheConfig 2 .lru) 0 keeps

def unboundedCalls : List (JsonCacheCall Rat) :=
  [.put [1] .null 32 0 5 5 copied, .put [2] .null 32 0 6 6 copied,
    .setConfig (cacheConfig 1 .lru)]

theorem not_jsonCacheLaw_unboundedCalls :
    ¬ EveryStep jsonCacheStep CallLawful (.start (cacheConfig 0 .lru) 0) unboundedCalls := by
  intro lawful
  have withinBound : EveryStep jsonCacheStep (fun state call =>
      (jsonCacheStep state call).all fun next =>
        next.cache.config.capacity == 0 || next.cache.size ≤ next.cache.config.capacity)
      (.start (cacheConfig 0 .lru) 0) unboundedCalls := by
    apply lawful.mono
    intro state call met
    obtain ⟨next, taken, law⟩ := met
    rw [taken, Option.all_some, Bool.or_eq_true, beq_iff_eq, decide_eq_true_eq]
    exact Decidable.or_iff_not_imp_left.mpr law.bounded
  exact absurd withinBound (by decide +kernel)

end Jdbx
