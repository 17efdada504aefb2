import Jdbx.Library.Entries

/-!
# The generic cache

`generic_cache_t`: a least-recently-used cache of bounded size.  The hash
buckets only speed up the search for a key, so that the model keeps the list
from `head` (used last) to `tail` (evicted next).
-/

namespace Jdbx

open Library

variable {κ ν : Type} [DecidableEq κ]

/-- `generic_cache_t`, with its entries from the most recently used one. -/
structure GenericCache (κ ν : Type) where
  capacity : Nat
  entries : List (κ × ν)

def genericCacheCreate (capacity : Nat) : GenericCache κ ν :=
  { capacity, entries := [] }

/-- `move_to_front` of the entry of a key, with the value it then holds. -/
def moveToFront (cache : GenericCache κ ν) (key : κ) (value : ν) : GenericCache κ ν :=
  { cache with entries := (key, value) :: removeEntry key cache.entries }

def genericCacheGet (cache : GenericCache κ ν) (key : κ) : Option ν × GenericCache κ ν :=
  match getEntry key cache.entries with
  | some value => (some value, moveToFront cache key value)
  | none => (none, cache)

def evictLru (cache : GenericCache κ ν) : GenericCache κ ν :=
  { cache with entries := cache.entries.dropLast }

def genericCachePut (cache : GenericCache κ ν) (key : κ) (value : ν) : GenericCache κ ν :=
  match getEntry key cache.entries with
  | some _ => moveToFront cache key value
  | none =>
      let kept := if cache.entries.length ≥ cache.capacity then evictLru cache else cache
      { kept with entries := (key, value) :: kept.entries }

def genericCacheClear (cache : GenericCache κ ν) : GenericCache κ ν :=
  { cache with entries := [] }

def genericCacheRemove (cache : GenericCache κ ν) (key : κ) : GenericCache κ ν :=
  { cache with entries := removeEntry key cache.entries }

/-- Every entry of the cache obeys `law`. -/
def GenericCache.Obeys (cache : GenericCache κ ν) (law : κ → ν → Prop) : Prop :=
  ∀ key value, (key, value) ∈ cache.entries → law key value

variable {cache : GenericCache κ ν} {law other : κ → ν → Prop} {key : κ} {value : ν}

omit [DecidableEq κ] in
theorem genericCacheCreate_obeys (capacity : Nat) :
    (genericCacheCreate capacity : GenericCache κ ν).Obeys law := by
  intro key value member
  cases member

theorem mem_of_mem_removeEntry {entries : List (κ × ν)} {entry : κ × ν}
    (member : entry ∈ removeEntry key entries) : entry ∈ entries :=
  (removeEntry_sublist key entries).subset member

theorem moveToFront_obeys (obeys : cache.Obeys law) (lawful : law key value) :
    (moveToFront cache key value).Obeys law := by
  intro tested held member
  rcases List.mem_cons.mp member with same | member
  · cases same
    exact lawful
  · exact obeys tested held (mem_of_mem_removeEntry member)

theorem GenericCache.Obeys.get (obeys : cache.Obeys law)
    (found : (genericCacheGet cache key).1 = some value) : law key value := by
  rw [genericCacheGet] at found
  cases held : getEntry key cache.entries with
  | none => simp [held] at found
  | some stored =>
      simp only [held, Option.some.injEq] at found
      subst found
      exact obeys key stored (mem_of_getEntry_eq_some held)

theorem genericCacheGet_obeys (obeys : cache.Obeys law) (key : κ) :
    (genericCacheGet cache key).2.Obeys law := by
  rw [genericCacheGet]
  cases held : getEntry key cache.entries with
  | none => exact obeys
  | some stored => exact moveToFront_obeys obeys (obeys key stored (mem_of_getEntry_eq_some held))

omit [DecidableEq κ] in
theorem evictLru_obeys (obeys : cache.Obeys law) : (evictLru cache).Obeys law :=
  fun key value member => obeys key value ((List.dropLast_sublist cache.entries).subset member)

theorem genericCachePut_obeys (obeys : cache.Obeys law) (lawful : law key value) :
    (genericCachePut cache key value).Obeys law := by
  rw [genericCachePut]
  cases getEntry key cache.entries with
  | some _ => exact moveToFront_obeys obeys lawful
  | none =>
      intro tested held member
      rcases List.mem_cons.mp member with same | member
      · cases same
        exact lawful
      · by_cases full : cache.entries.length ≥ cache.capacity
        · rw [if_pos full] at member
          exact evictLru_obeys obeys tested held member
        · rw [if_neg full] at member
          exact obeys tested held member

end Jdbx
