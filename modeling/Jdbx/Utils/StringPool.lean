import Jdbx.Library.ChainedTable
import Jdbx.Library.CString
import Jdbx.Library.GuardedRun
import Mathlib.Algebra.Group.Nat.Defs
import Mathlib.Algebra.GroupWithZero.Nat
import Mathlib.Logic.Function.Basic

/-!
# The string pool

`string_pool.c`: a hash table of reference-counted strings.  A section under the lock of a
bucket is one step, and so is each access without it.

An entry is numbered when it is allocated, and a number is given once.  There is no next state
where a freed entry is read.
-/

namespace Jdbx

open Library

/-- `pool_entry_t` with its `interned_string_t`, without the link.  `text` is what was copied
into `data`, before the terminator. -/
structure PoolEntry where
  text : Bytes
  refCount : UInt32
  hash : UInt32
  deriving DecidableEq

/-- `string_pool_t`.  `entries` holds what is allocated and not yet freed. -/
structure StringPool where
  table : List (List Nat)
  entries : Nat → Option PoolEntry
  allocated : Nat
  maxStrings : UInt64
  currentStrings : UInt64
  totalMemory : UInt64
  hitCount : UInt64
  missCount : UInt64

def hashString (text : Bytes) : UInt32 :=
  text.foldl (fun hash byte => (hash ^^^ byte.toUInt32) * 16777619) 2166136261

def isPowerOf2 (number : UInt64) : Bool :=
  0 < number && number &&& (number - 1) = 0

/-- `sizeof(string_pool_t)` and the buckets. -/
def fixedMemory (capacity : Nat) : Nat :=
  104 + capacity * 48

/-- `sizeof(pool_entry_t) + len + 1`. -/
def entrySize (length : Nat) : Nat :=
  24 + length + 1

namespace StringPool

/-- `string_pool_create`, where the allocations are granted. -/
def stringPoolCreate (initialCapacity maxStrings : UInt64) : StringPool :=
  let capacity :=
    if initialCapacity = 0 ∨ isPowerOf2 initialCapacity = false then 1024 else initialCapacity
  { table := List.replicate capacity.toNat []
    entries := fun _ => none
    allocated := 0
    maxStrings := maxStrings
    currentStrings := 0
    totalMemory := UInt64.ofNat (fixedMemory capacity.toNat)
    hitCount := 0
    missCount := 0 }

variable (pool : StringPool)

/-- `hash & pool->bucket_mask`. -/
def bucketIndex (hash : UInt32) : Nat :=
  hash.toNat &&& (pool.table.length - 1)

def chain (hash : UInt32) : List Nat :=
  chainAt pool.table (pool.bucketIndex hash)

def pointers : List Nat :=
  pool.table.flatten

def textAt (pointer : Nat) : Option Bytes :=
  (pool.entries pointer).map PoolEntry.text

/-- The test of the lookup: equal hashes, `strlen` is the length, and `memcmp` finds no
difference. -/
def isMatch (text : Bytes) (pointer : Nat) : Bool :=
  match pool.entries pointer with
  | some entry =>
      entry.hash = hashString text && (cString entry.text).length = text.length &&
        entry.text.take text.length = text
  | none => false

def find (text : Bytes) : Option Nat :=
  (pool.chain (hashString text)).find? (pool.isMatch text)

def setRefCount (pointer : Nat) (refCount : UInt32) : StringPool :=
  { pool with
    entries := Function.update pool.entries pointer
      ((pool.entries pointer).map fun entry => { entry with refCount := refCount }) }

def hit (pointer : Nat) (refCount : UInt32) : StringPool :=
  { pool.setRefCount pointer (refCount + 1) with hitCount := pool.hitCount + 1 }

def insert (text : Bytes) : StringPool :=
  let hash := hashString text
  { pool with
    table := pushNode (fun _ => pool.bucketIndex hash) pool.table pool.allocated
    entries := Function.update pool.entries pool.allocated (some ⟨text, 1, hash⟩)
    allocated := pool.allocated + 1 }

def remove (pointer : Nat) (hash : UInt32) (text : Bytes) : StringPool :=
  { pool with
    table := pool.table.modify (pool.bucketIndex hash) fun chain => chain.eraseP (· = pointer)
    entries := Function.update pool.entries pointer none
    currentStrings := pool.currentStrings - 1
    totalMemory := pool.totalMemory - UInt64.ofNat (entrySize (cString text).length) }

/-- The section of `string_pool_release`. -/
def drop (pointer : Nat) (hash : UInt32) : StringPool :=
  if pointer ∈ pool.chain hash then
    match pool.entries pointer with
    | some entry =>
        if entry.refCount - 1 = 0 then pool.remove pointer hash entry.text
        else pool.setRefCount pointer (entry.refCount - 1)
    | none => pool
  else pool

end StringPool

/-! ## The threads -/

/-- What an intern returns, with the string that was interned. -/
structure Handle where
  text : Bytes
  pointer : Nat
  deriving DecidableEq

/-- Where a thread stands in `string_pool_intern_len` or `string_pool_release`. -/
inductive StringPlace where
  | idle
  | checkLimit (text : Bytes)
  | lookup (text : Bytes)
  | countString (handle : Handle)
  | countMemory (handle : Handle)
  | countMiss (handle : Handle)
  | readRefs (handle : Handle)
  | readHash (handle : Handle)
  | drop (handle : Handle) (hash : UInt32)
  deriving DecidableEq

namespace StringPlace

def handle : StringPlace → Option Handle
  | countString handle | countMemory handle | countMiss handle | readRefs handle
  | readHash handle | drop handle _ => some handle
  | idle | checkLimit _ | lookup _ => none

end StringPlace

structure StringPoolState where
  pool : StringPool
  places : List StringPlace
  /-- What interns have returned and no release has been called for. -/
  returned : List Handle
  /-- For each intern that failed for the limit, whether the string was in the pool. -/
  refusals : List Bool

namespace StringPoolState

def start (initialCapacity maxStrings : UInt64) (threads : Nat) : StringPoolState where
  pool := .stringPoolCreate initialCapacity maxStrings
  places := List.replicate threads .idle
  returned := []
  refusals := []

variable (state : StringPoolState)

def goTo (thread : Nat) (place : StringPlace) : StringPoolState :=
  { state with places := state.places.set thread place }

def held : List Handle :=
  state.places.filterMap StringPlace.handle ++ state.returned

def HasText (text : Bytes) : Prop :=
  ∃ pointer ∈ state.pool.pointers, state.pool.textAt pointer = some text

instance (text : Bytes) : Decidable (state.HasText text) :=
  inferInstanceAs (Decidable (∃ pointer ∈ state.pool.pointers, _))

def share (thread pointer : Nat) (text : Bytes) (refCount : UInt32) : StringPoolState :=
  { state with
    pool := state.pool.hit pointer refCount
    returned := state.returned ++ [Handle.mk text pointer] }.goTo thread .idle

/-- The next step of a thread.  `granted` is the answer of `BUFFER_ALLOC`. -/
def step (thread : Nat) (granted : Bool) : StringPlace → Option StringPoolState
  | .idle => some state
  | .checkLimit text =>
      if 0 < state.pool.maxStrings ∧ state.pool.maxStrings ≤ state.pool.currentStrings then
        some ({ state with refusals := state.refusals ++ [decide (state.HasText text)] }.goTo
          thread .idle)
      else some (state.goTo thread (.lookup text))
  | .lookup text =>
      match state.pool.find text with
      | some pointer =>
          (state.pool.entries pointer).map fun entry =>
            state.share thread pointer text entry.refCount
      | none =>
          if granted then
            some ({ state with pool := state.pool.insert text }.goTo thread
              (.countString (Handle.mk text state.pool.allocated)))
          else some (state.goTo thread .idle)
  | .countString handle =>
      some ({ state with
        pool := { state.pool with currentStrings := state.pool.currentStrings + 1 } }.goTo thread
          (.countMemory handle))
  | .countMemory handle =>
      let size := UInt64.ofNat (entrySize handle.text.length)
      some ({ state with
        pool := { state.pool with totalMemory := state.pool.totalMemory + size } }.goTo thread
          (.countMiss handle))
  | .countMiss handle =>
      some ({ state with
        pool := { state.pool with missCount := state.pool.missCount + 1 }
        returned := state.returned ++ [handle] }.goTo thread .idle)
  | .readRefs handle =>
      (state.pool.entries handle.pointer).map fun entry =>
        if entry.refCount = 0 then state.goTo thread .idle
        else state.goTo thread (.readHash handle)
  | .readHash handle =>
      (state.pool.entries handle.pointer).map fun entry =>
        state.goTo thread (.drop handle entry.hash)
  | .drop handle hash =>
      some ({ state with pool := state.pool.drop handle.pointer hash }.goTo thread .idle)

end StringPoolState

inductive StringPoolEvent where
  /-- A thread without a call calls `string_pool_intern_len`; `string_pool_intern` does so
  with the bytes before the terminator. -/
  | intern (thread : Nat) (text : Bytes)
  /-- A thread without a call releases what an intern has returned. -/
  | release (thread : Nat) (handle : Handle)
  | step (thread : Nat) (granted : Bool)

/-- One step of a thread.  A thread in a call starts no other, and a call with no bytes
returns at once. -/
def stringPoolStep (state : StringPoolState) : StringPoolEvent → Option StringPoolState
  | .intern thread text =>
      if state.places[thread]? = some .idle ∧ text ≠ [] then
        some (state.goTo thread (.checkLimit text))
      else some state
  | .release thread handle =>
      if state.places[thread]? = some .idle ∧ handle ∈ state.returned then
        some ({ state with returned := state.returned.erase handle }.goTo thread
          (.readRefs handle))
      else some state
  | .step thread granted =>
      match state.places[thread]? with
      | some place => state.step thread granted place
      | none => some state

/-- Equal strings share an entry, every reference that is held is to the entry of its string,
and an entry is there just as long as references to it are held, which it counts.  The limit
holds, no intern of a string that is there fails for it; and without a call under way the
counters say what the pool holds. -/
structure StringPoolLaw (state : StringPoolState) : Prop where
  once : state.pool.pointers.Nodup
  shared : ∀ first ∈ state.pool.pointers, ∀ second ∈ state.pool.pointers,
    state.pool.textAt first = state.pool.textAt second → first = second
  held : ∀ handle ∈ state.held, handle.pointer ∈ state.pool.pointers ∧
    state.pool.textAt handle.pointer = some handle.text
  counted : ∀ pointer ∈ state.pool.pointers, ∃ entry, state.pool.entries pointer = some entry ∧
    entry.refCount.toNat = state.held.countP (·.pointer = pointer) ∧ 0 < entry.refCount
  limited : 0 < state.pool.maxStrings →
    state.pool.pointers.length ≤ state.pool.maxStrings.toNat
  refused : ∀ present ∈ state.refusals, present = false
  quiet : (∀ place ∈ state.places, place = .idle) →
    state.pool.currentStrings = UInt64.ofNat state.pool.pointers.length ∧
      state.pool.totalMemory = UInt64.ofNat (fixedMemory state.pool.table.length +
        (state.pool.pointers.map fun pointer =>
          entrySize ((state.pool.textAt pointer).getD []).length).sum)

def StringStepLawful (state : StringPoolState) (event : StringPoolEvent) : Prop :=
  ∃ next, stringPoolStep state event = some next ∧ StringPoolLaw next

/-- A full pool does not hold the string that is to be interned; a new entry finds room; and a
count of references does not wrap around. -/
def KeepsPlaceLaw (state : StringPoolState) (granted : Bool) : StringPlace → Prop
  | .checkLimit text =>
      0 < state.pool.maxStrings → state.pool.maxStrings ≤ state.pool.currentStrings →
        ¬ state.HasText text
  | .lookup text =>
      (state.pool.find text = none → granted = true → 0 < state.pool.maxStrings →
        state.pool.pointers.length < state.pool.maxStrings.toNat) ∧
      ∀ pointer ∈ state.pool.find text, ∀ entry ∈ state.pool.entries pointer,
        entry.refCount + 1 ≠ 0
  | _ => True

instance (state : StringPoolState) (granted : Bool) : DecidablePred (KeepsPlaceLaw state granted)
  | .checkLimit _ => inferInstanceAs (Decidable (_ → _ → ¬ _))
  | .lookup text => inferInstanceAs (Decidable ((_ → _ → _ → _) ∧
      ∀ pointer ∈ state.pool.find text, ∀ entry ∈ state.pool.entries pointer, _))
  | .idle | .countString _ | .countMemory _ | .countMiss _ | .readRefs _ | .readHash _
  | .drop _ _ => inferInstanceAs (Decidable True)

/-- A string that is interned has no `NUL`. -/
def KeepsStringPoolLaw (state : StringPoolState) : StringPoolEvent → Prop
  | .intern _ text => NulFree text
  | .release _ _ => True
  | .step thread granted => ∀ place ∈ state.places[thread]?, KeepsPlaceLaw state granted place

instance (state : StringPoolState) : DecidablePred (KeepsStringPoolLaw state)
  | .intern _ text => inferInstanceAs (Decidable (NulFree text))
  | .release _ _ => inferInstanceAs (Decidable True)
  | .step thread _ => inferInstanceAs (Decidable (∀ place ∈ state.places[thread]?, _))

end Jdbx
