import Jdbx.Library.GuardedRun
import Jdbx.Library.NodeChains
import Mathlib.Algebra.Group.Nat.Defs

/-!
# The lock-free queue

`lockfree_queue.c`: the queue of Michael and Scott, with a pool of nodes that are used
again.  Each atomic operation is one step, and a plain read or write goes with the atomic
operation before it.  Nodes are numbers.

Beside what the code keeps, the state lists what has been put in and taken out, and counts
how often each node has left the queue or the pool; a thread remembers that count with each
node that it loads.
-/

namespace Jdbx

open Library

/-- A `work_item_t`, marked with the enqueue that brought it. -/
structure QueueItem (ω : Type) where
  producer : Nat
  call : Nat
  work : ω
  deriving DecidableEq

/-- A node that a thread has loaded, and the moves of the node by then. -/
structure LoadedNode where
  node : Nat
  moves : Nat

/-- `lockfree_queue_t` with its nodes.  A node has no item once `free_node` has cleared it. -/
structure LockfreeQueue (ω : Type) where
  next : Nat → Option Nat
  work : Nat → Option (QueueItem ω)
  head : Nat
  tail : Nat
  freeNodes : Option Nat
  size : UInt64
  maxSize : UInt64
  allocated : Nat

/-- Where a thread stands in its call: the operation that it takes next. -/
inductive QueuePlace (ω : Type) where
  | idle
  | checkSize (item : QueueItem ω)
  | loadFree (item : QueueItem ω)
  | loadFreeNext (item : QueueItem ω) (free : LoadedNode)
  | popFree (item : QueueItem ω) (free : LoadedNode) (next : Option Nat)
  | allocate (item : QueueItem ω)
  | clearNext (item : QueueItem ω) (node : Nat)
  | loadTail (item : QueueItem ω) (node : Nat)
  | loadTailNext (item : QueueItem ω) (node : Nat) (tail : LoadedNode)
  | checkTail (item : QueueItem ω) (node : Nat) (tail : LoadedNode) (next : Option Nat)
  | link (item : QueueItem ω) (node : Nat) (tail : LoadedNode)
  | helpTail (item : QueueItem ω) (node : Nat) (tail : LoadedNode) (next : Nat)
  | advanceTail (item : QueueItem ω) (node : Nat) (tail : LoadedNode)
  | countIn (item : QueueItem ω)
  | loadHead
  | loadHeadTail (head : LoadedNode)
  | loadHeadNext (head tail : LoadedNode)
  | checkHead (head tail : LoadedNode) (next : Option Nat)
  | helpHeadTail (tail : LoadedNode) (next : Nat)
  | advanceHead (head : LoadedNode) (next : Nat) (item : Option (QueueItem ω))
  | loadPool (node : Nat) (item : Option (QueueItem ω))
  | storePool (node : Nat) (item : Option (QueueItem ω)) (pool : Option Nat)
  | push (node : Nat) (item : Option (QueueItem ω)) (pool : Option Nat)
  | countOut (item : Option (QueueItem ω))

namespace QueuePlace

variable {ω : Type}

def isIdle : QueuePlace ω → Bool
  | idle => true
  | _ => false

def owned : QueuePlace ω → Option Nat
  | clearNext _ node | loadTail _ node | loadTailNext _ node _ | checkTail _ node _ _
  | link _ node _ | helpTail _ node _ _ | loadPool node _ | storePool node _ _
  | push node _ _ => some node
  | _ => none

def hand : QueuePlace ω → Option (Option (QueueItem ω))
  | loadPool _ item | storePool _ item _ | push _ item _ | countOut item => some item
  | _ => none

end QueuePlace

/-- The queue, its threads, and the history of the run. -/
structure QueueState (ω : Type) where
  queue : LockfreeQueue ω
  places : List (QueuePlace ω)
  moves : Nat → Nat
  /-- The enqueues that have been called. -/
  calls : Nat
  /-- The items in the order in which they were linked. -/
  linked : List (QueueItem ω)
  /-- What was read at the head, in the order in which the head was advanced. -/
  taken : List (Option (QueueItem ω))
  /-- The items of the enqueues that returned 1. -/
  accepted : List (QueueItem ω)
  /-- The items in the queue when an enqueue returned 0. -/
  rejections : List Nat
  /-- What the dequeues returned that returned 1. -/
  dequeued : List (Option (QueueItem ω))
  /-- The additions to the size, and the subtractions from it. -/
  added : Nat
  removed : Nat

section Model

variable {ω : Type}

/-- `lockfree_queue_create`, with so many nodes in its pool. -/
def lockfreeQueueCreate (maxSize : UInt64) (pool : Nat) : LockfreeQueue ω where
  next := fun node => if 2 ≤ node ∧ node ≤ pool then some (node - 1) else none
  work := fun _ => none
  head := 0
  tail := 0
  freeNodes := if pool = 0 then none else some pool
  size := 0
  maxSize := maxSize
  allocated := pool + 1

/-- A new queue and so many threads. -/
def QueueState.start (maxSize : UInt64) (pool threads : Nat) : QueueState ω where
  queue := lockfreeQueueCreate maxSize pool
  places := List.replicate threads .idle
  moves := fun _ => 0
  calls := 0
  linked := []
  taken := []
  accepted := []
  rejections := []
  dequeued := []
  added := 0
  removed := 0

namespace QueueState

variable (state : QueueState ω)

def goTo (thread : Nat) (place : QueuePlace ω) : QueueState ω :=
  { state with places := state.places.set thread place }

def load (node : Nat) : LoadedNode :=
  ⟨node, state.moves node⟩

def Fresh (loaded : LoadedNode) : Prop :=
  loaded.moves = state.moves loaded.node

instance (loaded : LoadedNode) : Decidable (state.Fresh loaded) :=
  inferInstanceAs (Decidable (_ = _))

def items : Nat :=
  state.linked.length - state.taken.length

def setNext (node : Nat) (next : Option Nat) : QueueState ω :=
  { state with queue := { state.queue with next := Function.update state.queue.next node next } }

def setWork (node : Nat) (work : Option (QueueItem ω)) : QueueState ω :=
  { state with queue := { state.queue with work := Function.update state.queue.work node work } }

def setTail (tail : Nat) : QueueState ω :=
  { state with queue := { state.queue with tail := tail } }

/-- `enqueue` returns 0. -/
def reject (thread : Nat) : QueueState ω :=
  { state with rejections := state.rejections ++ [state.items] }.goTo thread .idle

def pop (node : Nat) (next : Option Nat) : QueueState ω :=
  { state with
    queue := { state.queue with freeNodes := next }
    moves := Function.update state.moves node (state.moves node + 1) }

def allocateNode : QueueState ω :=
  { state with queue := { state.queue with allocated := state.queue.allocated + 1 } }

def linkNode (last node : Nat) (item : QueueItem ω) : QueueState ω :=
  { state.setNext last (some node) with linked := state.linked ++ [item] }

/-- The addition to the size, and `enqueue` returns 1. -/
def accept (thread : Nat) (item : QueueItem ω) : QueueState ω :=
  { state with
    queue := { state.queue with size := state.queue.size + 1 }
    accepted := state.accepted ++ [item]
    added := state.added + 1 }.goTo thread .idle

def takeHead (node next : Nat) (item : Option (QueueItem ω)) : QueueState ω :=
  { state with
    queue := { state.queue with head := next }
    moves := Function.update state.moves node (state.moves node + 1)
    taken := state.taken ++ [item] }

def pushNode (node : Nat) : QueueState ω :=
  { state with queue := { state.queue with freeNodes := some node } }

/-- The subtraction from the size, and `dequeue` returns 1. -/
def deliver (thread : Nat) (item : Option (QueueItem ω)) : QueueState ω :=
  { state with
    queue := { state.queue with size := state.queue.size - 1 }
    dequeued := state.dequeued ++ [item]
    removed := state.removed + 1 }.goTo thread .idle

/-- The next operation of a thread.  `granted` is the answer of `BUFFER_ALLOC`, and a weak
compare-and-swap may fail on equal values where `swaps` is false. -/
def step (thread : Nat) (granted swaps : Bool) : QueuePlace ω → QueueState ω
  | .idle => state
  | .checkSize item =>
      if 0 < state.queue.maxSize ∧ state.queue.maxSize ≤ state.queue.size then
        state.reject thread
      else state.goTo thread (.loadFree item)
  | .loadFree item =>
      match state.queue.freeNodes with
      | some node => state.goTo thread (.loadFreeNext item (state.load node))
      | none => state.goTo thread (.allocate item)
  | .loadFreeNext item free => state.goTo thread (.popFree item free (state.queue.next free.node))
  | .popFree item free next =>
      if swaps ∧ state.queue.freeNodes = some free.node then
        (state.pop free.node next).goTo thread (.clearNext item free.node)
      else state.goTo thread (.loadFree item)
  | .allocate item =>
      if granted then
        state.allocateNode.goTo thread (.clearNext item state.queue.allocated)
      else state.reject thread
  | .clearNext item node =>
      ((state.setNext node none).setWork node (some item)).goTo thread (.loadTail item node)
  | .loadTail item node => state.goTo thread (.loadTailNext item node (state.load state.queue.tail))
  | .loadTailNext item node tail =>
      state.goTo thread (.checkTail item node tail (state.queue.next tail.node))
  | .checkTail item node tail next =>
      if state.queue.tail = tail.node then
        match next with
        | none => state.goTo thread (.link item node tail)
        | some target => state.goTo thread (.helpTail item node tail target)
      else state.goTo thread (.loadTail item node)
  | .link item node tail =>
      if swaps ∧ state.queue.next tail.node = none then
        (state.linkNode tail.node node item).goTo thread (.advanceTail item node tail)
      else state.goTo thread (.loadTail item node)
  | .helpTail item node tail target =>
      if swaps ∧ state.queue.tail = tail.node then
        (state.setTail target).goTo thread (.loadTail item node)
      else state.goTo thread (.loadTail item node)
  | .advanceTail item node tail =>
      if swaps ∧ state.queue.tail = tail.node then
        (state.setTail node).goTo thread (.countIn item)
      else state.goTo thread (.countIn item)
  | .countIn item => state.accept thread item
  | .loadHead => state.goTo thread (.loadHeadTail (state.load state.queue.head))
  | .loadHeadTail head => state.goTo thread (.loadHeadNext head (state.load state.queue.tail))
  | .loadHeadNext head tail => state.goTo thread (.checkHead head tail (state.queue.next head.node))
  | .checkHead head tail next =>
      if state.queue.head = head.node then
        match next with
        | none =>
            if head.node = tail.node then state.goTo thread .idle
            else state.goTo thread .loadHead
        | some target =>
            if head.node = tail.node then state.goTo thread (.helpHeadTail tail target)
            else state.goTo thread (.advanceHead head target (state.queue.work target))
      else state.goTo thread .loadHead
  | .helpHeadTail tail target =>
      if swaps ∧ state.queue.tail = tail.node then
        (state.setTail target).goTo thread .loadHead
      else state.goTo thread .loadHead
  | .advanceHead head target item =>
      if swaps ∧ state.queue.head = head.node then
        (state.takeHead head.node target item).goTo thread (.loadPool head.node item)
      else state.goTo thread .loadHead
  | .loadPool node item =>
      (state.setWork node none).goTo thread (.storePool node item state.queue.freeNodes)
  | .storePool node item pool => (state.setNext node pool).goTo thread (.push node item pool)
  | .push node item pool =>
      if swaps ∧ state.queue.freeNodes = pool then
        (state.pushNode node).goTo thread (.countOut item)
      else state.goTo thread (.storePool node item state.queue.freeNodes)
  | .countOut item => state.deliver thread item

end QueueState

inductive QueueEvent (ω : Type) where
  /-- A thread without a call calls `lockfree_queue_enqueue`. -/
  | enqueue (thread : Nat) (work : ω)
  /-- A thread without a call calls `lockfree_queue_dequeue`. -/
  | dequeue (thread : Nat)
  /-- A thread takes the next operation of its call. -/
  | step (thread : Nat) (granted swaps : Bool)

/-- One step of a thread.  A thread in a call starts no other. -/
def queueStep (state : QueueState ω) : QueueEvent ω → Option (QueueState ω)
  | .enqueue thread work =>
      match state.places[thread]? with
      | some .idle =>
          let item := { producer := thread, call := state.calls, work := work }
          some ({ state with calls := state.calls + 1 }.goTo thread (.checkSize item))
      | _ => some state
  | .dequeue thread =>
      match state.places[thread]? with
      | some .idle => some (state.goTo thread .loadHead)
      | _ => some state
  | .step thread granted swaps =>
      match state.places[thread]? with
      | some place => some (state.step thread granted swaps place)
      | none => some state

def QueueItem.Before (first second : QueueItem ω) : Prop :=
  first.producer = second.producer → first.call < second.call

/-- No node is in the queue and in the pool.  An item is dequeued once at most, and if no
call is under way and the queue is empty, every accepted item has been dequeued.  Items of
one producer leave the queue in the order of their calls.  An enqueue that was rejected
found as many items as the queue may hold. -/
structure QueueLaw (state : QueueState ω) : Prop where
  apart : ∃ queued pool, Path state.queue.next (some state.queue.head) queued ∧
    Path state.queue.next state.queue.freeNodes pool ∧ queued.length = state.items + 1 ∧
      ∀ node ∈ queued, node ∉ pool
  genuine : ∀ output ∈ state.dequeued, ∃ item ∈ state.linked, output = some item
  once : state.dequeued.Nodup
  drained : (∀ place ∈ state.places, place.isIdle) → state.queue.next state.queue.head = none →
    ∀ item ∈ state.accepted, some item ∈ state.dequeued
  inOrder : state.taken.Pairwise fun first second =>
    ∀ earlier ∈ first, ∀ later ∈ second, earlier.Before later
  full : ∀ items ∈ state.rejections,
    0 < state.queue.maxSize ∧ state.queue.maxSize.toNat ≤ items

def QueueStepLawful (state : QueueState ω) (event : QueueEvent ω) : Prop :=
  ∃ next, queueStep state event = some next ∧ QueueLaw next

/-- A compare-and-swap that succeeds does so on a node that has not moved since the thread
loaded it; a node is granted; and a size at its bound is not above the number of items:
every dequeue that has taken an item has subtracted it, and no more are subtracted than
added. -/
def SwapsFresh (state : QueueState ω) (granted swaps : Bool) : QueuePlace ω → Prop
  | .checkSize _ =>
      0 < state.queue.maxSize → state.queue.maxSize ≤ state.queue.size →
        state.removed = state.taken.length ∧ state.removed ≤ state.added
  | .allocate _ => granted = true
  | .popFree _ free _ => swaps = true → state.queue.freeNodes = some free.node → state.Fresh free
  | .link _ _ tail => swaps = true → state.queue.next tail.node = none → state.Fresh tail
  | .helpTail _ _ tail _ | .advanceTail _ _ tail | .helpHeadTail tail _ =>
      swaps = true → state.queue.tail = tail.node → state.Fresh tail
  | .advanceHead head _ _ => swaps = true → state.queue.head = head.node → state.Fresh head
  | _ => True

instance (state : QueueState ω) (granted swaps : Bool) :
    DecidablePred (SwapsFresh state granted swaps)
  | .checkSize _ => inferInstanceAs (Decidable (_ → _ → _ ∧ _))
  | .allocate _ => inferInstanceAs (Decidable (_ = _))
  | .popFree _ _ _ | .link _ _ _ | .helpTail _ _ _ _ | .advanceTail _ _ _ | .helpHeadTail _ _
  | .advanceHead _ _ _ => inferInstanceAs (Decidable (_ → _ → _))
  | .idle | .loadFree _ | .loadFreeNext _ _ | .clearNext _ _ | .loadTail _ _
  | .loadTailNext _ _ _ | .checkTail _ _ _ _ | .countIn _ | .loadHead | .loadHeadTail _
  | .loadHeadNext _ _ | .checkHead _ _ _ | .loadPool _ _ | .storePool _ _ _ | .push _ _ _
  | .countOut _ => inferInstanceAs (Decidable True)

def KeepsQueueLaw (state : QueueState ω) : QueueEvent ω → Prop
  | .step thread granted swaps =>
      ∀ place ∈ state.places[thread]?, SwapsFresh state granted swaps place
  | .enqueue _ _ | .dequeue _ => True

instance (state : QueueState ω) : DecidablePred (KeepsQueueLaw state)
  | .step thread _ _ => inferInstanceAs (Decidable (∀ place ∈ state.places[thread]?, _))
  | .enqueue _ _ | .dequeue _ => inferInstanceAs (Decidable True)

end Model

end Jdbx
