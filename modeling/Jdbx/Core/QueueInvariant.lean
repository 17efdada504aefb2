import Jdbx.Core.LockfreeQueue
import Jdbx.Library.ThreadList

/-!
# What the threads of the lock-free queue rely on

The nodes of the queue and of the pool, the history of the items, and what each place in a
call knows.  A thread knows something of a node that it has loaded only as long as the node
has not moved since.
-/

namespace Jdbx

open Library

variable {ω : Type} {state next : QueueState ω} {chain free chainAfter freeAfter : List Nat}
  {thread : Nat} {old new : QueuePlace ω} {item : QueueItem ω} {node target : Nat}

/-- The nodes from the head and those of the pool. -/
structure QueueNodes (queue : LockfreeQueue ω) (chain free : List Nat) : Prop where
  queued : Path queue.next (some queue.head) chain
  pooled : Path queue.next queue.freeNodes free
  nodup : (chain ++ free).Nodup
  tail : queue.tail ∈ chain
  allocated : ∀ node ∈ chain ++ free, node < queue.allocated

/-- What has been put in and taken out. -/
structure QueueHistory (state : QueueState ω) (chain : List Nat) : Prop where
  contents : state.linked.map some = state.taken ++ chain.tail.map state.queue.work
  inOrder : state.linked.Pairwise QueueItem.Before
  called : ∀ item ∈ state.linked, item.call < state.calls
  accepted : state.accepted.Nodup
  linked : ∀ item ∈ state.accepted, item ∈ state.linked
  counted : state.accepted.length = state.added
  size : state.queue.size + UInt64.ofNat state.removed = UInt64.ofNat state.added
  dequeued : state.dequeued.Nodup
  delivered : ∀ output ∈ state.dequeued, output ∈ state.taken
  full : ∀ items ∈ state.rejections,
    0 < state.queue.maxSize ∧ state.queue.maxSize.toNat ≤ items

namespace QueueState

def At (state : QueueState ω) (thread : Nat) (place : QueuePlace ω) : Prop :=
  state.places[thread]? = some place

/-- `known` holds as long as the node has not moved since it was loaded. -/
def Held (state : QueueState ω) (loaded : LoadedNode) (known : Prop) : Prop :=
  loaded.moves ≤ state.moves loaded.node ∧ (state.Fresh loaded → known)

def Pending (state : QueueState ω) (thread : Nat) (item : QueueItem ω) : Prop :=
  item.producer = thread ∧ item.call < state.calls ∧
    ∀ earlier ∈ state.linked, earlier.producer = thread → earlier.call < item.call

def Linked (state : QueueState ω) (thread : Nat) (item : QueueItem ω) : Prop :=
  item.producer = thread ∧ item ∈ state.linked ∧ item ∉ state.accepted

def Ready (state : QueueState ω) (item : QueueItem ω) (node : Nat) : Prop :=
  state.queue.next node = none ∧ state.queue.work node = some item

def Holds (state : QueueState ω) (output : Option (QueueItem ω)) : Prop :=
  output ∈ state.taken ∧ output ∉ state.dequeued

def PlaceLaw (state : QueueState ω) (chain free : List Nat) (thread : Nat) :
    QueuePlace ω → Prop
  | .idle | .loadHead => True
  | .checkSize item | .loadFree item | .allocate item | .clearNext item _ =>
      state.Pending thread item
  | .loadFreeNext item pooled => state.Pending thread item ∧ state.Held pooled (pooled.node ∈ free)
  | .popFree item pooled next =>
      state.Pending thread item ∧
        state.Held pooled (pooled.node ∈ free ∧ state.queue.next pooled.node = next)
  | .loadTail item node => state.Pending thread item ∧ state.Ready item node
  | .loadTailNext item node tail | .link item node tail =>
      state.Pending thread item ∧ state.Ready item node ∧ state.Held tail (tail.node ∈ chain)
  | .checkTail item node tail next =>
      state.Pending thread item ∧ state.Ready item node ∧
        state.Held tail (tail.node ∈ chain ∧
          ∀ target ∈ next, state.queue.next tail.node = some target)
  | .helpTail item node tail target =>
      state.Pending thread item ∧ state.Ready item node ∧
        state.Held tail (tail.node ∈ chain ∧ state.queue.next tail.node = some target)
  | .advanceTail item node tail =>
      state.Linked thread item ∧
        state.Held tail (tail.node ∈ chain ∧ state.queue.next tail.node = some node)
  | .countIn item => state.Linked thread item
  | .loadHeadTail head => state.Held head (state.queue.head = head.node)
  | .loadHeadNext head tail =>
      state.Held head (state.queue.head = head.node ∧
        (head.node ≠ tail.node → state.queue.tail ≠ head.node)) ∧
          state.Held tail (tail.node ∈ chain)
  | .checkHead head tail next =>
      state.Held head (state.queue.head = head.node ∧
        (head.node ≠ tail.node → state.queue.tail ≠ head.node) ∧
          ∀ target ∈ next, state.queue.next head.node = some target) ∧
        state.Held tail (tail.node ∈ chain ∧
          (head.node = tail.node → ∀ target ∈ next, state.queue.next tail.node = some target))
  | .helpHeadTail tail target =>
      state.Held tail (tail.node ∈ chain ∧ state.queue.next tail.node = some target)
  | .advanceHead head target output =>
      state.Held head (state.queue.head = head.node ∧ state.queue.tail ≠ head.node ∧
        state.queue.next head.node = some target ∧ state.queue.work target = output)
  | .loadPool _ output | .storePool _ output _ | .countOut output => state.Holds output
  | .push node output pool => state.Holds output ∧ state.queue.next node = pool

end QueueState

/-- The place is one of `lockfree_queue_enqueue`. -/
def QueuePlace.enqueues : QueuePlace ω → Bool
  | checkSize _ | loadFree _ | loadFreeNext _ _ | popFree _ _ _ | allocate _ | clearNext _ _
  | loadTail _ _ | loadTailNext _ _ _ | checkTail _ _ _ _ | link _ _ _ | helpTail _ _ _ _
  | advanceTail _ _ _ | countIn _ => true
  | _ => false

/-- What is known of all threads. -/
structure QueueThreads (state : QueueState ω) (chain free : List Nat) : Prop where
  owned : ∀ thread place node, state.At thread place →
    place.owned = some node → node ∉ chain ∧ node ∉ free ∧ node < state.queue.allocated
  apart : ∀ first second place other node, state.At first place →
    state.At second other → place.owned = some node → other.owned = some node →
      first = second
  hands : ∀ first second place other output, state.At first place →
    state.At second other → place.hand = some output → other.hand = some output →
      first = second
  taken : ∀ output ∈ state.taken, output ∈ state.dequeued ∨
    ∃ thread place, state.At thread place ∧
      place.hand = some output
  laws : ∀ thread place, state.At thread place →
    state.PlaceLaw chain free thread place

structure QueueKept (state : QueueState ω) (chain free : List Nat) : Prop where
  nodes : QueueNodes state.queue chain free
  history : QueueHistory state chain
  threads : QueueThreads state chain free

/-- What a step of one thread leaves to all others. -/
structure QueueStays (thread : Nat) (state next : QueueState ω)
    (chain free chainAfter freeAfter : List Nat) : Prop where
  moves : ∀ node, state.moves node ≤ next.moves node
  chained : ∀ node ∈ chain, next.moves node = state.moves node → node ∈ chainAfter
  links : ∀ node ∈ chain, ∀ target, state.queue.next node = some target →
    next.queue.next node = some target
  works : ∀ node ∈ chain, next.queue.work node = state.queue.work node
  head : next.moves state.queue.head = state.moves state.queue.head →
    next.queue.head = state.queue.head ∧
      (state.queue.tail ≠ state.queue.head → next.queue.tail ≠ state.queue.head)
  pooled : ∀ node ∈ free, next.moves node = state.moves node →
    node ∈ freeAfter ∧ next.queue.next node = state.queue.next node
  owned : ∀ other place node, other ≠ thread → state.At other place →
    place.owned = some node → next.queue.next node = state.queue.next node ∧
      next.queue.work node = state.queue.work node ∧ node ∉ chainAfter ∧ node ∉ freeAfter
  allocated : state.queue.allocated ≤ next.queue.allocated
  calls : state.calls ≤ next.calls
  linked : ∀ item ∈ state.linked, item ∈ next.linked
  newLinked : ∀ item ∈ next.linked, item ∈ state.linked ∨ item.producer = thread
  newAccepted : ∀ item ∈ next.accepted, item ∈ state.accepted ∨ item.producer = thread
  taken : ∀ output ∈ state.taken, output ∈ next.taken
  dequeued : ∀ output ∈ state.dequeued, output ∈ next.dequeued
  newDequeued : ∀ other place output, other ≠ thread → state.At other place →
    place.hand = some output → output ∈ next.dequeued → output ∈ state.dequeued

theorem QueueState.Held.stays {loaded : LoadedNode} {known knownAfter : Prop}
    (held : state.Held loaded known) (moves : ∀ node, state.moves node ≤ next.moves node)
    (keeps : next.moves loaded.node = state.moves loaded.node → known → knownAfter) :
    next.Held loaded knownAfter := by
  obtain ⟨older, knows⟩ := held
  refine ⟨Nat.le_trans older (moves loaded.node), fun fresh => ?_⟩
  have unmoved : next.moves loaded.node = state.moves loaded.node :=
    Nat.le_antisymm (fresh ▸ older) (moves loaded.node)
  exact keeps unmoved (knows (fresh.trans unmoved))

namespace QueueStays

variable (stays : QueueStays thread state next chain free chainAfter freeAfter) {other : Nat}
  {place : QueuePlace ω}

include stays

theorem pending (different : other ≠ thread) (pending : state.Pending other item) :
    next.Pending other item := by
  obtain ⟨producer, called, last⟩ := pending
  refine ⟨producer, Nat.lt_of_lt_of_le called stays.calls, fun earlier member same => ?_⟩
  rcases stays.newLinked earlier member with before | byThread
  · exact last earlier before same
  · exact absurd (same.symm.trans byThread) different

theorem linkedItem (different : other ≠ thread) (linked : state.Linked other item) :
    next.Linked other item := by
  obtain ⟨producer, member, unaccepted⟩ := linked
  refine ⟨producer, stays.linked item member, fun accepted => ?_⟩
  rcases stays.newAccepted item accepted with before | byThread
  · exact unaccepted before
  · exact different (producer.symm.trans byThread)

theorem ready (different : other ≠ thread) (there : state.At other place)
    (own : place.owned = some node) (ready : state.Ready item node) : next.Ready item node := by
  have same := stays.owned other place node different there own
  exact ⟨same.1.trans ready.1, same.2.1.trans ready.2⟩

theorem inChain {loaded : LoadedNode} (held : state.Held loaded (loaded.node ∈ chain)) :
    next.Held loaded (loaded.node ∈ chainAfter) :=
  held.stays stays.moves fun unmoved member => stays.chained _ member unmoved

theorem pointing {loaded : LoadedNode}
    (held : state.Held loaded (loaded.node ∈ chain ∧
      state.queue.next loaded.node = some target)) :
    next.Held loaded (loaded.node ∈ chainAfter ∧ next.queue.next loaded.node = some target) := by
  apply held.stays stays.moves
  rintro unmoved ⟨member, points⟩
  exact ⟨stays.chained _ member unmoved, stays.links _ member target points⟩

theorem holds {output : Option (QueueItem ω)} (different : other ≠ thread)
    (there : state.At other place) (hand : place.hand = some output) (holds : state.Holds output) :
    next.Holds output :=
  ⟨stays.taken output holds.1,
    fun member => holds.2 (stays.newDequeued other place output different there hand member)⟩

/-- A thread knows at its place what it knew before another one took a step. -/
theorem placeLaw (nodes : QueueNodes state.queue chain free) (different : other ≠ thread)
    (there : state.At other place) (law : state.PlaceLaw chain free other place) :
    next.PlaceLaw chainAfter freeAfter other place := by
  have headIn : state.queue.head ∈ chain := by
    obtain ⟨rest, rfl, -⟩ := nodes.queued.eq_cons
    exact List.mem_cons_self
  cases place with
  | idle => trivial
  | loadHead => trivial
  | checkSize item => exact stays.pending different law
  | loadFree item => exact stays.pending different law
  | allocate item => exact stays.pending different law
  | clearNext item node => exact stays.pending different law
  | loadFreeNext item pooled =>
      refine ⟨stays.pending different law.1, law.2.stays stays.moves ?_⟩
      exact fun unmoved member => (stays.pooled _ member unmoved).1
  | popFree item pooled next =>
      refine ⟨stays.pending different law.1, law.2.stays stays.moves ?_⟩
      rintro unmoved ⟨member, points⟩
      have same := stays.pooled _ member unmoved
      exact ⟨same.1, same.2.trans points⟩
  | loadTail item node =>
      exact ⟨stays.pending different law.1, stays.ready different there rfl law.2⟩
  | loadTailNext item node tail =>
      exact ⟨stays.pending different law.1, stays.ready different there rfl law.2.1,
        stays.inChain law.2.2⟩
  | link item node tail =>
      exact ⟨stays.pending different law.1, stays.ready different there rfl law.2.1,
        stays.inChain law.2.2⟩
  | checkTail item node tail next =>
      refine ⟨stays.pending different law.1, stays.ready different there rfl law.2.1,
        law.2.2.stays stays.moves ?_⟩
      rintro unmoved ⟨member, points⟩
      exact ⟨stays.chained _ member unmoved,
        fun target is => stays.links _ member target (points target is)⟩
  | helpTail item node tail target =>
      exact ⟨stays.pending different law.1, stays.ready different there rfl law.2.1,
        stays.pointing law.2.2⟩
  | advanceTail item node tail => exact ⟨stays.linkedItem different law.1, stays.pointing law.2⟩
  | countIn item => exact stays.linkedItem different law
  | loadHeadTail head =>
      apply law.stays stays.moves
      intro unmoved isHead
      rw [← isHead] at unmoved ⊢
      exact (stays.head unmoved).1
  | loadHeadNext head tail =>
      refine ⟨law.1.stays stays.moves ?_, stays.inChain law.2⟩
      rintro unmoved ⟨isHead, behind⟩
      rw [← isHead] at unmoved behind ⊢
      exact ⟨(stays.head unmoved).1, fun apart => (stays.head unmoved).2 (behind apart)⟩
  | checkHead head tail next =>
      refine ⟨law.1.stays stays.moves ?_, law.2.stays stays.moves ?_⟩
      · rintro unmoved ⟨isHead, behind, points⟩
        rw [← isHead] at unmoved behind points ⊢
        exact ⟨(stays.head unmoved).1, fun apart => (stays.head unmoved).2 (behind apart),
          fun target is => stays.links _ headIn target (points target is)⟩
      · rintro unmoved ⟨member, points⟩
        exact ⟨stays.chained _ member unmoved,
          fun same target is => stays.links _ member target (points same target is)⟩
  | helpHeadTail tail target => exact stays.pointing law
  | advanceHead head target output =>
      apply law.stays stays.moves
      rintro unmoved ⟨isHead, behind, points, read⟩
      rw [← isHead] at unmoved behind points ⊢
      refine ⟨(stays.head unmoved).1, (stays.head unmoved).2 behind,
        stays.links _ headIn target points, ?_⟩
      exact (stays.works _ (nodes.queued.target_mem headIn points)).trans read
  | loadPool node output => exact stays.holds different there rfl law
  | storePool node output pool => exact stays.holds different there rfl law
  | countOut output => exact stays.holds different there rfl law
  | push node output pool =>
      refine ⟨stays.holds different there rfl law.1, ?_⟩
      exact (stays.owned other _ node different there rfl).1.trans law.2

end QueueStays

end Jdbx
