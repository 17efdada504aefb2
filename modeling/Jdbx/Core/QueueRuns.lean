import Mathlib.Data.List.Perm.Subperm
import Jdbx.Core.QueueSteps

/-!
# Interleavings of the lock-free queue

Any threads in any order.  A swap on a node that has moved since it was loaded breaks the
queue; without one no item is lost, doubled or overtaken.
-/

namespace Jdbx

open Library

variable {ω : Type} {state next : QueueState ω} {chain free : List Nat} {thread : Nat}
  {old new : QueuePlace ω} {item : QueueItem ω}

namespace QueueKept

section Calls

variable (kept : QueueKept state chain free)

include kept

theorem size_le_items (subtracted : state.removed = state.taken.length)
    (notMore : state.removed ≤ state.added) : state.queue.size.toNat ≤ state.items := by
  have accepted : state.accepted.length ≤ state.linked.length :=
    (List.subperm_of_subset kept.history.accepted kept.history.linked).length_le
  have split : UInt64.ofNat state.added =
      UInt64.ofNat (state.added - state.removed) + UInt64.ofNat state.removed := by
    rw [← UInt64.ofNat_add, Nat.sub_add_cancel notMore]
  have size : state.queue.size = UInt64.ofNat (state.added - state.removed) := by
    apply (UInt64.add_left_inj (UInt64.ofNat state.removed)).mp
    exact kept.history.size.trans split
  rw [size, UInt64.toNat_ofNat']
  apply Nat.le_trans (Nat.mod_le _ _)
  rw [QueueState.items, ← subtracted, ← kept.history.counted]
  exact Nat.sub_le_sub_right accepted _

theorem reject (there : state.At thread old) (hand : old.hand = none)
    (full : 0 < state.queue.maxSize ∧ state.queue.maxSize.toNat ≤ state.items) :
    QueueKept (state.reject thread) chain free := by
  refine kept.change there rfl { kept.nodes with } { kept.history with full := ?_ }
    { kept.threads.stays_refl thread with } trivial (fun _ own => nomatch own)
    (fun _ hand => nomatch hand)
    (kept.threads.taken_same there fun _ holds => nomatch hand.symm.trans holds)
  intro items inside
  rcases List.mem_append.mp inside with before | new
  · exact kept.history.full items before
  · exact List.mem_singleton.mp new ▸ full

theorem enqueue (there : state.At thread .idle) (work : ω) :
    QueueKept ({ state with calls := state.calls + 1 }.goTo thread
      (.checkSize ⟨thread, state.calls, work⟩)) chain free := by
  refine kept.change there rfl { kept.nodes with } { kept.history with called := ?_ }
    { kept.threads.stays_refl thread with calls := Nat.le_succ _ } ⟨rfl, Nat.lt_succ_self _, ?_⟩
    (fun _ own => nomatch own) (fun _ hand => nomatch hand)
    (kept.threads.taken_same there fun _ hand => nomatch hand)
  · exact fun item inside => Nat.lt_succ_of_lt (kept.history.called item inside)
  · exact fun earlier inside _ => kept.history.called earlier inside

/-- One operation of `lockfree_queue_enqueue`. -/
theorem enqueueStep {granted swaps : Bool} (there : state.At thread old)
    (keeps : SwapsFresh state granted swaps old) (enqueues : old.enqueues = true) :
    ∃ chainAfter freeAfter,
      QueueKept (state.step thread granted swaps old) chainAfter freeAfter := by
  have law := kept.threads.laws thread old there
  cases old with
  | checkSize item =>
    rw [QueueState.step]
    split_ifs with full
    · obtain ⟨subtracted, notMore⟩ := keeps full.1 full.2
      have bound := UInt64.le_iff_toNat_le.mp full.2
      refine ⟨chain, free, kept.reject there rfl ⟨full.1, ?_⟩⟩
      exact Nat.le_trans bound (kept.size_le_items subtracted notMore)
    · exact ⟨chain, free, kept.goTo there law rfl rfl⟩
  | loadFree item =>
    rw [QueueState.step]
    cases first : state.queue.freeNodes with
    | none => exact ⟨chain, free, kept.goTo there law rfl rfl⟩
    | some node =>
      have path := kept.nodes.pooled
      rw [first] at path
      obtain ⟨rest, rfl, -⟩ := path.eq_cons
      exact ⟨chain, _, kept.goTo there
        ⟨law, Nat.le_refl _, fun _ => List.mem_cons_self⟩ rfl rfl⟩
  | loadFreeNext item pooled =>
    obtain ⟨pending, older, knows⟩ := law
    exact ⟨chain, free, kept.goTo there
      ⟨pending, older, fun fresh => ⟨knows fresh, rfl⟩⟩ rfl rfl⟩
  | popFree item pooled after =>
    rw [QueueState.step]
    split_ifs with success
    · exact ⟨chain, kept.pop there (keeps success.1 success.2) success.2⟩
    · exact ⟨chain, free, kept.goTo there law.1 rfl rfl⟩
  | allocate item =>
    have isGranted : granted = true := keeps
    rw [QueueState.step, if_pos isGranted]
    exact ⟨chain, free, kept.allocateNode there⟩
  | clearNext item node => exact ⟨chain, free, kept.clearNext there⟩
  | loadTail item node =>
    exact ⟨chain, free, kept.goTo there
      ⟨law.1, law.2, Nat.le_refl _, fun _ => kept.nodes.tail⟩ rfl rfl⟩
  | loadTailNext item node tail =>
    obtain ⟨pending, ready, older, knows⟩ := law
    exact ⟨chain, free, kept.goTo there
      ⟨pending, ready, older, fun fresh => ⟨knows fresh, fun _ points => points⟩⟩ rfl rfl⟩
  | checkTail item node tail after =>
    obtain ⟨pending, ready, older, knows⟩ := law
    cases after with
    | none =>
      rw [QueueState.step]
      split_ifs with same
      · exact ⟨chain, free, kept.goTo there
          ⟨pending, ready, older, fun fresh => (knows fresh).1⟩ rfl rfl⟩
      · exact ⟨chain, free, kept.goTo there ⟨pending, ready⟩ rfl rfl⟩
    | some target =>
      rw [QueueState.step]
      split_ifs with same
      · exact ⟨chain, free, kept.goTo there
          ⟨pending, ready, older, fun fresh => ⟨(knows fresh).1, (knows fresh).2 target rfl⟩⟩
          rfl rfl⟩
      · exact ⟨chain, free, kept.goTo there ⟨pending, ready⟩ rfl rfl⟩
  | link item node tail =>
    rw [QueueState.step]
    split_ifs with success
    · exact ⟨_, free, kept.link there (keeps success.1 success.2) success.2⟩
    · exact ⟨chain, free, kept.goTo there ⟨law.1, law.2.1⟩ rfl rfl⟩
  | helpTail item node tail target =>
    rw [QueueState.step]
    obtain ⟨pending, ready, older, knows⟩ := law
    split_ifs with success
    · obtain ⟨member, points⟩ := knows (keeps success.1 success.2)
      exact ⟨chain, free,
        kept.setTail there member points ⟨pending, ready⟩ (fun _ own => own) rfl⟩
    · exact ⟨chain, free, kept.goTo there ⟨pending, ready⟩ rfl rfl⟩
  | advanceTail item node tail =>
    rw [QueueState.step]
    obtain ⟨linked, older, knows⟩ := law
    split_ifs with success
    · obtain ⟨member, points⟩ := knows (keeps success.1 success.2)
      exact ⟨chain, free, kept.setTail there member points linked (fun _ own => nomatch own) rfl⟩
    · exact ⟨chain, free, kept.goTo there linked rfl rfl⟩
  | countIn item => exact ⟨chain, free, kept.accept there⟩
  | _ => cases enqueues

/-- One operation of `lockfree_queue_dequeue`. -/
theorem dequeueStep {granted swaps : Bool} (there : state.At thread old)
    (keeps : SwapsFresh state granted swaps old) (dequeues : old.enqueues = false) :
    ∃ chainAfter freeAfter,
      QueueKept (state.step thread granted swaps old) chainAfter freeAfter := by
  have law := kept.threads.laws thread old there
  cases old with
  | idle => exact ⟨chain, free, kept⟩
  | loadHead => exact ⟨chain, free, kept.goTo there ⟨Nat.le_refl _, fun _ => rfl⟩ rfl rfl⟩
  | loadHeadTail head =>
    obtain ⟨older, knows⟩ := law
    exact ⟨chain, free, kept.goTo there
      ⟨⟨older, fun fresh => ⟨knows fresh, fun apart same => apart same.symm⟩⟩,
        Nat.le_refl _, fun _ => kept.nodes.tail⟩ rfl rfl⟩
  | loadHeadNext head tail =>
    obtain ⟨⟨older, knows⟩, tailOlder, tailKnows⟩ := law
    exact ⟨chain, free, kept.goTo there
      ⟨⟨older, fun fresh => ⟨(knows fresh).1, (knows fresh).2, fun _ points => points⟩⟩,
        tailOlder, fun fresh => ⟨tailKnows fresh, fun same _ points => same ▸ points⟩⟩ rfl rfl⟩
  | checkHead head tail after =>
    obtain ⟨⟨older, knows⟩, tailOlder, tailKnows⟩ := law
    cases after with
    | none =>
      rw [QueueState.step]
      split_ifs with isHead same
      · exact ⟨chain, free, kept.goTo there trivial rfl rfl⟩
      · exact ⟨chain, free, kept.goTo there trivial rfl rfl⟩
      · exact ⟨chain, free, kept.goTo there trivial rfl rfl⟩
    | some target =>
      rw [QueueState.step]
      split_ifs with isHead same
      · exact ⟨chain, free, kept.goTo there ⟨tailOlder, fun fresh =>
          ⟨(tailKnows fresh).1, (tailKnows fresh).2 same target rfl⟩⟩ rfl rfl⟩
      · exact ⟨chain, free, kept.goTo there ⟨older, fun fresh => ⟨(knows fresh).1,
          (knows fresh).2.1 same, (knows fresh).2.2 target rfl, rfl⟩⟩ rfl rfl⟩
      · exact ⟨chain, free, kept.goTo there trivial rfl rfl⟩
  | helpHeadTail tail target =>
    rw [QueueState.step]
    obtain ⟨older, knows⟩ := law
    split_ifs with success
    · obtain ⟨member, points⟩ := knows (keeps success.1 success.2)
      exact ⟨chain, free, kept.setTail there member points trivial (fun _ own => nomatch own) rfl⟩
    · exact ⟨chain, free, kept.goTo there trivial rfl rfl⟩
  | advanceHead head target output =>
    rw [QueueState.step]
    split_ifs with success
    · obtain ⟨chainAfter, keptAfter⟩ := kept.takeHead there (keeps success.1 success.2)
      exact ⟨chainAfter, free, keptAfter⟩
    · exact ⟨chain, free, kept.goTo there trivial rfl rfl⟩
  | loadPool node output => exact ⟨chain, free, kept.loadPool there _⟩
  | storePool node output pool => exact ⟨chain, free, kept.storePool there⟩
  | push node output pool =>
    rw [QueueState.step]
    split_ifs with success
    · exact ⟨chain, kept.push there success.2⟩
    · exact ⟨chain, free, kept.goTo there law.1 rfl rfl⟩
  | countOut output => exact ⟨chain, free, kept.deliver there⟩
  | _ => cases dequeues

end Calls

theorem queueStep (kept : QueueKept state chain free) {event : QueueEvent ω}
    (keeps : KeepsQueueLaw state event) :
    ∃ next chainAfter freeAfter, Jdbx.queueStep state event = some next ∧
      QueueKept next chainAfter freeAfter := by
  cases event with
  | enqueue thread work =>
    rw [Jdbx.queueStep]
    cases there : state.places[thread]? with
    | none => exact ⟨state, chain, free, rfl, kept⟩
    | some place =>
      cases place with
      | idle => exact ⟨_, chain, free, rfl, kept.enqueue there work⟩
      | _ => exact ⟨state, chain, free, rfl, kept⟩
  | dequeue thread =>
    rw [Jdbx.queueStep]
    cases there : state.places[thread]? with
    | none => exact ⟨state, chain, free, rfl, kept⟩
    | some place =>
      cases place with
      | idle => exact ⟨_, chain, free, rfl, kept.goTo there trivial rfl rfl⟩
      | _ => exact ⟨state, chain, free, rfl, kept⟩
  | step thread granted swaps =>
    rw [Jdbx.queueStep]
    cases there : state.places[thread]? with
    | none => exact ⟨state, chain, free, rfl, kept⟩
    | some place =>
      have swapsFresh := keeps place there
      cases direction : place.enqueues with
      | true =>
        obtain ⟨chainAfter, freeAfter, keptAfter⟩ :=
          kept.enqueueStep there swapsFresh direction
        exact ⟨_, chainAfter, freeAfter, rfl, keptAfter⟩
      | false =>
        obtain ⟨chainAfter, freeAfter, keptAfter⟩ :=
          kept.dequeueStep there swapsFresh direction
        exact ⟨_, chainAfter, freeAfter, rfl, keptAfter⟩

theorem items_eq (kept : QueueKept state chain free) : chain.length = state.items + 1 := by
  obtain ⟨rest, rfl, -⟩ := kept.nodes.queued.eq_cons
  have lengths := congrArg List.length kept.history.contents
  simp only [List.length_map, List.length_append, List.tail_cons] at lengths
  rw [List.length_cons, QueueState.items, lengths, Nat.add_sub_cancel_left]

theorem taken_linked (kept : QueueKept state chain free) :
    ∃ items : List (QueueItem ω), items.Sublist state.linked ∧
      state.taken = items.map some := by
  have split := List.map_eq_append_iff.mp kept.history.contents
  obtain ⟨items, others, linked, taken, -⟩ := split
  exact ⟨items, linked ▸ List.sublist_append_left items others, taken.symm⟩

theorem law (kept : QueueKept state chain free) : QueueLaw state := by
  obtain ⟨items, fewer, taken⟩ := kept.taken_linked
  refine ⟨⟨chain, free, kept.nodes.queued, kept.nodes.pooled, kept.items_eq, ?_⟩, ?_,
    kept.history.dequeued, ?_, ?_, kept.history.full⟩
  · exact fun node member => kept.not_mem_free member
  · intro output member
    have inTaken := kept.history.delivered output member
    rw [taken] at inTaken
    obtain ⟨item, inside, same⟩ := List.mem_map.mp inTaken
    exact ⟨item, fewer.subset inside, same.symm⟩
  · intro allIdle ends item accepted
    obtain ⟨rest, rfl, restPath⟩ := kept.nodes.queued.eq_cons
    rw [ends] at restPath
    cases restPath
    have contents := kept.history.contents
    rw [List.tail_cons, List.map_nil, List.append_nil] at contents
    have inTaken : some item ∈ state.taken :=
      contents ▸ List.mem_map_of_mem (kept.history.linked item accepted)
    rcases kept.threads.taken (some item) inTaken with delivered | ⟨thread, place, there, hand⟩
    · exact delivered
    · have isIdle := allIdle place (List.mem_of_getElem? there)
      cases place with
      | idle => cases hand
      | _ => cases isIdle
  · rw [taken, List.pairwise_map]
    apply (kept.history.inOrder.sublist fewer).imp
    intro first second before earlier isFirst later isSecond
    cases isFirst
    cases isSecond
    exact before

end QueueKept

theorem path_pool (pool count : Nat) (within : count ≤ pool) :
    ∃ nodes, Path (fun node => if 2 ≤ node ∧ node ≤ pool then some (node - 1) else none)
      (if count = 0 then none else some count) nodes ∧ nodes.Nodup ∧
        ∀ node ∈ nodes, 0 < node ∧ node ≤ count := by
  induction count with
  | zero => exact ⟨[], .nil, List.nodup_nil, fun _ member => (List.not_mem_nil member).elim⟩
  | succ count ih =>
    obtain ⟨nodes, path, nodup, bounds⟩ := ih (Nat.le_of_succ_le within)
    refine ⟨(count + 1) :: nodes, ?_, ?_, ?_⟩
    · rw [if_neg (Nat.succ_ne_zero count)]
      apply path.push
      by_cases last : count = 0
      · subst last
        exact if_neg (by omega)
      · rw [if_neg last]
        exact if_pos ⟨by omega, within⟩
    · exact List.nodup_cons.mpr ⟨fun member => by have := bounds _ member; omega, nodup⟩
    · intro node member
      rcases List.mem_cons.mp member with rfl | member
      · exact ⟨Nat.succ_pos count, Nat.le_refl _⟩
      · have := bounds node member
        exact ⟨this.1, Nat.le_succ_of_le this.2⟩

theorem queueKept_start (maxSize : UInt64) (pool threads : Nat) :
    ∃ free, QueueKept (QueueState.start maxSize pool threads : QueueState ω) [0] free := by
  obtain ⟨nodes, path, nodup, bounds⟩ := path_pool pool pool (Nat.le_refl _)
  have noItem : ∀ thread place, (QueueState.start maxSize pool threads : QueueState ω).At thread
      place → place = .idle := by
    intro thread place there
    exact List.eq_of_mem_replicate (List.mem_of_getElem? there)
  refine ⟨nodes, ?_, ?_, ?_⟩
  · exact {
      queued := by
        apply Path.cons
        change Path _ ((lockfreeQueueCreate maxSize pool).next 0) []
        simpa [lockfreeQueueCreate] using Path.nil
      pooled := path
      nodup := List.nodup_cons.mpr ⟨fun member => by have := bounds _ member; omega, nodup⟩
      tail := List.mem_singleton_self 0
      allocated := by
        intro node member
        rcases List.mem_cons.mp member with rfl | member
        · exact Nat.succ_pos pool
        · exact Nat.lt_succ_of_le (bounds node member).2 }
  · exact {
      contents := rfl
      inOrder := List.Pairwise.nil
      called := fun _ member => (List.not_mem_nil member).elim
      accepted := List.nodup_nil
      linked := fun _ member => (List.not_mem_nil member).elim
      counted := rfl
      size := rfl
      dequeued := List.nodup_nil
      delivered := fun _ member => (List.not_mem_nil member).elim
      full := fun _ member => (List.not_mem_nil member).elim }
  · refine ⟨?_, ?_, ?_, fun _ member => (List.not_mem_nil member).elim, ?_⟩
    · intro thread place node there own
      obtain rfl := noItem thread place there
      cases own
    · intro first second place other node there _ own
      obtain rfl := noItem first place there
      cases own
    · intro first second place other output there _ hand
      obtain rfl := noItem first place there
      cases hand
    · intro thread place there
      obtain rfl := noItem thread place there
      trivial

theorem keeps_queue : Keeps queueStep KeepsQueueLaw
    fun state : QueueState ω => ∃ chain free, QueueKept state chain free := by
  intro state event next inv keepsEvent taken
  obtain ⟨chain, free, kept⟩ := inv
  obtain ⟨other, chainAfter, freeAfter, same, keptAfter⟩ := kept.queueStep keepsEvent
  obtain rfl := Option.some.inj (same.symm.trans taken)
  exact ⟨chainAfter, freeAfter, keptAfter⟩

theorem queueLaw_of_keepsQueueLaw (maxSize : UInt64) (pool threads : Nat)
    {events : List (QueueEvent ω)}
    (keeps : EveryStep queueStep KeepsQueueLaw (.start maxSize pool threads) events) :
    EveryStep queueStep QueueStepLawful (.start maxSize pool threads) events := by
  refine EveryStep.of_keeps keeps_queue ?_ ⟨[0], queueKept_start maxSize pool threads⟩ keeps
  intro state event inv keepsEvent
  obtain ⟨chain, free, kept⟩ := inv
  obtain ⟨next, chainAfter, freeAfter, taken, keptAfter⟩ := kept.queueStep keepsEvent
  exact ⟨next, taken, keptAfter.law⟩

def operations (count thread : Nat) : List (QueueEvent Nat) :=
  List.replicate count (.step thread true true)

def freshRun : List (QueueEvent Nat) :=
  [.enqueue 0 7, .enqueue 1 8] ++ operations 9 0 ++ operations 30 1 ++ operations 5 0 ++
    [.dequeue 2] ++ operations 20 2 ++ [.dequeue 1] ++ operations 20 1

theorem queueLaw_of_keepsQueueLaw_freshRun :
    EveryStep queueStep QueueStepLawful (.start 10 1 3) freshRun := by
  have keeps : EveryStep queueStep KeepsQueueLaw (.start 10 1 3) freshRun := by
    decide +kernel
  exact queueLaw_of_keepsQueueLaw 10 1 3 keeps

/-- A producer stands before its swap on the last node, which another producer and a
consumer move to the pool. -/
def recycledRun : List (QueueEvent Nat) :=
  [.enqueue 0 7] ++ operations 8 0 ++ [.enqueue 1 8] ++ operations 20 1 ++ [.dequeue 2] ++
    operations 20 2 ++ operations 8 0

theorem not_queueLaw_recycledRun :
    ¬ EveryStep queueStep QueueStepLawful (.start 10 1 3) recycledRun := by
  intro lawful
  have drained : EveryStep queueStep (fun state event =>
      (queueStep state event).all fun next =>
        !(next.places.all QueuePlace.isIdle && (next.queue.next next.queue.head).isNone) ||
          next.accepted.all fun item => decide (some item ∈ next.dequeued))
      (.start 10 1 3) recycledRun := by
    apply lawful.mono
    intro state event met
    obtain ⟨next, taken, law⟩ := met
    rw [taken, Option.all_some, Bool.or_eq_true, Bool.not_eq_true', Bool.and_eq_false_imp,
      List.all_eq_true, Option.isNone_eq_false_iff]
    by_cases quiet : (∀ place ∈ next.places, place.isIdle) ∧
        next.queue.next next.queue.head = none
    · refine Or.inr (List.all_eq_true.mpr fun item member => decide_eq_true ?_)
      exact law.drained quiet.1 quiet.2 item member
    · refine Or.inl fun idle => Option.isSome_iff_ne_none.mpr fun ends => quiet ⟨idle, ends⟩
  exact absurd drained (by decide +kernel)

end Jdbx
