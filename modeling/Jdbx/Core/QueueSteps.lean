import Jdbx.Core.QueueInvariant

/-!
# The steps of the lock-free queue

Every operation on fresh nodes keeps what the threads rely on.
-/

namespace Jdbx

open Library

variable {ω : Type} {state next : QueueState ω} {chain free chainAfter freeAfter : List Nat}
  {thread : Nat} {old new : QueuePlace ω} {item : QueueItem ω} {node target : Nat}
  {output : Option (QueueItem ω)}

theorem le_moved {moves : Nat → Nat} (node other : Nat) :
    moves other ≤ Function.update moves node (moves node + 1) other := by
  by_cases same : other = node
  · subst same
    rw [Function.update_self]
    exact Nat.le_succ _
  · exact Nat.le_of_eq (Function.update_of_ne same _ _).symm

theorem ne_of_unmoved {moves : Nat → Nat} {node other : Nat}
    (unmoved : Function.update moves node (moves node + 1) other = moves other) :
    other ≠ node := by
  rintro rfl
  rw [Function.update_self] at unmoved
  omega

namespace QueueThreads

variable (threads : QueueThreads state chain free)

include threads

theorem stays_refl (thread : Nat) : QueueStays thread state state chain free chain free where
  moves := fun _ => Nat.le_refl _
  chained := fun _ member _ => member
  links := fun _ _ _ points => points
  works := fun _ _ => rfl
  head := fun _ => ⟨rfl, fun apart => apart⟩
  pooled := fun _ member _ => ⟨member, rfl⟩
  owned := by
    intro other place node _ there own
    have outside := threads.owned other place node there own
    exact ⟨rfl, rfl, outside.1, outside.2.1⟩
  allocated := Nat.le_refl _
  calls := Nat.le_refl _
  linked := fun _ member => member
  newLinked := fun _ member => Or.inl member
  newAccepted := fun _ member => Or.inl member
  taken := fun _ member => member
  dequeued := fun _ member => member
  newDequeued := fun _ _ _ _ _ _ member => member

theorem owned_same (there : state.At thread old)
    (same : ∀ node, new.owned = some node → old.owned = some node) :
    ∀ node, new.owned = some node →
      (node ∉ chain ∧ node ∉ free ∧ node < state.queue.allocated) ∧
        ∀ other place, other ≠ thread → state.At other place →
          place.owned ≠ some node := by
  intro node own
  refine ⟨threads.owned thread old node there (same node own), ?_⟩
  intro other place different atOther otherOwn
  exact different (threads.apart other thread place old node atOther there otherOwn (same node own))

theorem hands_same (there : state.At thread old)
    (same : ∀ output, new.hand = some output → old.hand = some output) :
    ∀ output, new.hand = some output → ∀ other place, other ≠ thread →
      state.At other place → place.hand ≠ some output := by
  intro output hand other place different atOther otherHand
  exact different
    (threads.hands other thread place old output atOther there otherHand (same output hand))

theorem taken_same (there : state.At thread old)
    (same : ∀ output, old.hand = some output → new.hand = some output) :
    ∀ output ∈ state.taken, output ∈ state.dequeued ∨ new.hand = some output ∨
      ∃ other place, other ≠ thread ∧ state.At other place ∧
        place.hand = some output := by
  intro output member
  rcases threads.taken output member with delivered | ⟨other, place, atOther, hand⟩
  · exact Or.inl delivered
  · by_cases isThread : other = thread
    · subst isThread
      obtain rfl := Option.some.inj (atOther.symm.trans there)
      exact Or.inr (Or.inl (same output hand))
    · exact Or.inr (Or.inr ⟨other, place, isThread, atOther, hand⟩)

end QueueThreads

theorem placeLaw_goTo {other : Nat} {place : QueuePlace ω} :
    (next.goTo thread new).PlaceLaw chain free other place ↔
      next.PlaceLaw chain free other place := by
  cases place <;> exact Iff.rfl

namespace QueueKept

variable (kept : QueueKept state chain free)

include kept

theorem change (there : state.At thread old)
    (places : next.places = state.places)
    (nodes : QueueNodes next.queue chainAfter freeAfter)
    (history : QueueHistory next chainAfter)
    (stays : QueueStays thread state next chain free chainAfter freeAfter)
    (law : next.PlaceLaw chainAfter freeAfter thread new)
    (owned : ∀ node, new.owned = some node →
      (node ∉ chainAfter ∧ node ∉ freeAfter ∧ node < next.queue.allocated) ∧
        ∀ other place, other ≠ thread → state.At other place →
          place.owned ≠ some node)
    (hands : ∀ output, new.hand = some output → ∀ other place, other ≠ thread →
      state.At other place → place.hand ≠ some output)
    (taken : ∀ output ∈ next.taken, output ∈ next.dequeued ∨ new.hand = some output ∨
      ∃ other place, other ≠ thread ∧ state.At other place ∧
        place.hand = some output) :
    QueueKept (next.goTo thread new) chainAfter freeAfter := by
  have cases_at : ∀ {other place}, (next.goTo thread new).At other place →
      (other = thread ∧ place = new) ∨ (other ≠ thread ∧ state.At other place) := by
    intro other place found
    simp only [QueueState.At, QueueState.goTo, places, List.getElem?_set] at found
    split_ifs at found with isThread inside
    · exact Or.inl ⟨isThread.symm, (Option.some.inj found).symm⟩
    · exact Or.inr ⟨fun same => isThread same.symm, found⟩
  have atThread : (next.goTo thread new).At thread new := by
    have inside := (List.getElem?_eq_some_iff.mp there).1
    simp only [QueueState.At, QueueState.goTo, places]
    exact List.getElem?_set_self inside
  have atOther : ∀ {other place}, other ≠ thread → state.At other place →
      (next.goTo thread new).At other place := by
    intro other place different found
    simp only [QueueState.At, QueueState.goTo, places]
    exact (List.getElem?_set_ne different.symm).trans found
  refine ⟨nodes, ⟨history.contents, history.inOrder, history.called, history.accepted,
    history.linked, history.counted, history.size, history.dequeued, history.delivered,
    history.full⟩, ?_⟩
  refine ⟨?_, ?_, ?_, ?_, ?_⟩
  · intro other place node found own
    rcases cases_at found with ⟨-, rfl⟩ | ⟨different, found⟩
    · exact (owned node own).1
    · have outside := (stays.owned other place node different found own).2.2
      have small := (kept.threads.owned other place node found own).2.2
      exact ⟨outside.1, outside.2, Nat.lt_of_lt_of_le small stays.allocated⟩
  · intro first second place other node atFirst atSecond own otherOwn
    rcases cases_at atFirst with ⟨rfl, rfl⟩ | ⟨firstDifferent, before⟩
    · rcases cases_at atSecond with ⟨rfl, -⟩ | ⟨different, atSecond⟩
      · exact rfl
      · exact absurd otherOwn ((owned node own).2 second other different atSecond)
    · rcases cases_at atSecond with ⟨rfl, rfl⟩ | ⟨-, atSecond⟩
      · exact absurd own ((owned node otherOwn).2 first place firstDifferent before)
      · exact kept.threads.apart first second place other node before atSecond own otherOwn
  · intro first second place other output atFirst atSecond hand otherHand
    rcases cases_at atFirst with ⟨rfl, rfl⟩ | ⟨firstDifferent, before⟩
    · rcases cases_at atSecond with ⟨rfl, -⟩ | ⟨different, atSecond⟩
      · exact rfl
      · exact absurd otherHand (hands output hand second other different atSecond)
    · rcases cases_at atSecond with ⟨rfl, rfl⟩ | ⟨-, atSecond⟩
      · exact absurd hand (hands output otherHand first place firstDifferent before)
      · exact kept.threads.hands first second place other output before atSecond hand otherHand
  · intro output member
    rcases taken output member with delivered | hand | ⟨other, place, different, found, hand⟩
    · exact Or.inl delivered
    · exact Or.inr ⟨thread, new, atThread, hand⟩
    · exact Or.inr ⟨other, place, atOther different found, hand⟩
  · intro other place found
    rcases cases_at found with ⟨rfl, rfl⟩ | ⟨different, found⟩
    · exact placeLaw_goTo.mpr law
    · exact placeLaw_goTo.mpr
        (stays.placeLaw kept.nodes different found (kept.threads.laws other place found))

theorem goTo (there : state.At thread old)
    (law : state.PlaceLaw chain free thread new) (owned : new.owned = old.owned)
    (hand : new.hand = old.hand) : QueueKept (state.goTo thread new) chain free :=
  kept.change there rfl kept.nodes kept.history (kept.threads.stays_refl thread) law
    (kept.threads.owned_same there fun _ own => owned.symm.trans own)
    (kept.threads.hands_same there fun _ holds => hand.symm.trans holds)
    (kept.threads.taken_same there fun _ holds => hand.trans holds)

theorem not_mem_free {node : Nat} (member : node ∈ chain) : node ∉ free :=
  fun inside => (List.nodup_append.mp kept.nodes.nodup).2.2 node member node inside rfl

theorem not_mem_chain {node : Nat} (member : node ∈ free) : node ∉ chain :=
  fun inside => kept.not_mem_free inside member

theorem target_behind (member : node ∈ chain) (points : state.queue.next node = some target) :
    target ∈ chain ∧ target ≠ state.queue.head := by
  have behind := kept.nodes.queued.target_mem_tail member points
  obtain ⟨rest, rfl, -⟩ := kept.nodes.queued.eq_cons
  have nodup := (List.nodup_append.mp kept.nodes.nodup).1
  refine ⟨List.mem_of_mem_tail behind, ?_⟩
  rintro rfl
  exact (List.nodup_cons.mp nodup).1 behind

theorem not_owned (there : state.At thread old) (outside : node ∈ chain ∨ node ∈ free) :
    old.owned ≠ some node := by
  intro own
  have law := kept.threads.owned thread old node there own
  exact outside.elim law.1 law.2.1

theorem pop {pooled : LoadedNode} {after : Option Nat}
    (there : state.At thread (.popFree item pooled after)) (fresh : state.Fresh pooled)
    (first : state.queue.freeNodes = some pooled.node) :
    ∃ freeAfter, QueueKept ((state.pop pooled.node after).goTo thread (.clearNext item pooled.node))
      chain freeAfter := by
  obtain ⟨pending, -, knows⟩ := kept.threads.laws thread _ there
  obtain ⟨member, rfl⟩ := knows fresh
  have path := kept.nodes.pooled
  rw [first] at path
  obtain ⟨rest, rfl, restPath⟩ := path.eq_cons
  have nodup := List.nodup_append.mp kept.nodes.nodup
  have outside : pooled.node ∉ rest := (List.nodup_cons.mp nodup.2.1).1
  have fewer : (chain ++ rest).Sublist (chain ++ pooled.node :: rest) :=
    (List.sublist_cons_self pooled.node rest).append_left chain
  have refl := kept.threads.stays_refl thread
  refine ⟨rest, kept.change there rfl ?_ ?_ ?_ pending ?_ (fun _ hand => nomatch hand) ?_⟩
  · exact {
      queued := kept.nodes.queued
      pooled := restPath
      nodup := kept.nodes.nodup.sublist fewer
      tail := kept.nodes.tail
      allocated := fun node inside => kept.nodes.allocated node (fewer.subset inside) }
  · exact { kept.history with }
  · exact { refl with
      moves := le_moved pooled.node
      chained := fun node inside _ => inside
      head := fun _ => ⟨rfl, fun apart => apart⟩
      pooled := by
        intro node inside unmoved
        exact ⟨(List.mem_cons.mp inside).resolve_left (ne_of_unmoved unmoved), rfl⟩
      owned := by
        intro other place node different atOther own
        have law := refl.owned other place node different atOther own
        exact ⟨law.1, law.2.1, law.2.2.1, fun inside => law.2.2.2 (List.mem_cons_of_mem _ inside)⟩ }
  · intro node own
    cases own
    refine ⟨⟨kept.not_mem_chain member, outside, ?_⟩, fun other place _ atOther => ?_⟩
    · exact kept.nodes.allocated _ (List.mem_append_right chain member)
    · exact kept.not_owned atOther (Or.inr member)
  · exact kept.threads.taken_same there fun _ hand => nomatch hand

theorem allocateNode (there : state.At thread (.allocate item)) :
    QueueKept (state.allocateNode.goTo thread (.clearNext item state.queue.allocated))
      chain free := by
  have pending := kept.threads.laws thread _ there
  refine kept.change there rfl ?_ ?_ ?_ pending ?_ (fun _ hand => nomatch hand) ?_
  · exact { kept.nodes with
      allocated := fun node inside => Nat.lt_succ_of_lt (kept.nodes.allocated node inside) }
  · exact { kept.history with }
  · exact { kept.threads.stays_refl thread with allocated := Nat.le_succ _ }
  · intro node own
    cases own
    have above : ∀ node ∈ chain ++ free, node ≠ state.queue.allocated :=
      fun node inside => Nat.ne_of_lt (kept.nodes.allocated node inside)
    refine ⟨⟨fun inside => above _ (List.mem_append_left free inside) rfl,
      fun inside => above _ (List.mem_append_right chain inside) rfl, Nat.lt_succ_self _⟩, ?_⟩
    intro other place _ atOther own
    exact Nat.lt_irrefl _ (kept.threads.owned other place _ atOther own).2.2
  · exact kept.threads.taken_same there fun _ hand => nomatch hand

theorem stays_write (there : state.At thread old) (own : old.owned = some node)
    (next : Option Nat) (work : Option (QueueItem ω)) :
    QueueStays thread state ((state.setNext node next).setWork node work) chain free chain free ∧
      QueueNodes ((state.setNext node next).setWork node work).queue chain free ∧
        QueueHistory ((state.setNext node next).setWork node work) chain := by
  obtain ⟨outside, notFree, -⟩ := kept.threads.owned thread old node there own
  have refl := kept.threads.stays_refl thread
  have different : ∀ {other}, other ∈ chain ∨ other ∈ free → other ≠ node := by
    rintro other inside rfl
    exact inside.elim outside notFree
  refine ⟨{ refl with
    links := ?_
    works := ?_
    pooled := ?_
    owned := ?_ }, { kept.nodes with
    queued := kept.nodes.queued.update outside next
    pooled := kept.nodes.pooled.update notFree next }, { kept.history with contents := ?_ }⟩
  · intro other member target points
    exact (Function.update_of_ne (different (Or.inl member)) _ _).trans points
  · intro other member
    exact Function.update_of_ne (different (Or.inl member)) _ _
  · intro other member _
    exact ⟨member, Function.update_of_ne (different (Or.inr member)) _ _⟩
  · intro other place otherNode isOther atOther otherOwn
    have law := refl.owned other place otherNode isOther atOther otherOwn
    have apart : otherNode ≠ node := by
      rintro rfl
      exact isOther (kept.threads.apart other thread place old otherNode atOther there otherOwn own)
    exact ⟨Function.update_of_ne apart _ _, Function.update_of_ne apart _ _, law.2.2⟩
  · refine kept.history.contents.trans (congrArg _ (List.map_congr_left ?_))
    intro other member
    exact (Function.update_of_ne (different (Or.inl (List.mem_of_mem_tail member))) _ _).symm

theorem clearNext (there : state.At thread (.clearNext item node)) :
    QueueKept (((state.setNext node none).setWork node (some item)).goTo thread
      (.loadTail item node)) chain free := by
  have pending := kept.threads.laws thread _ there
  obtain ⟨stays, nodes, history⟩ := kept.stays_write there rfl none (some item)
  refine kept.change there rfl nodes history stays ⟨pending, ?_, ?_⟩ ?_
    (fun _ hand => nomatch hand) ?_
  · exact Function.update_self ..
  · exact Function.update_self ..
  · exact kept.threads.owned_same there fun _ own => own
  · exact kept.threads.taken_same there fun _ hand => nomatch hand

theorem link {tail : LoadedNode} (there : state.At thread (.link item node tail))
    (fresh : state.Fresh tail) (ends : state.queue.next tail.node = none) :
    QueueKept ((state.linkNode tail.node node item).goTo thread (.advanceTail item node tail))
      (chain ++ [node]) free := by
  obtain ⟨⟨producer, called, last⟩, ⟨unlinked, works⟩, older, knows⟩ :=
    kept.threads.laws thread _ there
  have member := knows fresh
  obtain ⟨outside, notFree, small⟩ := kept.threads.owned thread _ node there rfl
  have nodup := List.nodup_append.mp kept.nodes.nodup
  have refl := kept.threads.stays_refl thread
  have unlinkedItem : item ∉ state.linked :=
    fun inside => Nat.lt_irrefl _ (last item inside producer)
  have notTail : ∀ {other}, other ∈ free → other ≠ tail.node := by
    rintro other inside rfl
    exact kept.not_mem_free member inside
  refine kept.change there rfl ?_ ?_ ?_ ⟨⟨producer, ?_, ?_⟩, older, fun _ => ⟨?_, ?_⟩⟩
    (fun _ own => nomatch own) (fun _ hand => nomatch hand) ?_
  · exact {
      queued := kept.nodes.queued.append nodup.1 member ends unlinked outside
      pooled := kept.nodes.pooled.update (kept.not_mem_free member) (some node)
      nodup := by
        refine List.nodup_append.mpr ⟨?_, nodup.2.1, ?_⟩
        · exact nodup.1.append (List.nodup_singleton node) (by simpa using outside)
        · rintro first inChain second inFree rfl
          rcases List.mem_append.mp inChain with before | new
          · exact kept.not_mem_free before inFree
          · exact notFree (List.mem_singleton.mp new ▸ inFree)
      tail := List.mem_append_left _ kept.nodes.tail
      allocated := by
        intro other inside
        rcases List.mem_append.mp inside with inChain | inFree
        · rcases List.mem_append.mp inChain with before | new
          · exact kept.nodes.allocated other (List.mem_append_left free before)
          · exact List.mem_singleton.mp new ▸ small
        · exact kept.nodes.allocated other (List.mem_append_right chain inFree) }
  · exact { kept.history with
      contents := by
        obtain ⟨rest, rfl, -⟩ := kept.nodes.queued.eq_cons
        have contents := kept.history.contents
        simp only [QueueState.linkNode, QueueState.setNext, List.map_append, List.map_singleton,
          List.cons_append, List.tail_cons] at contents ⊢
        rw [contents, works, List.append_assoc]
      inOrder := by
        refine List.pairwise_append.mpr ⟨kept.history.inOrder, List.pairwise_singleton _ _, ?_⟩
        intro earlier inside later new same
        rw [List.mem_singleton.mp new] at same ⊢
        exact last earlier inside (same.trans producer)
      called := by
        intro other inside
        rcases List.mem_append.mp inside with before | new
        · exact kept.history.called other before
        · exact List.mem_singleton.mp new ▸ called
      linked := fun other inside => List.mem_append_left _ (kept.history.linked other inside) }
  · exact { refl with
      chained := fun other inside _ => List.mem_append_left _ inside
      links := by
        intro other _ target points
        have different : other ≠ tail.node := by
          rintro rfl
          rw [ends] at points
          cases points
        exact (Function.update_of_ne different _ _).trans points
      head := fun _ => ⟨rfl, fun apart => apart⟩
      pooled := fun other inside _ => ⟨inside, Function.update_of_ne (notTail inside) _ _⟩
      owned := by
        intro other place otherNode isOther atOther own
        have law := refl.owned other place otherNode isOther atOther own
        have different : otherNode ≠ tail.node := by
          rintro rfl
          exact law.2.2.1 member
        refine ⟨Function.update_of_ne different _ _, law.2.1, fun inside => ?_, law.2.2.2⟩
        rcases List.mem_append.mp inside with before | new
        · exact law.2.2.1 before
        · obtain rfl := List.mem_singleton.mp new
          exact isOther (kept.threads.apart other thread place _ otherNode atOther there own rfl)
      linked := fun other inside => List.mem_append_left _ inside
      newLinked := by
        intro other inside
        rcases List.mem_append.mp inside with before | new
        · exact Or.inl before
        · exact Or.inr (List.mem_singleton.mp new ▸ producer) }
  · exact List.mem_append_right _ (List.mem_singleton_self item)
  · exact fun accepted => unlinkedItem (kept.history.linked item accepted)
  · exact List.mem_append_left _ member
  · exact Function.update_self ..
  · exact kept.threads.taken_same there fun _ hand => nomatch hand

theorem setTail {tail : LoadedNode} (there : state.At thread old) (member : tail.node ∈ chain)
    (points : state.queue.next tail.node = some target)
    (law : (state.setTail target).PlaceLaw chain free thread new)
    (owned : ∀ node, new.owned = some node → old.owned = some node)
    (hand : new.hand = old.hand) :
    QueueKept ((state.setTail target).goTo thread new) chain free := by
  obtain ⟨inside, behind⟩ := kept.target_behind member points
  refine kept.change there rfl { kept.nodes with tail := inside } { kept.history with } ?_ law
    (kept.threads.owned_same there owned)
    (kept.threads.hands_same there fun _ holds => hand.symm.trans holds)
    (kept.threads.taken_same there fun _ holds => hand.trans holds)
  exact { kept.threads.stays_refl thread with head := fun _ => ⟨rfl, fun _ => behind⟩ }

theorem accept (there : state.At thread (.countIn item)) :
    QueueKept (state.accept thread item) chain free := by
  obtain ⟨producer, member, unaccepted⟩ := kept.threads.laws thread _ there
  have counted := kept.history.size
  have added : UInt64.ofNat (state.added + 1) = UInt64.ofNat state.added + 1 :=
    UInt64.ofNat_add state.added 1
  refine kept.change there rfl { kept.nodes with } ?_ ?_ trivial (fun _ own => nomatch own)
    (fun _ hand => nomatch hand) (kept.threads.taken_same there fun _ hand => nomatch hand)
  · exact { kept.history with
      accepted := kept.history.accepted.append (List.nodup_singleton item)
        (by simpa using unaccepted)
      linked := by
        intro other inside
        rcases List.mem_append.mp inside with before | new
        · exact kept.history.linked other before
        · exact List.mem_singleton.mp new ▸ member
      counted := by
        rw [List.length_append, kept.history.counted]
        exact rfl
      size := by
        change state.queue.size + 1 + UInt64.ofNat state.removed = _
        rw [added, ← counted]
        grind }
  · exact { kept.threads.stays_refl thread with
      newAccepted := by
        intro other inside
        rcases List.mem_append.mp inside with before | new
        · exact Or.inl before
        · exact Or.inr (List.mem_singleton.mp new ▸ producer) }

theorem taken_nodup : (state.taken ++ chain.tail.map state.queue.work).Nodup := by
  rw [← kept.history.contents]
  apply List.Nodup.map fun first second same => Option.some.inj same
  apply List.Pairwise.imp _ kept.history.inOrder
  intro first second before same
  subst same
  exact Nat.lt_irrefl _ (before rfl)

theorem hand_taken (there : state.At thread old) (hand : old.hand = some output) :
    output ∈ state.taken ∧ output ∉ state.dequeued := by
  have law := kept.threads.laws thread old there
  cases old with
  | loadPool _ _ | storePool _ _ _ | countOut _ =>
      cases hand
      exact law
  | push _ _ _ =>
      cases hand
      exact law.1
  | _ => cases hand

theorem takeHead {head : LoadedNode} (there : state.At thread (.advanceHead head target output))
    (fresh : state.Fresh head) :
    ∃ chainAfter, QueueKept ((state.takeHead head.node target output).goTo thread
      (.loadPool head.node output)) chainAfter free := by
  obtain ⟨older, knows⟩ := kept.threads.laws thread _ there
  obtain ⟨isHead, behind, points, read⟩ := knows fresh
  have path := kept.nodes.queued
  rw [isHead] at path
  obtain ⟨rest, rfl, restPath⟩ := path.eq_cons
  rw [points] at restPath
  have nodup := List.nodup_append.mp kept.nodes.nodup
  have outside : head.node ∉ rest := (List.nodup_cons.mp nodup.1).1
  have fewer : (rest ++ free).Sublist (head.node :: rest ++ free) :=
    (List.sublist_cons_self head.node rest).append_right free
  have refl := kept.threads.stays_refl thread
  have untaken : output ∉ state.taken := by
    intro before
    obtain ⟨others, rfl, -⟩ := restPath.eq_cons
    have apart := (List.nodup_append.mp kept.taken_nodup).2.2 output before output
    exact apart (by simp [read]) rfl
  refine ⟨rest, kept.change there rfl ?_ ?_ ?_ ⟨?_, ?_⟩ ?_ ?_ ?_⟩
  · exact {
      queued := restPath
      pooled := kept.nodes.pooled
      nodup := kept.nodes.nodup.sublist fewer
      tail := by
        apply (List.mem_cons.mp kept.nodes.tail).resolve_left
        exact behind
      allocated := fun node inside => kept.nodes.allocated node (fewer.subset inside) }
  · exact { kept.history with
      contents := by
        obtain ⟨others, rfl, -⟩ := restPath.eq_cons
        have contents := kept.history.contents
        simp only [QueueState.takeHead, List.tail_cons, List.map_cons] at contents ⊢
        rw [contents, read, List.append_assoc, List.singleton_append]
      delivered := fun other inside =>
        List.mem_append_left _ (kept.history.delivered other inside) }
  · exact { refl with
      moves := le_moved head.node
      chained := by
        intro node inside unmoved
        exact (List.mem_cons.mp inside).resolve_left (ne_of_unmoved unmoved)
      head := fun unmoved => absurd isHead (ne_of_unmoved unmoved)
      pooled := fun node inside _ => ⟨inside, rfl⟩
      owned := by
        intro other place node isOther atOther own
        have law := refl.owned other place node isOther atOther own
        exact ⟨law.1, law.2.1, fun inside => law.2.2.1 (List.mem_cons_of_mem _ inside), law.2.2.2⟩
      taken := fun other inside => List.mem_append_left _ inside }
  · exact List.mem_append_right _ (List.mem_singleton_self output)
  · exact fun delivered => untaken (kept.history.delivered output delivered)
  · intro node own
    cases own
    have member : head.node ∈ head.node :: rest := List.mem_cons_self
    refine ⟨⟨outside, kept.not_mem_free member, ?_⟩, fun other place _ atOther => ?_⟩
    · exact kept.nodes.allocated _ (List.mem_append_left free member)
    · exact kept.not_owned atOther (Or.inl member)
  · intro held hand other place _ atOther otherHand
    cases hand
    exact untaken (kept.hand_taken atOther otherHand).1
  · intro other inside
    rcases List.mem_append.mp inside with before | new
    · rcases kept.threads.taken other before with delivered | ⟨first, place, atFirst, hand⟩
      · exact Or.inl delivered
      · have different : first ≠ thread := by
          rintro rfl
          obtain rfl := Option.some.inj (atFirst.symm.trans there)
          cases hand
        exact Or.inr (Or.inr ⟨first, place, different, atFirst, hand⟩)
    · exact Or.inr (Or.inl (congrArg some (List.mem_singleton.mp new).symm))

theorem loadPool (there : state.At thread (.loadPool node output)) (pool : Option Nat) :
    QueueKept ((state.setWork node none).goTo thread (.storePool node output pool)) chain free := by
  have holds := kept.threads.laws thread _ there
  have written := kept.stays_write there rfl (state.queue.next node) none
  have same : state.setNext node (state.queue.next node) = state := by
    rw [QueueState.setNext, Function.update_eq_self]
  rw [same] at written
  obtain ⟨stays, nodes, history⟩ := written
  exact kept.change there rfl nodes history stays holds
    (kept.threads.owned_same there fun _ own => own)
    (kept.threads.hands_same there fun _ hand => hand)
    (kept.threads.taken_same there fun _ hand => hand)

theorem storePool {pool : Option Nat} (there : state.At thread (.storePool node output pool)) :
    QueueKept ((state.setNext node pool).goTo thread (.push node output pool)) chain free := by
  have holds := kept.threads.laws thread _ there
  have written := kept.stays_write there rfl pool (state.queue.work node)
  have same : (state.setNext node pool).setWork node (state.queue.work node) =
      state.setNext node pool := by
    rw [QueueState.setWork]
    exact congrArg (fun work => { state.setNext node pool with
      queue := { (state.setNext node pool).queue with work := work } })
      (Function.update_eq_self node state.queue.work)
  rw [same] at written
  obtain ⟨stays, nodes, history⟩ := written
  exact kept.change there rfl nodes history stays ⟨holds, Function.update_self ..⟩
    (kept.threads.owned_same there fun _ own => own)
    (kept.threads.hands_same there fun _ hand => hand)
    (kept.threads.taken_same there fun _ hand => hand)

theorem push {pool : Option Nat} (there : state.At thread (.push node output pool))
    (first : state.queue.freeNodes = pool) :
    ∃ freeAfter, QueueKept ((state.pushNode node).goTo thread (.countOut output)) chain
      freeAfter := by
  obtain ⟨holds, points⟩ := kept.threads.laws thread _ there
  obtain ⟨outside, notFree, small⟩ := kept.threads.owned thread _ node there rfl
  have nodup := List.nodup_append.mp kept.nodes.nodup
  have refl := kept.threads.stays_refl thread
  refine ⟨node :: free, kept.change there rfl ?_ { kept.history with } ?_ holds
    (fun _ own => nomatch own) (kept.threads.hands_same there fun _ hand => hand)
    (kept.threads.taken_same there fun _ hand => hand)⟩
  · exact {
      queued := kept.nodes.queued
      pooled := kept.nodes.pooled.push (points.trans first.symm)
      nodup := by
        refine List.nodup_append.mpr ⟨nodup.1, List.nodup_cons.mpr ⟨notFree, nodup.2.1⟩, ?_⟩
        rintro other inChain second inFree rfl
        rcases List.mem_cons.mp inFree with rfl | inFree
        · exact outside inChain
        · exact kept.not_mem_free inChain inFree
      tail := kept.nodes.tail
      allocated := by
        intro other inside
        rcases List.mem_append.mp inside with inChain | inFree
        · exact kept.nodes.allocated other (List.mem_append_left free inChain)
        · rcases List.mem_cons.mp inFree with rfl | inFree
          · exact small
          · exact kept.nodes.allocated other (List.mem_append_right chain inFree) }
  · exact { refl with
      pooled := fun other inside _ => ⟨List.mem_cons_of_mem node inside, rfl⟩
      owned := by
        intro other place otherNode isOther atOther own
        have law := refl.owned other place otherNode isOther atOther own
        refine ⟨law.1, law.2.1, law.2.2.1, fun inside => ?_⟩
        rcases List.mem_cons.mp inside with rfl | inFree
        · exact isOther (kept.threads.apart other thread place _ otherNode atOther there own rfl)
        · exact law.2.2.2 inFree }

theorem deliver (there : state.At thread (.countOut output)) :
    QueueKept (state.deliver thread output) chain free := by
  obtain ⟨member, undelivered⟩ := kept.threads.laws thread _ there
  have counted := kept.history.size
  have removed : UInt64.ofNat (state.removed + 1) = UInt64.ofNat state.removed + 1 :=
    UInt64.ofNat_add state.removed 1
  refine kept.change there rfl { kept.nodes with } ?_ ?_ trivial (fun _ own => nomatch own)
    (fun _ hand => nomatch hand) ?_
  · exact { kept.history with
      size := by
        change state.queue.size - 1 + UInt64.ofNat (state.removed + 1) = _
        rw [removed]
        exact Eq.trans (by grind) counted
      dequeued := kept.history.dequeued.append (List.nodup_singleton output)
        (by simpa using undelivered)
      delivered := by
        intro other inside
        rcases List.mem_append.mp inside with before | new
        · exact kept.history.delivered other before
        · exact List.mem_singleton.mp new ▸ member }
  · exact { kept.threads.stays_refl thread with
      dequeued := fun other inside => List.mem_append_left _ inside
      newDequeued := by
        intro other place held isOther atOther hand inside
        rcases List.mem_append.mp inside with before | new
        · exact before
        · obtain rfl := List.mem_singleton.mp new
          exact absurd (kept.threads.hands other thread place _ held atOther there hand rfl)
            isOther }
  · intro other inside
    rcases kept.threads.taken other inside with delivered | ⟨first, place, atFirst, hand⟩
    · exact Or.inl (List.mem_append_left _ delivered)
    · by_cases isThread : first = thread
      · subst isThread
        obtain rfl := Option.some.inj (atFirst.symm.trans there)
        cases hand
        exact Or.inl (List.mem_append_right _ (List.mem_singleton_self _))
      · exact Or.inr (Or.inr ⟨first, place, isThread, atFirst, hand⟩)

end QueueKept

end Jdbx
