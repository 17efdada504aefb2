import Jdbx.Library.CString
import Jdbx.Library.GuardedRun
import Jdbx.Library.ListCursor
import Jdbx.Library.ThreadList

/-!
# Threads on one skiplist

The skiplist of art.c is a list of leaves behind an atomic root pointer.  Each
atomic operation on the root and each section under `list->lock` is one step,
and threads take their steps in any order.  A leaf is numbered when it enters
the list, so that a key that is deleted and inserted again is another leaf.
-/

namespace Jdbx

open Library

/-! ## The calls -/

structure ArtLeaf where
  number : Nat
  key : Bytes
  value : Bytes
  deriving DecidableEq

/-- The calls of a thread. -/
inductive ArtCall where
  | insert (key value : Bytes)
  | delete (key : Bytes)
  | search (key : Bytes)
  | next (iterator : Nat)

/-- Where a thread stands in its call. -/
inductive ArtThread where
  | idle
  /-- The root was `NULL`: about to put a list of its own in its place. -/
  | publish (key value : Bytes)
  /-- Another thread was first: about to load the root again. -/
  | reload (key value : Bytes)
  /-- About to look for a duplicate of the key. -/
  | check (key value : Bytes)
  /-- About to add the leaf. -/
  | append (key value : Bytes)
  /-- About to count the leaf that was added. -/
  | count (key : Bytes)
  | remove (key : Bytes)
  | find (key : Bytes)
  | advance (iterator : Nat)
  deriving DecidableEq

/-- What the calls return. -/
inductive ArtReturn where
  | inserted (key : Bytes) (result : Bool)
  | deleted (key : Bytes) (result : Bool)
  | found (key : Bytes) (value : Option Bytes)
  | yielded (iterator : Nat) (leaf : Option ArtLeaf)
  deriving DecidableEq

/-- `art_t`, its list and its iterators, the threads that use it, and what
their calls have returned. -/
structure ArtState where
  published : Bool
  documents : List ArtLeaf
  size : UInt64
  threads : List ArtThread
  iterators : Nat → Option (ListCursor ArtLeaf)
  entered : Nat
  returns : List ArtReturn

inductive ArtEvent where
  /-- A thread starts a call. -/
  | call (thread : Nat) (call : ArtCall)
  /-- A thread takes the next step of its call. -/
  | step (thread : Nat)
  /-- `skiplist_iterator_create`. -/
  | create (iterator : Nat)

/-- A new skiplist, and a number of threads. -/
def artStart (threads : Nat) : ArtState :=
  { published := false
    documents := []
    size := 0
    threads := List.replicate threads .idle
    iterators := fun _ => none
    entered := 0
    returns := [] }

namespace ArtState

variable (state : ArtState)

def keys : List Bytes :=
  state.documents.map ArtLeaf.key

def goTo (thread : Nat) (place : ArtThread) : ArtState :=
  { state with threads := state.threads.set thread place }

def finish (thread : Nat) (result : ArtReturn) : ArtState :=
  { state with
    threads := state.threads.set thread .idle
    returns := state.returns ++ [result] }

def enter (documents : List ArtLeaf) (key value : Bytes) : ArtState :=
  { state with
    published := true
    documents := documents ++ [{ number := state.entered, key := key, value := value }]
    entered := state.entered + 1 }

def erase (index : Nat) (leaf : ArtLeaf) : ArtState :=
  { state with
    documents := state.documents.eraseIdx index
    size := state.size - 1
    iterators := fun iterator => (state.iterators iterator).map (·.without leaf) }

def moveIterator (iterator : Nat) (cursor : ListCursor ArtLeaf) : ArtState :=
  { state with iterators := Function.update state.iterators iterator (some cursor) }

end ArtState

def keyIndex (documents : List ArtLeaf) (key : Bytes) : Nat :=
  documents.findIdx fun leaf => leaf.key == key

def artCall (state : ArtState) (thread : Nat) : ArtCall → Option ArtState
  | .insert key value =>
    if key = [] then some (state.finish thread (.inserted key false))
    else if state.published then some (state.goTo thread (.check key value))
    else some (state.goTo thread (.publish key value))
  | .delete key =>
    if key = [] ∨ ¬ state.published then some (state.finish thread (.deleted key false))
    else some (state.goTo thread (.remove key))
  | .search key =>
    if key = [] ∨ ¬ state.published then some (state.finish thread (.found key none))
    else some (state.goTo thread (.find key))
  | .next iterator =>
    if (state.iterators iterator).isNone then none
    else if state.published then some (state.goTo thread (.advance iterator))
    else some (state.finish thread (.yielded iterator none))

/-- The cursor is at the end of the list: `iter->stack_depth >= (int)list->count`. -/
def AtEnd (documents : List ArtLeaf) (cursor : ListCursor ArtLeaf) : Prop :=
  (Int32.ofNat documents.length).toInt ≤ cursor.position

instance (documents : List ArtLeaf) (cursor : ListCursor ArtLeaf) :
    Decidable (AtEnd documents cursor) :=
  inferInstanceAs (Decidable ((_ : Int) ≤ _))

/-- `skiplist_iterator_next`, under the lock. -/
def advanceIterator (state : ArtState) (thread iterator : Nat) (cursor : ListCursor ArtLeaf) :
    ArtState :=
  if AtEnd state.documents cursor then state.finish thread (.yielded iterator none)
  else
    match state.documents[cursor.position]? with
    | some leaf =>
      (state.moveIterator iterator (cursor.advance leaf)).finish thread
        (.yielded iterator (some leaf))
    | none => state.finish thread (.yielded iterator none)

/-- The further steps of a call.  The value that a search copies is that of the
leaf it finds. -/
def artAdvance (state : ArtState) (thread : Nat) : ArtThread → Option ArtState
  | .idle => none
  | .publish key value =>
    if state.published then some (state.goTo thread (.reload key value))
    else some ((state.enter [] key value).goTo thread (.count key))
  | .reload key value =>
    if state.published then some (state.goTo thread (.check key value)) else none
  | .check key value =>
    if key ∈ state.keys then some (state.finish thread (.inserted key false))
    else some (state.goTo thread (.append key value))
  | .append key value => some ((state.enter state.documents key value).goTo thread (.count key))
  | .count key => some ({ state with size := state.size + 1 }.finish thread (.inserted key true))
  | .remove key =>
    match state.documents[keyIndex state.documents key]? with
    | some leaf =>
      some ((state.erase (keyIndex state.documents key) leaf).finish thread (.deleted key true))
    | none => some (state.finish thread (.deleted key false))
  | .find key =>
    some (state.finish thread
      (.found key ((state.documents.find? fun leaf => leaf.key == key).map ArtLeaf.value)))
  | .advance iterator => (state.iterators iterator).map (advanceIterator state thread iterator)

def artStep (state : ArtState) : ArtEvent → Option ArtState
  | .call thread call =>
    if state.threads[thread]? = some .idle then artCall state thread call else none
  | .step thread => (state.threads[thread]?).bind (artAdvance state thread)
  | .create iterator => some (state.moveIterator iterator (ListCursor.start state.documents))

namespace ArtThread

def inserting : ArtThread → Option Bytes
  | .publish key _ | .reload key _ | .check key _ | .append key _ | .count key => some key
  | _ => none

def appending : ArtThread → Option Bytes
  | .append key _ => some key
  | _ => none

def counting : ArtThread → Option Bytes
  | .count key => some key
  | _ => none

def knowsList : ArtThread → Bool
  | .check _ _ | .append _ _ => true
  | _ => false

end ArtThread

/-- What holds in a state: no key is there twice, the size is right when no
call is in progress, and each iteration has yielded no leaf twice and, at its
end, every leaf that has been there since it began. -/
structure ArtLaw (state : ArtState) : Prop where
  distinct : state.keys.Nodup
  size : (∀ thread ∈ state.threads, thread = .idle) →
    state.size = UInt64.ofNat state.documents.length
  complete : ∀ iterator cursor, state.iterators iterator = some cursor →
    AtEnd state.documents cursor → ∀ leaf ∈ cursor.present, leaf ∈ cursor.yielded
  once : ∀ iterator cursor, state.iterators iterator = some cursor → cursor.yielded.Nodup

def NotInserting (state : ArtState) (key : Bytes) : Prop :=
  ∀ thread ∈ state.threads, thread.inserting ≠ some key

/-- Of the inserts of an absent key that run between two states, with no
delete of it, exactly one has returned true. -/
def OneInsert (first last : ArtState) : Prop :=
  let returns := last.returns.drop first.returns.length
  ∀ key, key ∉ first.keys → NotInserting first key → NotInserting last key →
    .deleted key true ∉ returns → (∃ result, .inserted key result ∈ returns) →
      returns.count (.inserted key true) = 1

/-- The condition on a step.  A key that is not in the list is not looked for
while another thread is about to add it.  No leaf is deleted before the
position of an iteration that has leaves to come.  The list does not grow to
`2^31` leaves, and no key is empty. -/
def Orderly (state : ArtState) : ArtEvent → Prop
  | .call _ (.insert key _) => key ≠ []
  | .step thread =>
    match state.threads[thread]? with
    | some (.check key _) =>
      key ∈ state.keys ∨ ∀ other ∈ state.threads, other.appending ≠ some key
    | some (.publish _ _) | some (.append _ _) => state.documents.length + 1 < 2 ^ 31
    | some (.remove key) =>
      ∀ iterator cursor, state.iterators iterator = some cursor →
        keyIndex state.documents key < cursor.position →
          state.documents.length ≤ cursor.position
    | _ => True
  | _ => True

/-- The effects of a step. -/
inductive ArtEffect (state : ArtState) : ArtEvent → ArtState → Prop
  /-- A thread goes on, without a change. -/
  | moved {event : ArtEvent} {thread : Nat} {old new : ArtThread}
      (found : state.threads[thread]? = some old) (notCounting : old.counting = none)
      (notCounted : new.counting = none) (notAppending : new.appending = none)
      (knows : new.knowsList → state.published) :
      ArtEffect state event (state.goTo thread new)
  /-- A thread returns, without a change. -/
  | returned {event : ArtEvent} {thread : Nat} {old : ArtThread} {result : ArtReturn}
      (found : state.threads[thread]? = some old) (notCounting : old.counting = none)
      (unchanged : ∀ key, result ≠ .inserted key true ∧ result ≠ .deleted key true)
      (refused : ∀ key, result = .inserted key false → key ∈ state.keys ∨
        ∃ value, event = .call thread (.insert key value) ∧ key = []) :
      ArtEffect state event (state.finish thread result)
  /-- A thread has not found the key that it inserts. -/
  | checked {thread : Nat} {key value : Bytes}
      (found : state.threads[thread]? = some (.check key value)) (absent : key ∉ state.keys) :
      ArtEffect state (.step thread) (state.goTo thread (.append key value))
  /-- A leaf enters the list. -/
  | entered {thread : Nat} {old : ArtThread} {key value : Bytes}
      (found : state.threads[thread]? = some old)
      (place : old = .append key value ∨ old = .publish key value ∧ state.published = false)
      (documents : state.published = false → state.documents = []) :
      ArtEffect state (.step thread)
        ((state.enter state.documents key value).goTo thread (.count key))
  | counted {thread : Nat} {key : Bytes} (found : state.threads[thread]? = some (.count key)) :
      ArtEffect state (.step thread)
        ({ state with size := state.size + 1 }.finish thread (.inserted key true))
  | removed {thread : Nat} {key : Bytes} {leaf : ArtLeaf}
      (found : state.threads[thread]? = some (.remove key))
      (held : state.documents[keyIndex state.documents key]? = some leaf)
      (same : leaf.key = key) :
      ArtEffect state (.step thread)
        ((state.erase (keyIndex state.documents key) leaf).finish thread (.deleted key true))
  | created (iterator : Nat) :
      ArtEffect state (.create iterator)
        (state.moveIterator iterator (ListCursor.start state.documents))
  | yielded {thread iterator : Nat} {cursor : ListCursor ArtLeaf} {leaf : ArtLeaf}
      (found : state.threads[thread]? = some (.advance iterator))
      (iterating : state.iterators iterator = some cursor)
      (held : state.documents[cursor.position]? = some leaf) :
      ArtEffect state (.step thread)
        ((state.moveIterator iterator (cursor.advance leaf)).finish thread
          (.yielded iterator (some leaf)))

variable {state next : ArtState} {event : ArtEvent} {threads : List ArtThread} {index : Nat}
  {old : ArtThread}

theorem key_of_keyIndex {documents : List ArtLeaf} {key : Bytes} {leaf : ArtLeaf}
    (held : documents[keyIndex documents key]? = some leaf) : leaf.key = key := by
  obtain ⟨inside, rfl⟩ := List.getElem?_eq_some_iff.mp held
  exact eq_of_beq (List.findIdx_getElem (w := inside))

theorem artEffect_of_step (unpublished : state.published = false → state.documents = [])
    (taken : artStep state event = some next) : ArtEffect state event next := by
  cases event with
  | create iterator =>
    cases taken
    exact .created iterator
  | call thread call =>
    rw [artStep] at taken
    split_ifs at taken with idle
    cases call with
    | insert key value =>
      rw [artCall] at taken
      split_ifs at taken with empty published
      · cases taken
        refine .returned idle rfl (by simp) fun other same => Or.inr ⟨value, ?_⟩
        cases same
        exact ⟨rfl, empty⟩
      · cases taken
        exact .moved idle rfl rfl rfl fun _ => published
      · cases taken
        exact .moved idle rfl rfl rfl (by simp [ArtThread.knowsList])
    | delete key =>
      rw [artCall] at taken
      split_ifs at taken
      · cases taken
        exact .returned idle rfl (by simp) (by simp)
      · cases taken
        exact .moved idle rfl rfl rfl (by simp [ArtThread.knowsList])
    | search key =>
      rw [artCall] at taken
      split_ifs at taken
      · cases taken
        exact .returned idle rfl (by simp) (by simp)
      · cases taken
        exact .moved idle rfl rfl rfl (by simp [ArtThread.knowsList])
    | next iterator =>
      rw [artCall] at taken
      split_ifs at taken
      · cases taken
        exact .moved idle rfl rfl rfl (by simp [ArtThread.knowsList])
      · cases taken
        exact .returned idle rfl (by simp) (by simp)
  | step thread =>
    obtain ⟨place, found, taken⟩ := Option.bind_eq_some_iff.mp taken
    cases place with
    | idle => cases taken
    | publish key value =>
      rw [artAdvance] at taken
      split_ifs at taken with published
      · cases taken
        exact .moved found rfl rfl rfl (by simp [ArtThread.knowsList])
      · cases taken
        have notYet : state.published = false := eq_false_of_ne_true published
        rw [← unpublished notYet]
        exact .entered found (Or.inr ⟨rfl, notYet⟩) unpublished
    | reload key value =>
      rw [artAdvance] at taken
      split_ifs at taken with published
      cases taken
      exact .moved found rfl rfl rfl fun _ => published
    | check key value =>
      rw [artAdvance] at taken
      split_ifs at taken with present
      · cases taken
        refine .returned found rfl (by simp) fun other same => Or.inl ?_
        cases same
        exact present
      · cases taken
        exact .checked found present
    | append key value =>
      cases taken
      exact .entered found (Or.inl rfl) unpublished
    | count key =>
      cases taken
      exact .counted found
    | remove key =>
      rw [artAdvance] at taken
      split at taken
      · rename_i leaf held
        cases taken
        exact .removed found held (key_of_keyIndex held)
      · cases taken
        exact .returned found rfl (by simp) (by simp)
    | find key =>
      cases taken
      exact .returned found rfl (by simp) (by simp)
    | advance iterator =>
      obtain ⟨cursor, iterating, rfl⟩ := Option.map_eq_some_iff.mp taken
      rw [advanceIterator]
      split_ifs
      · exact .returned found rfl (by simp) (by simp)
      · split
        · rename_i leaf held
          exact .yielded found iterating held
        · exact .returned found rfl (by simp) (by simp)

theorem iterators_moveIterator {iterator other : Nat} {moved cursor : ListCursor ArtLeaf}
    (found : (state.moveIterator iterator moved).iterators other = some cursor) :
    other = iterator ∧ cursor = moved ∨ state.iterators other = some cursor := by
  simp only [ArtState.moveIterator, Function.update_apply] at found
  split_ifs at found with same
  · exact Or.inl ⟨same, (Option.some.inj found).symm⟩
  · exact Or.inr found

structure ArtBase (state : ArtState) : Prop where
  unpublished : state.published = false → state.documents = []
  listed : ∀ thread ∈ state.threads, thread.knowsList → state.published = true
  nodup : state.documents.Nodup
  below : ∀ leaf ∈ state.documents, leaf.number < state.entered
  once : ∀ iterator cursor, state.iterators iterator = some cursor →
    cursor.Once state.documents ∧ ∀ leaf ∈ cursor.yielded, leaf.number < state.entered

theorem artBase_start (threads : Nat) : ArtBase (artStart threads) := by
  refine ⟨fun _ => rfl, ?_, List.nodup_nil, by simp [artStart], by simp [artStart]⟩
  intro thread member knows
  rw [List.eq_of_mem_replicate member] at knows
  cases knows

theorem ArtBase.enter_once (base : ArtBase state) (key value : Bytes) {iterator : Nat}
    {cursor : ListCursor ArtLeaf} (found : state.iterators iterator = some cursor) :
    cursor.Once (state.enter state.documents key value).documents ∧
      ∀ leaf ∈ cursor.yielded, leaf.number < state.entered + 1 := by
  obtain ⟨once, older⟩ := base.once iterator cursor found
  refine ⟨once.append fun yielded => ?_, fun leaf member => Nat.lt_succ_of_lt (older leaf member)⟩
  exact absurd (older _ yielded) (lt_irrefl _)

theorem ArtBase.enter_nodup (base : ArtBase state) (key value : Bytes) :
    (state.enter state.documents key value).documents.Nodup := by
  refine base.nodup.append (List.nodup_singleton _) ?_
  rw [List.disjoint_singleton]
  exact fun member => absurd (base.below _ member) (lt_irrefl _)

theorem artBase_step (base : ArtBase state) (taken : artStep state event = some next) :
    ArtBase next := by
  cases artEffect_of_step base.unpublished taken with
  | moved found notCounting notCounted notAppending knows =>
    exact ⟨base.unpublished, forall_mem_set base.listed knows _, base.nodup, base.below,
      base.once⟩
  | returned found notCounting unchanged refused =>
    exact ⟨base.unpublished, forall_mem_set base.listed (by simp [ArtThread.knowsList]) _,
      base.nodup, base.below, base.once⟩
  | checked found absent =>
    have published := base.listed _ (List.mem_of_getElem? found) rfl
    exact ⟨base.unpublished, forall_mem_set base.listed (fun _ => published) _, base.nodup,
      base.below, base.once⟩
  | @entered thread old key value found place documents =>
    refine ⟨fun unpublished => absurd unpublished Bool.noConfusion,
      forall_mem_set (fun _ _ _ => rfl) (fun _ => rfl) _, base.enter_nodup key value, ?_,
      fun iterator cursor => base.enter_once key value⟩
    intro leaf member
    rcases List.mem_append.mp member with old | new
    · exact Nat.lt_succ_of_lt (base.below leaf old)
    · rw [List.mem_singleton.mp new]
      exact Nat.lt_succ_self state.entered
  | counted found =>
    exact ⟨base.unpublished, forall_mem_set base.listed (by simp [ArtThread.knowsList]) _,
      base.nodup, base.below, base.once⟩
  | @removed thread key leaf found held same =>
    refine ⟨fun unpublished => ?_, forall_mem_set base.listed (by simp [ArtThread.knowsList]) _,
      base.nodup.sublist (List.eraseIdx_sublist _ _),
      fun tested member => base.below tested ((List.eraseIdx_sublist _ _).mem member), ?_⟩
    · rw [base.unpublished unpublished] at held
      cases held
    · intro iterator cursor iterating
      obtain ⟨earlier, before, rfl⟩ := Option.map_eq_some_iff.mp iterating
      obtain ⟨once, older⟩ := base.once iterator earlier before
      exact ⟨once.erase _ leaf, older⟩
  | created iterator =>
    refine ⟨base.unpublished, base.listed, base.nodup, base.below, ?_⟩
    intro other cursor iterating
    rcases iterators_moveIterator iterating with ⟨rfl, rfl⟩ | before
    · exact ⟨ListCursor.once_start _, fun leaf member => absurd member List.not_mem_nil⟩
    · exact base.once other cursor before
  | @yielded thread iterator earlier leaf found iterating held =>
    refine ⟨base.unpublished, forall_mem_set base.listed (by simp [ArtThread.knowsList]) _,
      base.nodup, base.below, ?_⟩
    intro other cursor after
    rcases iterators_moveIterator after with ⟨rfl, rfl⟩ | before
    · obtain ⟨once, older⟩ := base.once other earlier iterating
      refine ⟨once.advance base.nodup held, fun tested member => ?_⟩
      rcases List.mem_append.mp member with old | new
      · exact older tested old
      · rw [List.mem_singleton.mp new]
        exact base.below leaf (List.mem_of_getElem? held)
    · exact base.once other cursor before

def uncounted (threads : List ArtThread) : Nat :=
  threads.countP fun thread => thread.counting.isSome

def Sized (state : ArtState) : Prop :=
  state.size + UInt64.ofNat (uncounted state.threads) = UInt64.ofNat state.documents.length

theorem uncounted_set (found : threads[index]? = some old) (new : ArtThread) :
    uncounted (threads.set index new) + (if old.counting.isSome then 1 else 0) =
      uncounted threads + (if new.counting.isSome then 1 else 0) :=
  countP_set found new _

theorem uncounted_set_eq (found : threads[index]? = some old) (notCounting : old.counting = none)
    (new : ArtThread) (notCounted : new.counting = none) :
    uncounted (threads.set index new) = uncounted threads := by
  have counts := uncounted_set found new
  simpa [notCounting, notCounted] using counts

theorem sized_start (threads : Nat) : Sized (artStart threads) := by
  have noThread : uncounted (List.replicate threads .idle) = 0 := by
    simp [uncounted, ArtThread.counting]
  simp only [Sized, artStart, noThread]
  rfl

theorem sized_step (base : ArtBase state) (sized : Sized state)
    (taken : artStep state event = some next) : Sized next := by
  rw [Sized] at sized
  cases artEffect_of_step base.unpublished taken with
  | moved found notCounting notCounted notAppending knows =>
    simp only [Sized, ArtState.goTo, uncounted_set_eq found notCounting _ notCounted]
    exact sized
  | returned found notCounting unchanged refused =>
    simp only [Sized, ArtState.finish, uncounted_set_eq found notCounting .idle rfl]
    exact sized
  | @checked thread key value found absent =>
    simp only [Sized, ArtState.goTo, uncounted_set_eq found rfl (.append key value) rfl]
    exact sized
  | @entered thread old key value found place documents =>
    have notCounting : old.counting = none := by
      rcases place with rfl | ⟨rfl, _⟩ <;> rfl
    have counts := uncounted_set found (.count key)
    rw [notCounting] at counts
    simp only [Option.isSome_none, Bool.false_eq_true, ↓reduceIte, Nat.add_zero,
      ArtThread.counting, Option.isSome_some] at counts
    simp only [Sized, ArtState.goTo, ArtState.enter, counts, List.length_append,
      List.length_singleton, UInt64.ofNat_add]
    rw [← sized, UInt64.add_assoc]
  | @counted thread key found =>
    have counts := uncounted_set found .idle
    simp only [ArtThread.counting, Option.isSome_some, ↓reduceIte, Option.isSome_none,
      Bool.false_eq_true, Nat.add_zero] at counts
    simp only [Sized, ArtState.finish]
    rw [← sized, ← counts, UInt64.ofNat_add]
    grind
  | @removed thread key leaf found held same =>
    have inside : keyIndex state.documents key < state.documents.length :=
      (List.getElem?_eq_some_iff.mp held).1
    simp only [Sized, ArtState.finish, ArtState.erase, uncounted_set_eq found rfl .idle rfl,
      List.length_eraseIdx_of_lt inside]
    rw [UInt64.ofNat_sub (by omega), ← sized]
    grind
  | created iterator => exact sized
  | yielded found iterating held =>
    simp only [Sized, ArtState.finish, ArtState.moveIterator,
      uncounted_set_eq found rfl .idle rfl]
    exact sized

def pendingKeys (threads : List ArtThread) : List Bytes :=
  threads.filterMap ArtThread.appending

def KeysApart (state : ArtState) : Prop :=
  (state.keys ++ pendingKeys state.threads).Nodup

theorem pendingKeys_set (found : threads[index]? = some old) (new : ArtThread) :
    ∃ others, (pendingKeys threads).Perm (old.appending.toList ++ others) ∧
      (pendingKeys (threads.set index new)).Perm (new.appending.toList ++ others) :=
  filterMap_set_perm ArtThread.appending found new

theorem KeysApart.set_none (apart : KeysApart state) {old new : ArtThread}
    (found : state.threads[index]? = some old) (notAppending : new.appending = none)
    {keys : List Bytes} (fewer : keys.Sublist state.keys) :
    (keys ++ pendingKeys (state.threads.set index new)).Nodup := by
  obtain ⟨others, before, after⟩ := pendingKeys_set found new
  rw [notAppending, Option.toList_none, List.nil_append] at after
  have all := (List.Perm.append_left state.keys before).nodup_iff.mp apart
  have some : (keys ++ others).Nodup :=
    all.sublist (fewer.append (List.sublist_append_right _ _))
  exact (List.Perm.append_left keys after).nodup_iff.mpr some

/-- An absent key is not looked for while another thread is about to add it. -/
def ChecksAlone (state : ArtState) : ArtEvent → Prop
  | .step thread =>
    match state.threads[thread]? with
    | some (.check key _) =>
      key ∈ state.keys ∨ ∀ other ∈ state.threads, other.appending ≠ some key
    | _ => True
  | _ => True

theorem Orderly.checksAlone (orderly : Orderly state event) : ChecksAlone state event := by
  cases event with
  | step thread =>
    rw [ChecksAlone]
    rw [Orderly] at orderly
    cases place : state.threads[thread]? with
    | none => trivial
    | some old =>
      rw [place] at orderly
      cases old with
      | check key value => exact orderly
      | idle | publish _ _ | reload _ _ | append _ _ | count _ | remove _ | find _
      | advance _ => trivial
  | call _ _ | create _ => trivial

theorem keysApart_step (base : ArtBase state) (apart : KeysApart state)
    (alone : ChecksAlone state event) (taken : artStep state event = some next) :
    KeysApart next := by
  cases artEffect_of_step base.unpublished taken with
  | moved found notCounting notCounted notAppending knows =>
    exact apart.set_none found notAppending (List.Sublist.refl _)
  | returned found notCounting unchanged refused =>
    exact apart.set_none found rfl (List.Sublist.refl _)
  | @checked thread key value found absent =>
    obtain ⟨others, before, after⟩ := pendingKeys_set found (.append key value)
    simp only [ChecksAlone, found] at alone
    have notPending : key ∉ pendingKeys state.threads := by
      intro member
      obtain ⟨other, listed, same⟩ := List.mem_filterMap.mp member
      exact (alone.resolve_left absent) other listed same
    have all := (List.Perm.append_left state.keys before).nodup_iff.mp apart
    have fresh : key ∉ state.keys ++ others := by
      rw [List.mem_append]
      refine not_or.mpr ⟨absent, fun member => notPending ?_⟩
      exact before.mem_iff.mpr (List.mem_append_right _ member)
    refine (List.Perm.append_left state.keys after).nodup_iff.mpr ?_
    exact (List.perm_middle).nodup_iff.mpr (List.nodup_cons.mpr ⟨fresh, all⟩)
  | @entered thread old key value found place documents =>
    have keys : (state.enter state.documents key value).keys = state.keys ++ [key] := by
      simp [ArtState.keys, ArtState.enter]
    obtain ⟨others, before, after⟩ := pendingKeys_set found (.count key)
    have apart := (List.Perm.append_left state.keys before).nodup_iff.mp apart
    show ((state.enter state.documents key value).keys ++ _).Nodup
    rw [keys, List.append_assoc]
    refine (List.Perm.append_left state.keys (after.append_left [key])).nodup_iff.mpr ?_
    rcases place with rfl | ⟨rfl, unpublished⟩
    · exact apart
    · have noKeys : state.keys = [] := by
        rw [ArtState.keys, documents unpublished, List.map_nil]
      have noneListed : pendingKeys state.threads = [] := by
        rw [pendingKeys, List.filterMap_eq_nil_iff]
        intro thread member
        have notKnown := mt (base.listed thread member) (by simp [unpublished])
        cases thread <;> simp_all [ArtThread.knowsList, ArtThread.appending]
      rw [noneListed] at before
      have noOthers : others = [] := by
        simpa [ArtThread.appending] using before.nil_eq.symm
      simp [noKeys, noOthers, ArtThread.appending]
  | counted found => exact apart.set_none found rfl (List.Sublist.refl _)
  | removed found held same => exact apart.set_none found rfl ((List.eraseIdx_sublist _ _).map _)
  | created iterator => exact apart
  | yielded found iterating held => exact apart.set_none found rfl (List.Sublist.refl _)

/-- The list is short enough for an `int`, and every iteration still covers
what has been there since it began. -/
structure ArtCovered (state : ArtState) : Prop where
  short : state.documents.length < 2 ^ 31
  covers : ∀ iterator cursor, state.iterators iterator = some cursor →
    cursor.Covers state.documents

theorem artCovered_step (base : ArtBase state) (covered : ArtCovered state)
    (orderly : Orderly state event) (taken : artStep state event = some next) :
    ArtCovered next := by
  cases artEffect_of_step base.unpublished taken with
  | moved found notCounting notCounted notAppending knows => exact ⟨covered.short, covered.covers⟩
  | returned found notCounting unchanged refused => exact ⟨covered.short, covered.covers⟩
  | checked found absent => exact ⟨covered.short, covered.covers⟩
  | @entered thread old key value found place documents =>
    have longer : state.documents.length + 1 < 2 ^ 31 := by
      rcases place with rfl | ⟨rfl, _⟩ <;> simpa only [Orderly, found] using orderly
    refine ⟨?_, fun iterator cursor iterating =>
      (covered.covers iterator cursor iterating).append _⟩
    simpa [ArtState.goTo, ArtState.enter] using longer
  | counted found => exact ⟨covered.short, covered.covers⟩
  | @removed thread key leaf found held same =>
    simp only [Orderly, found] at orderly
    refine ⟨lt_of_le_of_lt ?_ covered.short, ?_⟩
    · exact (List.eraseIdx_sublist state.documents _).length_le
    · intro iterator cursor iterating
      obtain ⟨earlier, before, rfl⟩ := Option.map_eq_some_iff.mp iterating
      exact (covered.covers iterator earlier before).erase held (orderly iterator earlier before)
  | created iterator =>
    refine ⟨covered.short, fun other cursor iterating => ?_⟩
    rcases iterators_moveIterator iterating with ⟨rfl, rfl⟩ | before
    · exact ListCursor.covers_start _
    · exact covered.covers other cursor before
  | @yielded thread iterator earlier leaf found iterating held =>
    refine ⟨covered.short, fun other cursor after => ?_⟩
    rcases iterators_moveIterator after with ⟨rfl, rfl⟩ | before
    · exact (covered.covers other earlier iterating).advance held
    · exact covered.covers other cursor before

theorem ArtCovered.at_end (covered : ArtCovered state) {iterator : Nat}
    {cursor : ListCursor ArtLeaf} (iterating : state.iterators iterator = some cursor)
    (atEnd : AtEnd state.documents cursor) : ∀ leaf ∈ cursor.present, leaf ∈ cursor.yielded := by
  refine (covered.covers iterator cursor iterating).at_end ?_
  have short := covered.short
  rw [AtEnd, Int32.toInt_ofNat_of_lt short] at atEnd
  exact Int.ofNat_le.mp atEnd

/-! ## One insert -/

def uncountedKey (threads : List ArtThread) (key : Bytes) : Nat :=
  threads.countP (·.counting = some key)

theorem uncountedKey_set (found : threads[index]? = some old) (new : ArtThread) (key : Bytes) :
    uncountedKey (threads.set index new) key + (if old.counting = some key then 1 else 0) =
      uncountedKey threads key + (if new.counting = some key then 1 else 0) := by
  simpa [uncountedKey] using countP_set found new fun thread => decide (thread.counting = some key)

theorem uncountedKey_set_eq (found : threads[index]? = some old)
    (notCounting : old.counting = none) (new : ArtThread) (notCounted : new.counting = none)
    (key : Bytes) :
    uncountedKey (threads.set index new) key = uncountedKey threads key := by
  have counts := uncountedKey_set found new key
  simpa [notCounting, notCounted] using counts

theorem count_keys_erase {documents : List ArtLeaf} {leaf : ArtLeaf}
    (held : documents[index]? = some leaf) (key : Bytes) :
    ((documents.eraseIdx index).map ArtLeaf.key).count key +
        (if leaf.key = key then 1 else 0) =
      (documents.map ArtLeaf.key).count key := by
  induction documents generalizing index with
  | nil => cases held
  | cons first documents ih =>
    cases index with
    | zero =>
      cases held
      simp [List.count_cons]
    | succ index =>
      have rest := ih held
      simp only [List.eraseIdx_cons_succ, List.map_cons, List.count_cons]
      omega

/-- Each leaf with the key that has entered since a state is counted by an
insert that returned true, or still to be counted. -/
def LeavesBalanced (first state : ArtState) (returns : List ArtReturn) (key : Bytes) : Prop :=
  returns.count (.inserted key true) + uncountedKey state.threads key + first.keys.count key =
    returns.count (.deleted key true) + state.keys.count key + uncountedKey first.threads key

/-- What has been returned since a state, and what it says of a key: an insert
is refused only while the key is there. -/
structure ArtWindow (first state : ArtState) (returns : List ArtReturn) : Prop where
  returned : state.returns = first.returns ++ returns
  balanced : ∀ key, LeavesBalanced first state returns key
  refused : ∀ key, .deleted key true ∉ returns → .inserted key false ∈ returns → key ∈ state.keys

theorem artWindow_first (first : ArtState) : ArtWindow first first [] :=
  ⟨(List.append_nil _).symm, fun key => by simp [LeavesBalanced, Nat.add_comm],
    fun key _ member => absurd member List.not_mem_nil⟩

theorem artWindow_step {first : ArtState} {returns : List ArtReturn} (base : ArtBase state)
    (window : ArtWindow first state returns) (orderly : Orderly state event)
    (taken : artStep state event = some next) : ∃ returns, ArtWindow first next returns := by
  cases artEffect_of_step base.unpublished taken with
  | @moved event thread old new found notCounting notCounted notAppending knows =>
    refine ⟨returns, window.returned, fun key => ?_, window.refused⟩
    rw [LeavesBalanced, ArtState.goTo, uncountedKey_set_eq found notCounting new notCounted]
    exact window.balanced key
  | @returned event thread old result found notCounting unchanged refused =>
    refine ⟨returns ++ [result], ?_, fun key => ?_, fun key notDeleted member => ?_⟩
    · rw [ArtState.finish, window.returned, List.append_assoc]
    · have balanced := window.balanced key
      rw [LeavesBalanced] at balanced ⊢
      rw [ArtState.finish, uncountedKey_set_eq found notCounting .idle rfl,
        List.count_append, List.count_append,
        List.count_singleton, List.count_singleton,
        if_neg (by simpa using (unchanged key).1), if_neg (by simpa using (unchanged key).2)]
      exact balanced
    · rcases List.mem_append.mp member with old | new
      · exact window.refused key (fun deleted => notDeleted (List.mem_append_left _ deleted)) old
      · rcases refused key (List.mem_singleton.mp new).symm with present | ⟨value, rfl, rfl⟩
        · exact present
        · exact absurd rfl orderly
  | @checked thread key value found absent =>
    refine ⟨returns, window.returned, fun tested => ?_, window.refused⟩
    rw [LeavesBalanced, ArtState.goTo, uncountedKey_set_eq found rfl (.append key value) rfl]
    exact window.balanced tested
  | @entered thread old key value found place documents =>
    refine ⟨returns, window.returned, fun tested => ?_, fun tested notDeleted member => ?_⟩
    · have notCounting : old.counting = none := by
        rcases place with rfl | ⟨rfl, _⟩ <;> rfl
      have counts := uncountedKey_set found (.count key) tested
      rw [notCounting] at counts
      have keys : ((state.enter state.documents key value).goTo thread (.count key)).keys =
          state.keys ++ [key] := by
        simp [ArtState.keys, ArtState.enter, ArtState.goTo]
      have balanced := window.balanced tested
      rw [LeavesBalanced] at balanced ⊢
      rw [keys, List.count_append, List.count_singleton]
      simp only [ArtState.goTo, ArtState.enter, ArtThread.counting, Option.some.injEq,
        reduceCtorEq, ↓reduceIte, Nat.add_zero, beq_iff_eq] at counts ⊢
      omega
    · exact List.mem_map.mpr (by
        obtain ⟨leaf, listed, same⟩ := List.mem_map.mp (window.refused tested notDeleted member)
        exact ⟨leaf, List.mem_append_left _ listed, same⟩)
  | @counted thread key found =>
    refine ⟨returns ++ [.inserted key true], ?_, fun tested => ?_,
      fun tested notDeleted member => ?_⟩
    · rw [ArtState.finish, window.returned, List.append_assoc]
    · have counts := uncountedKey_set found .idle tested
      have balanced := window.balanced tested
      rw [LeavesBalanced] at balanced ⊢
      rw [List.count_append, List.count_append, List.count_singleton, List.count_singleton]
      simp only [ArtState.finish, ArtState.keys, ArtThread.counting, Option.some.injEq,
        reduceCtorEq, ↓reduceIte, Nat.add_zero, beq_iff_eq, ArtReturn.inserted.injEq,
        and_true] at counts balanced ⊢
      omega
    · refine window.refused tested (fun deleted => notDeleted (List.mem_append_left _ deleted)) ?_
      simpa using member
  | @removed thread key leaf found held same =>
    refine ⟨returns ++ [.deleted key true], ?_, fun tested => ?_,
      fun tested notDeleted member => ?_⟩
    · rw [ArtState.finish, ArtState.erase, window.returned, List.append_assoc]
    · have counts := count_keys_erase held tested
      have balanced := window.balanced tested
      rw [LeavesBalanced] at balanced ⊢
      rw [List.count_append, List.count_append, List.count_singleton, List.count_singleton]
      simp only [ArtState.finish, ArtState.erase, ArtState.keys, same,
        uncountedKey_set_eq found rfl .idle rfl, reduceCtorEq, ↓reduceIte, Nat.add_zero,
        beq_iff_eq, ArtReturn.deleted.injEq, and_true] at counts balanced ⊢
      omega
    · have other : leaf.key ≠ tested := by
        rintro rfl
        exact notDeleted (List.mem_append_right _ (by simp [same]))
      have old : .inserted tested false ∈ returns := by simpa using member
      have present := window.refused tested
        (fun deleted => notDeleted (List.mem_append_left _ deleted)) old
      have counts := count_keys_erase held tested
      rw [if_neg other, Nat.add_zero] at counts
      rw [ArtState.keys, ← List.count_pos_iff, ← counts] at present
      exact List.count_pos_iff.mp present
  | created iterator => exact ⟨returns, window.returned, window.balanced, window.refused⟩
  | @yielded thread iterator earlier leaf found iterating held =>
    refine ⟨returns ++ [.yielded iterator (some leaf)], ?_, fun tested => ?_,
      fun tested notDeleted member => ?_⟩
    · rw [ArtState.finish, ArtState.moveIterator, window.returned, List.append_assoc]
    · have balanced := window.balanced tested
      rw [LeavesBalanced] at balanced ⊢
      rw [ArtState.finish, ArtState.moveIterator, uncountedKey_set_eq found rfl .idle rfl,
        List.count_append, List.count_append, List.count_singleton, List.count_singleton,
        if_neg (by simp), if_neg (by simp)]
      exact balanced
    · refine window.refused tested (fun deleted => notDeleted (List.mem_append_left _ deleted)) ?_
      simpa using member

theorem uncountedKey_eq_zero {key : Bytes} (notInserting : NotInserting state key) :
    uncountedKey state.threads key = 0 := by
  rw [uncountedKey, List.countP_eq_zero]
  intro thread member counting
  refine notInserting thread member ?_
  cases thread <;> simp_all [ArtThread.counting, ArtThread.inserting]

theorem ArtWindow.oneInsert {first : ArtState} {returns : List ArtReturn}
    (window : ArtWindow first state returns) (apart : KeysApart state) : OneInsert first state := by
  have since : state.returns.drop first.returns.length = returns := by
    rw [window.returned, List.drop_left]
  rw [OneInsert, since]
  intro key absent before after notDeleted ⟨result, member⟩
  have balanced := window.balanced key
  rw [LeavesBalanced, uncountedKey_eq_zero before, uncountedKey_eq_zero after,
    List.count_eq_zero.mpr absent, List.count_eq_zero.mpr notDeleted] at balanced
  have atMostOne : state.keys.count key ≤ 1 :=
    List.nodup_iff_count_le_one.mp (List.nodup_append.mp apart).1 key
  have atLeastOne : 0 < returns.count (.inserted key true) := by
    cases result with
    | true => exact List.count_pos_iff.mpr member
    | false =>
      have present := List.count_pos_iff.mpr (window.refused key notDeleted member)
      omega
  omega

structure ArtInvariant (state : ArtState) : Prop where
  base : ArtBase state
  sized : Sized state
  apart : KeysApart state
  covered : ArtCovered state

theorem artInvariant_start (threads : Nat) : ArtInvariant (artStart threads) := by
  refine ⟨artBase_start threads, sized_start threads, ?_, by simp [artStart], by simp [artStart]⟩
  have nonePending : pendingKeys (List.replicate threads .idle) = [] := by
    simp [pendingKeys, ArtThread.appending]
  simp [KeysApart, artStart, ArtState.keys, nonePending]

theorem keeps_artInvariant : Keeps artStep Orderly ArtInvariant :=
  fun _ _ _ holds orderly taken =>
    ⟨artBase_step holds.base taken, sized_step holds.base holds.sized taken,
      keysApart_step holds.base holds.apart orderly.checksAlone taken,
      artCovered_step holds.base holds.covered orderly taken⟩

theorem ArtInvariant.law (holds : ArtInvariant state) : ArtLaw state := by
  refine ⟨(List.nodup_append.mp holds.apart).1, fun idle => ?_,
    fun iterator cursor iterating => holds.covered.at_end iterating,
    fun iterator cursor iterating => (holds.base.once iterator cursor iterating).1.nodup⟩
  have noneLeft : uncounted state.threads = 0 := by
    rw [uncounted, List.countP_eq_zero]
    intro thread member
    rw [idle thread member]
    simp [ArtThread.counting]
  have sized := holds.sized
  rw [Sized, noneLeft] at sized
  simpa using sized

def doubleInsert : List ArtEvent :=
  [.call 0 (.insert (ascii "a") (ascii "1")), .step 0, .step 0,
    .call 0 (.insert (ascii "k") (ascii "2")), .call 1 (.insert (ascii "k") (ascii "3")),
    .step 0, .step 1, .step 0, .step 1, .step 0, .step 1]

end Jdbx
