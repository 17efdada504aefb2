import Jdbx.Database.UnifiedDocuments
import Jdbx.Library.GuardedRun
import Jdbx.Library.ThreadList
import Mathlib.Data.List.Permutation

/-!
# Concurrent updates of one document

Each lock operation, each read of a map and each write to a map is one step of
`storage_update_document`.  The library and the collection, with their locks,
are the values of maps that copy what they return: every call locks blocks of
its own.
-/

namespace Jdbx

open Library

def textsOf (uuid : Bytes) (documents : List (Bytes × Bytes)) : List Bytes :=
  (documents.filter fun entry => entry.1 = uuid).map Prod.snd

section Texts

variable (uuid : Bytes) (documents : List (Bytes × Bytes))

theorem getEntry_eq_head : getEntry uuid documents = (textsOf uuid documents).head? := by
  induction documents with
  | nil => rfl
  | cons entry documents ih =>
    by_cases same : entry.1 = uuid
    · simp [getEntry, textsOf, same]
    · simpa [getEntry, textsOf, same] using ih

theorem textsOf_removeEntry :
    textsOf uuid (removeEntry uuid documents) = (textsOf uuid documents).tail := by
  induction documents with
  | nil => rfl
  | cons entry documents ih =>
    by_cases same : entry.1 = uuid
    · simp [removeEntry, textsOf, same]
    · simpa [removeEntry, textsOf, same] using ih

theorem textsOf_append (text : Bytes) :
    textsOf uuid (documents ++ [(uuid, text)]) = textsOf uuid documents ++ [text] := by
  simp [textsOf]

theorem textsOf_eq_nil : textsOf uuid documents = [] ↔ uuid ∉ entryKeys documents := by
  rw [← getEntry_eq_none_iff, getEntry_eq_head, List.head?_eq_none_iff]

theorem textsOf_distinct (documents : DocumentList) :
    textsOf uuid documents.entries = (getEntry uuid documents.entries).toList := by
  have noOther : (textsOf uuid documents.entries).tail = [] := by
    rw [← textsOf_removeEntry, textsOf_eq_nil, ← getEntry_eq_none_iff]
    exact getEntry_removeEntry_self documents.distinct
  rw [getEntry_eq_head]
  cases texts : textsOf uuid documents.entries with
  | nil => rfl
  | cons text rest =>
    rw [texts, List.tail_cons] at noOther
    rw [noOther]
    rfl

end Texts

/-! ## The steps of an update -/

structure RwLock where
  writer : Bool
  readers : Nat

/-- `pthread_rwlock_init`. -/
def RwLock.free : RwLock :=
  { writer := false, readers := 0 }

/-- A call of `storage_update_document`. -/
structure UpdateCall (δ : Type) where
  moment : Moment
  document : JsonValue δ

/-- Where a thread stands in `storage_update_document`, with the blocks of its
library and its collection, and the text it is about to store. -/
inductive UpdateThread (δ : Type) where
  | idle
  | lockDatabase (call : UpdateCall δ)
  | findLibrary (call : UpdateCall δ)
  | findLibraryAgain (call : UpdateCall δ)
  | lockLibrary (call : UpdateCall δ) (library : Nat)
  | findCollection (call : UpdateCall δ) (library : Nat)
  | unlockLibrary (call : UpdateCall δ) (library collection : Nat)
  | lockCollection (call : UpdateCall δ) (collection : Nat)
  | unlockDatabase (call : UpdateCall δ) (collection : Nat)
  | search (call : UpdateCall δ) (collection : Nat)
  | delete (call : UpdateCall δ) (collection : Nat) (text : Bytes)
  | check (call : UpdateCall δ) (collection : Nat) (text : Bytes)
  | append (call : UpdateCall δ) (collection : Nat) (text : Bytes)
  | unlockCollection (collection : Nat) (result : Option (UpdateCall δ))

/-- The documents, the locks and the threads.  `libraryRecord` and
`collectionRecord` are the locks in the leaves of the two maps, and `blocks`
the copies that have been handed out. -/
structure UpdateState (δ : Type) where
  documents : List (Bytes × Bytes)
  databaseLock : RwLock
  libraryRecord : RwLock
  collectionRecord : RwLock
  blocks : List RwLock
  threads : List (UpdateThread δ)
  succeeded : List (UpdateCall δ)

inductive UpdateEvent (δ : Type) where
  | call (thread : Nat) (call : UpdateCall δ)
  | step (thread : Nat)

variable {δ : Type}

/-- The library and the collection are there, and a number of threads. -/
def updateStart (documents : DocumentList) (threads : Nat) : UpdateState δ :=
  { documents := documents.entries
    databaseLock := .free
    libraryRecord := .free
    collectionRecord := .free
    blocks := []
    threads := List.replicate threads .idle
    succeeded := [] }

/-- `pthread_rwlock_wrlock` of a block: none while it has to wait. -/
def wrlock (blocks : List RwLock) (address : Nat) : Option (List RwLock) :=
  (blocks[address]?).bind fun lock =>
    if lock.writer ∨ lock.readers ≠ 0 then none
    else some (blocks.set address { writer := true, readers := 0 })

/-- `pthread_rwlock_unlock` of a block that the thread has locked for writing. -/
def unlock (blocks : List RwLock) (address : Nat) : List RwLock :=
  blocks.set address .free

namespace UpdateState

variable (state : UpdateState δ)

def goTo (thread : Nat) (place : UpdateThread δ) : UpdateState δ :=
  { state with threads := state.threads.set thread place }

def withBlocks (blocks : List RwLock) : UpdateState δ :=
  { state with blocks := blocks }

def withDocuments (documents : List (Bytes × Bytes)) : UpdateState δ :=
  { state with documents := documents }

end UpdateState

section Steps

variable [CDouble δ]

def updatedText (call : UpdateCall δ) (text : Bytes) : Option Bytes :=
  (jsonParse text).map fun existing =>
    jsonStringify (updatedDocument call.moment call.document existing)

def updateAdvance (uuid : Bytes) (state : UpdateState δ) (thread : Nat) :
    UpdateThread δ → Option (UpdateState δ)
  | .idle => none
  | .lockDatabase call =>
    if state.databaseLock.writer then none
    else
      some ({ state with
        databaseLock :=
          { state.databaseLock with readers := state.databaseLock.readers + 1 } }.goTo
            thread (.findLibrary call))
  | .findLibrary call =>
    some ((state.withBlocks (state.blocks ++ [state.libraryRecord])).goTo thread
      (.findLibraryAgain call))
  | .findLibraryAgain call =>
    some ((state.withBlocks (state.blocks ++ [state.libraryRecord])).goTo thread
      (.lockLibrary call state.blocks.length))
  | .lockLibrary call library =>
    (wrlock state.blocks library).map fun blocks =>
      (state.withBlocks blocks).goTo thread (.findCollection call library)
  | .findCollection call library =>
    some ((state.withBlocks (state.blocks ++ [state.collectionRecord])).goTo thread
      (.unlockLibrary call library state.blocks.length))
  | .unlockLibrary call library collection =>
    some ((state.withBlocks (unlock state.blocks library)).goTo thread
      (.lockCollection call collection))
  | .lockCollection call collection =>
    (wrlock state.blocks collection).map fun blocks =>
      (state.withBlocks blocks).goTo thread (.unlockDatabase call collection)
  | .unlockDatabase call collection =>
    some ({ state with
      databaseLock :=
        { state.databaseLock with readers := state.databaseLock.readers - 1 } }.goTo
          thread (.search call collection))
  | .search call collection =>
    match (getEntry uuid state.documents).bind (updatedText call) with
    | some text => some (state.goTo thread (.delete call collection text))
    | none => some (state.goTo thread (.unlockCollection collection none))
  | .delete call collection text =>
    some ((state.withDocuments (removeEntry uuid state.documents)).goTo thread
      (.check call collection text))
  | .check call collection text =>
    if uuid ∈ entryKeys state.documents then
      some (state.goTo thread (.unlockCollection collection (some call)))
    else some (state.goTo thread (.append call collection text))
  | .append call collection text =>
    some ((state.withDocuments (state.documents ++ [(uuid, text)])).goTo thread
      (.unlockCollection collection (some call)))
  | .unlockCollection collection result =>
    some ({ state with
      blocks := unlock state.blocks collection
      succeeded := state.succeeded ++ result.toList }.goTo thread .idle)

def updateStep (uuid : Bytes) (state : UpdateState δ) : UpdateEvent δ → Option (UpdateState δ)
  | .call thread call =>
    match state.threads[thread]? with
    | some .idle => some (state.goTo thread (.lockDatabase call))
    | _ => none
  | .step thread => (state.threads[thread]?).bind (updateAdvance uuid state thread)

def seriallyUpdated (text : Option Bytes) (calls : List (UpdateCall δ)) : Option Bytes :=
  calls.foldl (fun text call => text.bind (updatedText call)) text

/-- When no update is in progress, the text is the one that the updates that
have succeeded leave in some order. -/
def Serial (uuid : Bytes) (text : Option Bytes) (state : UpdateState δ) : Prop :=
  (∀ thread ∈ state.threads, thread = .idle) →
    ∃ order, order.Perm state.succeeded ∧
      getEntry uuid state.documents = seriallyUpdated text order

end Steps

/-- What a thread has read the document for and not written yet, and whether it
is still to delete the old text. -/
def UpdateThread.writing : UpdateThread δ → Option (UpdateCall δ × Bytes × Bool)
  | .delete call _ text => some (call, text, true)
  | .check call _ text | .append call _ text => some (call, text, false)
  | _ => none

def UpdateThread.leaving : UpdateThread δ → Option (UpdateCall δ)
  | .unlockCollection _ result => result
  | _ => none

/-- The condition on a step: no update reads a document, to merge its patch
into it, that another update has read and not written back yet. -/
def ReadsApart [CDouble δ] (uuid : Bytes) (state : UpdateState δ) : UpdateEvent δ → Prop
  | .step thread =>
    match state.threads[thread]? with
    | some (.search call _) =>
      ((getEntry uuid state.documents).bind (updatedText call)).isSome →
        ∀ other ∈ state.threads, other.writing = none
    | _ => True
  | _ => True

/-- The effects of a step. -/
inductive UpdateEffect [CDouble δ] (uuid : Bytes) (state : UpdateState δ) :
    UpdateEvent δ → UpdateState δ → Prop
  /-- A thread goes on: the documents stay as they are. -/
  | moved {event : UpdateEvent δ} {next : UpdateState δ} {thread : Nat} {old new : UpdateThread δ}
      (found : state.threads[thread]? = some old)
      (threads : next.threads = state.threads.set thread new)
      (documents : next.documents = state.documents)
      (succeeded : next.succeeded = state.succeeded) (writing : new.writing = old.writing)
      (notLeaving : old.leaving = none) (notLeft : new.leaving = none) :
      UpdateEffect uuid state event next
  | read {thread : Nat} {call : UpdateCall δ} {collection : Nat} {text : Bytes}
      (found : state.threads[thread]? = some (.search call collection))
      (held : (getEntry uuid state.documents).bind (updatedText call) = some text) :
      UpdateEffect uuid state (.step thread) (state.goTo thread (.delete call collection text))
  | deleted {thread : Nat} {call : UpdateCall δ} {collection : Nat} {text : Bytes}
      (found : state.threads[thread]? = some (.delete call collection text)) :
      UpdateEffect uuid state (.step thread)
        ((state.withDocuments (removeEntry uuid state.documents)).goTo thread
          (.check call collection text))
  /-- Another insert was first, and this one is ignored. -/
  | ignored {thread : Nat} {call : UpdateCall δ} {collection : Nat} {text : Bytes}
      (found : state.threads[thread]? = some (.check call collection text))
      (present : uuid ∈ entryKeys state.documents) :
      UpdateEffect uuid state (.step thread)
        (state.goTo thread (.unlockCollection collection (some call)))
  | appended {thread : Nat} {call : UpdateCall δ} {collection : Nat} {text : Bytes}
      (found : state.threads[thread]? = some (.append call collection text)) :
      UpdateEffect uuid state (.step thread)
        ((state.withDocuments (state.documents ++ [(uuid, text)])).goTo thread
          (.unlockCollection collection (some call)))
  | returned {thread : Nat} {collection : Nat} {result : Option (UpdateCall δ)}
      {next : UpdateState δ}
      (found : state.threads[thread]? = some (.unlockCollection collection result))
      (threads : next.threads = state.threads.set thread .idle)
      (documents : next.documents = state.documents)
      (succeeded : next.succeeded = state.succeeded ++ result.toList) :
      UpdateEffect uuid state (.step thread) next

section Serial

variable [CDouble δ] {uuid : Bytes} {state next : UpdateState δ} {event : UpdateEvent δ}
  {text : Option Bytes}

theorem updateEffect_of_step (taken : updateStep uuid state event = some next) :
    UpdateEffect uuid state event next := by
  cases event with
  | call thread call =>
    rw [updateStep] at taken
    split at taken
    · rename_i found
      cases taken
      exact .moved found rfl rfl rfl rfl rfl rfl
    · cases taken
  | step thread =>
    obtain ⟨place, found, taken⟩ := Option.bind_eq_some_iff.mp taken
    cases place with
    | idle => cases taken
    | lockDatabase call =>
      rw [updateAdvance] at taken
      split_ifs at taken
      cases taken
      exact .moved found rfl rfl rfl rfl rfl rfl
    | findLibrary call | findLibraryAgain call | findCollection call library
    | unlockLibrary call library collection | unlockDatabase call collection =>
      cases taken
      exact .moved found rfl rfl rfl rfl rfl rfl
    | lockLibrary call address | lockCollection call address =>
      obtain ⟨blocks, _, rfl⟩ := Option.map_eq_some_iff.mp taken
      exact .moved found rfl rfl rfl rfl rfl rfl
    | search call collection =>
      rw [updateAdvance] at taken
      split at taken
      · rename_i text held
        cases taken
        exact .read found held
      · cases taken
        exact .moved found rfl rfl rfl rfl rfl rfl
    | delete call collection text =>
      cases taken
      exact .deleted found
    | check call collection text =>
      rw [updateAdvance] at taken
      split_ifs at taken with present
      · cases taken
        exact .ignored found present
      · cases taken
        exact .moved found rfl rfl rfl rfl rfl rfl
    | append call collection text =>
      cases taken
      exact .appended found
    | unlockCollection collection result =>
      cases taken
      exact .returned found rfl rfl rfl

/-! ## Updates one after the other -/

/-- How the texts of the document and what threads are about to write go with
the text that the finished updates have left. -/
def Consistent (text : Option Bytes) (texts : List Bytes) :
    List (UpdateCall δ × Bytes × Bool) → Prop
  | [] => texts = text.toList
  | [(call, new, reading)] =>
    text.bind (updatedText call) = some new ∧ texts = if reading then text.toList else []
  | _ => False

structure SerialState (uuid : Bytes) (text : Option Bytes) (order : List (UpdateCall δ))
    (state : UpdateState δ) : Prop where
  finished : order.Perm
    (state.succeeded ++ state.threads.filterMap UpdateThread.leaving)
  consistent : Consistent (seriallyUpdated text order) (textsOf uuid state.documents)
    (state.threads.filterMap UpdateThread.writing)

omit [CDouble δ] in
theorem perm_of_notLeaving {thread : Nat} {old new : UpdateThread δ}
    (found : state.threads[thread]? = some old) (notLeaving : old.leaving = none)
    (notLeft : new.leaving = none) :
    ((state.threads.set thread new).filterMap UpdateThread.leaving).Perm
      (state.threads.filterMap UpdateThread.leaving) := by
  obtain ⟨others, before, after⟩ := filterMap_set_perm UpdateThread.leaving found new
  rw [notLeaving] at before
  rw [notLeft] at after
  exact after.trans before.symm

theorem Consistent.perm {texts : List Bytes} {writers others : List (UpdateCall δ × Bytes × Bool)}
    (perm : others.Perm writers) (consistent : Consistent text texts writers) :
    Consistent text texts others := by
  match writers, consistent with
  | [], consistent =>
    rw [perm.eq_nil]
    exact consistent
  | [writer], consistent =>
    rw [List.perm_singleton.mp perm]
    exact consistent

theorem Consistent.only {texts : List Bytes} {writer : UpdateCall δ × Bytes × Bool}
    {others : List (UpdateCall δ × Bytes × Bool)}
    (consistent : Consistent text texts (writer :: others)) : others = [] := by
  cases others with
  | nil => rfl
  | cons other others => cases consistent

theorem SerialState.writer {order : List (UpdateCall δ)}
    (serial : SerialState uuid text order state) {thread : Nat} {old : UpdateThread δ}
    {writer : UpdateCall δ × Bytes × Bool} (found : state.threads[thread]? = some old)
    (writing : old.writing = some writer) (new : UpdateThread δ) :
    Consistent (seriallyUpdated text order) (textsOf uuid state.documents) [writer] ∧
      (state.threads.set thread new).filterMap UpdateThread.writing = new.writing.toList := by
  obtain ⟨others, before, after⟩ := filterMap_set_perm UpdateThread.writing found new
  rw [writing, Option.toList_some, List.singleton_append] at before
  have consistent := serial.consistent.perm before.symm
  obtain rfl := consistent.only
  rw [List.append_nil] at after
  refine ⟨consistent, ?_⟩
  cases shown : new.writing with
  | none =>
    rw [shown] at after
    exact after.eq_nil
  | some other =>
    rw [shown] at after
    exact List.perm_singleton.mp after

theorem serial_step {order : List (UpdateCall δ)} (serial : SerialState uuid text order state)
    (apart : ReadsApart uuid state event) (taken : updateStep uuid state event = some next) :
    ∃ order, SerialState uuid text order next := by
  cases updateEffect_of_step taken with
  | moved found threads documents succeeded writing notLeaving notLeft =>
    refine ⟨order, ?_, ?_⟩
    · rw [succeeded, threads]
      exact serial.finished.trans
        ((perm_of_notLeaving found notLeaving notLeft).symm.append_left _)
    · rw [documents, threads]
      obtain ⟨others, before, after⟩ := filterMap_set_perm UpdateThread.writing found _
      rw [writing] at after
      exact serial.consistent.perm (after.trans before.symm)
  | @read thread call collection new found held =>
    refine ⟨order, ?_, ?_⟩
    · exact serial.finished.trans ((perm_of_notLeaving found rfl rfl).symm.append_left _)
    · simp only [ReadsApart, found, held, Option.isSome_some, forall_const] at apart
      have noWriter : state.threads.filterMap UpdateThread.writing = [] :=
        List.filterMap_eq_nil_iff.mpr apart
      have texts := serial.consistent
      rw [noWriter] at texts
      have texts : textsOf uuid state.documents = (seriallyUpdated text order).toList := texts
      obtain ⟨others, before, after⟩ :=
        filterMap_set_perm UpdateThread.writing found (.delete call collection new)
      rw [noWriter] at before
      have alone : others = [] := by
        simpa [UpdateThread.writing] using before.nil_eq.symm
      rw [alone, List.append_nil] at after
      refine Consistent.perm after ?_
      rw [getEntry_eq_head, texts] at held
      refine ⟨?_, texts⟩
      cases current : seriallyUpdated text order with
      | none =>
        rw [current] at held
        cases held
      | some stored =>
        rw [current] at held
        exact held
  | @deleted thread call collection new found =>
    refine ⟨order, ?_, ?_⟩
    · exact serial.finished.trans ((perm_of_notLeaving found rfl rfl).symm.append_left _)
    · obtain ⟨⟨update, texts⟩, writers⟩ := serial.writer found rfl (.check call collection new)
      show Consistent _ (textsOf uuid (removeEntry uuid state.documents))
        ((state.threads.set thread _).filterMap _)
      rw [writers, textsOf_removeEntry, texts]
      refine ⟨update, ?_⟩
      cases seriallyUpdated text order <;> rfl
  | @ignored thread call collection new found present =>
    obtain ⟨⟨_, texts⟩, _⟩ := serial.writer found rfl (.append call collection new)
    exact absurd present ((textsOf_eq_nil uuid state.documents).mp texts)
  | @appended thread call collection new found =>
    obtain ⟨⟨update, texts⟩, writers⟩ :=
      serial.writer found rfl (.unlockCollection collection (some call))
    refine ⟨order ++ [call], ?_, ?_⟩
    · obtain ⟨others, before, after⟩ := filterMap_set_perm UpdateThread.leaving found
        (.unlockCollection collection (some call))
      have grown : (state.succeeded ++
          (state.threads.set thread (.unlockCollection collection (some call))).filterMap
            UpdateThread.leaving).Perm (call :: (state.succeeded ++
              state.threads.filterMap UpdateThread.leaving)) :=
        ((after.trans (before.symm.cons call)).append_left _).trans List.perm_middle
      exact (List.perm_append_singleton call order).trans
        ((serial.finished.cons call).trans grown.symm)
    · show Consistent _ (textsOf uuid (state.documents ++ [(uuid, new)]))
        ((state.threads.set thread _).filterMap _)
      rw [writers, textsOf_append, texts]
      have after : seriallyUpdated text (order ++ [call]) = some new := by
        rw [seriallyUpdated, List.foldl_append]
        exact update
      rw [after]
      rfl
  | @returned thread collection result next found threads documents succeeded =>
    refine ⟨order, ?_, ?_⟩
    · obtain ⟨others, before, after⟩ := filterMap_set_perm UpdateThread.leaving found .idle
      have moved : (state.succeeded ++ state.threads.filterMap UpdateThread.leaving).Perm
          (state.succeeded ++ (result.toList ++ others)) :=
        before.append_left _
      rw [succeeded, threads, List.append_assoc]
      exact (serial.finished.trans moved).trans
        ((after.symm.append_left result.toList).append_left state.succeeded)
    · rw [documents, threads]
      obtain ⟨others, before, after⟩ := filterMap_set_perm UpdateThread.writing found .idle
      exact serial.consistent.perm (after.trans before.symm)

theorem serialState_start (uuid : Bytes) (documents : DocumentList) (threads : Nat) :
    SerialState uuid (getEntry uuid documents.entries) []
      (updateStart documents threads : UpdateState δ) := by
  have nothing : ∀ shows : UpdateThread δ → Option (UpdateCall δ × Bytes × Bool),
      shows .idle = none → (List.replicate threads .idle).filterMap shows = [] := by
    intro shows idle
    simp [idle]
  refine ⟨by simp [updateStart, UpdateThread.leaving], ?_⟩
  rw [updateStart, nothing _ rfl]
  exact textsOf_distinct uuid documents

def patchOf (key : Bytes) : UpdateCall Rat :=
  { moment := { now := 0, randomVal := 0 }
    document := .object [(key, .integer 1)] }

def uuidText : Bytes :=
  ascii "\x7b\"uuid\":\"doc-1-1\"\x7d"

def LocksFree (state : UpdateState δ) : Prop :=
  state.databaseLock.writer = false ∧ state.libraryRecord = .free ∧ state.collectionRecord = .free

theorem runFrom_step {state next : UpdateState δ} {thread : Nat} {place : UpdateThread δ}
    {events : List (UpdateEvent δ)} (found : state.threads[thread]? = some place)
    (taken : updateAdvance uuid state thread place = some next) :
    runFrom (updateStep uuid) state (.step thread :: events) =
      runFrom (updateStep uuid) next events := by
  rw [runFrom, updateStep, found, Option.bind_some, taken, Option.bind_some]

theorem wrlock_last (blocks : List RwLock) :
    wrlock (blocks ++ [.free]) blocks.length =
      some (blocks ++ [{ writer := true, readers := 0 }]) := by
  simp [wrlock, RwLock.free]

theorem steps_to_delete {state : UpdateState δ} {thread : Nat} {call : UpdateCall δ} {text : Bytes}
    (place : state.threads[thread]? = some (.lockDatabase call)) (free : LocksFree state)
    (held : (getEntry uuid state.documents).bind (updatedText call) = some text) :
    ∃ next collection,
      runFrom (updateStep uuid) state (List.replicate 9 (.step thread)) = some next ∧
        next.threads = state.threads.set thread (.delete call collection text) ∧
        next.documents = state.documents ∧ next.succeeded = state.succeeded ∧ LocksFree next := by
  obtain ⟨opened, library, collection⟩ := free
  obtain ⟨inside, _⟩ := List.getElem?_eq_some_iff.mp place
  have here : ∀ place, (state.threads.set thread place)[thread]? = some place := fun place =>
    List.getElem?_set_self inside
  let copies := state.blocks ++ [RwLock.free] ++ [{ writer := true, readers := 0 }]
  let collections := copies.set (state.blocks ++ [RwLock.free]).length .free
  have unlocked : unlock (copies ++ [.free]) (state.blocks ++ [RwLock.free]).length =
      collections ++ [.free] := by
    rw [unlock, List.set_append_left _ _ (by simp [copies])]
  have address : copies.length = collections.length := (List.length_set ..).symm
  simp only [List.replicate]
  rw [runFrom_step place (by simp only [updateAdvance, opened]; rfl), runFrom_step (here _) rfl]
  simp only [UpdateState.goTo, UpdateState.withBlocks, List.set_set]
  rw [runFrom_step (here _) rfl]
  simp only [UpdateState.goTo, UpdateState.withBlocks, List.set_set, library]
  rw [runFrom_step (here _) (by rw [updateAdvance, wrlock_last]; rfl)]
  simp only [UpdateState.goTo, UpdateState.withBlocks, List.set_set]
  rw [runFrom_step (here _) rfl]
  simp only [UpdateState.goTo, UpdateState.withBlocks, List.set_set, collection]
  rw [runFrom_step (here _) (by rw [updateAdvance, unlocked])]
  simp only [UpdateState.goTo, UpdateState.withBlocks, List.set_set]
  rw [address, runFrom_step (here _) (by rw [updateAdvance, wrlock_last]; rfl)]
  simp only [UpdateState.goTo, UpdateState.withBlocks, List.set_set]
  rw [runFrom_step (here _) rfl]
  simp only [UpdateState.goTo, List.set_set]
  rw [runFrom_step (here _) (by simp only [updateAdvance, held]; rfl)]
  simp only [UpdateState.goTo, List.set_set]
  exact ⟨_, _, rfl, rfl, rfl, rfl, rfl, rfl, rfl⟩

theorem steps_of_write {state : UpdateState δ} {thread collection : Nat} {call : UpdateCall δ}
    {text : Bytes} (place : state.threads[thread]? = some (.delete call collection text))
    {old : Bytes} (single : state.documents = [(uuid, old)]) :
    ∃ next, runFrom (updateStep uuid) state (List.replicate 4 (.step thread)) = some next ∧
      next.threads = state.threads.set thread .idle ∧ next.documents = [(uuid, text)] ∧
      next.succeeded = state.succeeded ++ [call] := by
  obtain ⟨inside, _⟩ := List.getElem?_eq_some_iff.mp place
  have here : ∀ place, (state.threads.set thread place)[thread]? = some place := fun place =>
    List.getElem?_set_self inside
  have removed : removeEntry uuid [(uuid, old)] = [] := by simp [removeEntry]
  simp only [List.replicate]
  rw [runFrom_step place rfl]
  simp only [UpdateState.goTo, UpdateState.withDocuments, single, removed]
  rw [runFrom_step (here _) (by rw [updateAdvance]; simp [entryKeys]; rfl)]
  simp only [UpdateState.goTo, List.set_set]
  rw [runFrom_step (here _) rfl]
  simp only [UpdateState.goTo, UpdateState.withDocuments, List.set_set]
  rw [runFrom_step (here _) rfl]
  simp only [UpdateState.goTo, List.set_set]
  exact ⟨_, rfl, rfl, rfl, rfl⟩

def overlappingUpdates (first second : UpdateCall δ) : List (UpdateEvent δ) :=
  [.call 0 first, .call 1 second] ++ List.replicate 9 (.step 0) ++ List.replicate 9 (.step 1) ++
    List.replicate 4 (.step 0) ++ List.replicate 4 (.step 1)

theorem overlapping_last (uuid : Bytes) {text firstText secondText : Bytes}
    {first second : UpdateCall δ} (firstUpdate : updatedText first text = some firstText)
    (secondUpdate : updatedText second text = some secondText) :
    ∃ last, runFrom (updateStep uuid) (updateStart (skiplistInsert .empty uuid text) 2)
        (overlappingUpdates first second) = some last ∧
      (∀ thread ∈ last.threads, thread = .idle) ∧ last.succeeded = [first, second] ∧
      last.documents = [(uuid, secondText)] := by
  have stored : (skiplistInsert .empty uuid text).entries = [(uuid, text)] := by
    simp [skiplistInsert, DocumentList.empty, entryKeys]
  let called : UpdateState δ :=
    { updateStart (skiplistInsert .empty uuid text) 2 with
      threads := [.lockDatabase first, .lockDatabase second] }
  have start : runFrom (updateStep uuid) (updateStart (skiplistInsert .empty uuid text) 2)
      [.call 0 first, .call 1 second] = some called := rfl
  have found : getEntry uuid called.documents = some text := by
    simp [called, updateStart, stored, getEntry]
  have firstPlace : called.threads[0]? = some (.lockDatabase first) := rfl
  obtain ⟨one, firstBlock, toOne, oneThreads, oneDocuments, oneSucceeded, oneFree⟩ :=
    steps_to_delete firstPlace ⟨rfl, rfl, rfl⟩ (by rw [found]; exact firstUpdate)
  have secondPlace : one.threads[1]? = some (.lockDatabase second) := by
    rw [oneThreads]
    rfl
  obtain ⟨two, secondBlock, toTwo, twoThreads, twoDocuments, twoSucceeded, _⟩ :=
    steps_to_delete secondPlace oneFree (by rw [oneDocuments, found]; exact secondUpdate)
  have single : two.documents = [(uuid, text)] := by
    rw [twoDocuments, oneDocuments, ← stored]
    rfl
  have firstWrite : two.threads[0]? = some (.delete first firstBlock firstText) := by
    rw [twoThreads, oneThreads]
    rfl
  obtain ⟨three, toThree, threeThreads, threeDocuments, threeSucceeded⟩ :=
    steps_of_write firstWrite single
  have secondWrite : three.threads[1]? = some (.delete second secondBlock secondText) := by
    rw [threeThreads, twoThreads, oneThreads]
    rfl
  obtain ⟨last, toLast, lastThreads, lastDocuments, lastSucceeded⟩ :=
    steps_of_write secondWrite threeDocuments
  refine ⟨last, ?_, ?_, ?_, lastDocuments⟩
  · rw [overlappingUpdates, runFrom_append, runFrom_append, runFrom_append, runFrom_append, start,
      Option.bind_some, toOne, Option.bind_some, toTwo, Option.bind_some, toThree,
      Option.bind_some, toLast]
  · rw [lastThreads, threeThreads, twoThreads, oneThreads]
    simp [called]
  · rw [lastSucceeded, threeSucceeded, twoSucceeded, oneSucceeded]
    rfl

end Serial

end Jdbx
