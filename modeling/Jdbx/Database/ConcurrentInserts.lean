import Jdbx.Database.StoreRuns
import Jdbx.Utils.ArtInterleavings

/-!
# Concurrent inserts

The inserts of any number of threads, with the deletes and the reads that run
beside them.  Every insert locks a copy of the collection's lock, as every
update does, so that no call waits for another: a call is the steps of its
operation on the skiplist.  What `skiplist_insert` returns is not looked at.
-/

namespace Jdbx

open Library

variable {δ : Type}

/-! ## The calls -/

/-- The inserts, with their arguments. -/
inductive InsertCall (δ : Type) where
  | storage (document : JsonValue δ)
  | virtual (type library : Bytes) (collection : Option Bytes) (document : JsonValue δ)
      (owner : Bytes)
  | db (library collection : Bytes) (document : JsonValue δ)

def InsertCall.built (moment : Moment) : InsertCall δ → JsonValue δ
  | .storage document => storageInserted moment document
  | .virtual type library collection document owner =>
    storageInserted moment (virtualInserted type library collection document owner)
  | .db library collection document => dbInserted moment library collection document

/-- An insert: its uuid, the document it stores, and how many deletes had taken
a document out when it was called. -/
structure Insertion (δ : Type) where
  uuid : Bytes
  document : JsonValue δ
  mark : Nat

/-- The documents and the threads, the insert that each thread has called last,
the uuids that deletes have taken out, and the inserts that have returned. -/
structure InsertState (δ : Type) where
  art : ArtState
  insertions : Nat → Option (Insertion δ)
  removed : List Bytes
  returned : List (Insertion δ)

inductive InsertEvent (δ : Type) where
  | insert (thread : Nat) (moment : Moment) (call : InsertCall δ)
  | delete (thread : Nat) (uuid : Bytes)
  | get (thread : Nat) (uuid : Bytes)
  /-- A thread takes the next step of its call. -/
  | step (thread : Nat)

/-- A skiplist that holds documents, and a number of threads. -/
def artHolding (stored : DocumentList) (threads : Nat) : ArtState :=
  { artStart threads with
    published := !stored.entries.isEmpty
    documents := stored.entries.mapIdx fun number entry =>
      { number := number, key := entry.1, value := entry.2 }
    size := UInt64.ofNat stored.entries.length
    entered := stored.entries.length }

def insertStart (stored : DocumentList) (threads : Nat) : InsertState δ :=
  { art := artHolding stored threads
    insertions := fun _ => none
    removed := []
    returned := [] }

/-- The state after a step on the skiplist.  An insert returns its document
when `skiplist_insert` returns. -/
def InsertState.withArt (state : InsertState δ) (thread : Nat) (art : ArtState) :
    InsertState δ :=
  match art.returns.drop state.art.returns.length with
  | [.inserted _ _] =>
    { state with
      art := art
      returned := state.returned ++ (state.insertions thread).toList }
  | [.deleted uuid true] =>
    { state with
      art := art
      removed := state.removed ++ [uuid] }
  | _ => { state with art := art }

section Steps

variable [CDouble δ]

def InsertState.begin (state : InsertState δ) (moment : Moment) (call : InsertCall δ) :
    Insertion δ :=
  { uuid := documentUuid moment
    document := call.built moment
    mark := state.removed.length }

def insertStep (state : InsertState δ) : InsertEvent δ → Option (InsertState δ)
  | .insert thread moment call =>
    (artStep state.art (.call thread
        (.insert (documentUuid moment) (jsonStringify (call.built moment))))).map
      ({ state with
        insertions := Function.update state.insertions thread
          (some (state.begin moment call)) }.withArt thread)
  | .delete thread uuid =>
    (artStep state.art (.call thread (.delete uuid))).map (state.withArt thread)
  | .get thread uuid => (artStep state.art (.call thread (.search uuid))).map (state.withArt thread)
  | .step thread => (artStep state.art (.step thread)).map (state.withArt thread)

omit [CDouble δ] in
/-- `skiplist_search`. -/
def storedText (documents : List ArtLeaf) (uuid : Bytes) : Option Bytes :=
  (documents.find? fun leaf => leaf.key == uuid).map ArtLeaf.value

/-- `storage_get_document`. -/
def InsertState.get (state : InsertState δ) (uuid : Bytes) : Option (JsonValue δ) :=
  (storedText state.art.documents uuid).bind jsonParse

/-- A get of each document that was returned yields it, and the documents from
before are there as they were, unless a delete has taken the uuid out. -/
structure InsertsKept (stored : DocumentList) (state : InsertState δ) : Prop where
  returned : ∀ insertion ∈ state.returned, insertion.uuid ∈ state.removed.drop insertion.mark ∨
    state.get insertion.uuid = some (jsonDeepCopy insertion.document)
  earlier : ∀ entry ∈ stored.entries, entry.1 ∈ state.removed ∨
    storedText state.art.documents entry.1 = some entry.2

/-- The condition on a step.  The document that is inserted is read back from
its text.  No insert looks for its uuid while that is stored, or while another
insert that has not found it either is about to add it. -/
def InsertsApart (state : InsertState δ) : InsertEvent δ → Prop
  | .insert _ moment call =>
    jsonParse (jsonStringify (call.built moment)) = some (jsonDeepCopy (call.built moment))
  | .step thread =>
    match state.art.threads[thread]? with
    | some (.check uuid _) =>
      uuid ∉ state.art.keys ∧ ∀ other ∈ state.art.threads, other.appending ≠ some uuid
    | _ => True
  | _ => True

end Steps

section Texts

variable {documents : List ArtLeaf} {uuid text : Bytes}

theorem storedText_append (held : storedText documents uuid = some text)
    (more : List ArtLeaf) : storedText (documents ++ more) uuid = some text := by
  obtain ⟨leaf, found, same⟩ := Option.map_eq_some_iff.mp held
  rw [storedText, List.find?_append, found]
  exact congrArg some same

theorem storedText_enter (absent : uuid ∉ documents.map ArtLeaf.key) (number : Nat)
    (text : Bytes) :
    storedText (documents ++ [{ number := number, key := uuid, value := text }]) uuid =
      some text := by
  have notFound : documents.find? (fun leaf => leaf.key == uuid) = none := by
    refine List.find?_eq_none.mpr fun leaf member same => absent ?_
    exact List.mem_map.mpr ⟨leaf, member, eq_of_beq same⟩
  rw [storedText, List.find?_append, notFound]
  simp

theorem storedText_erase {index : Nat} {leaf : ArtLeaf} (held : documents[index]? = some leaf)
    (other : leaf.key ≠ uuid) :
    storedText (documents.eraseIdx index) uuid = storedText documents uuid := by
  simp only [storedText]
  congr 1
  induction documents generalizing index with
  | nil => rfl
  | cons first documents ih =>
    cases index with
    | zero =>
      cases held
      rw [List.eraseIdx_cons_zero, List.find?_cons_of_neg (by simpa using other)]
    | succ index =>
      rw [List.eraseIdx_cons_succ, List.find?_cons, List.find?_cons]
      cases first.key == uuid with
      | true => rfl
      | false => exact ih held

end Texts

def ArtThread.adding : ArtThread → Option (Bytes × Bytes)
  | .publish key value | .reload key value | .check key value | .append key value =>
    some (key, value)
  | _ => none

/-- The effects of a step of a thread: where it stands then, what is in the
list, and what has returned. -/
inductive AddingEffect (state : ArtState) (thread : Nat) (old : ArtThread) (next : ArtState) :
    Prop
  /-- An insert goes on. -/
  | moved {new : ArtThread} {key value : Bytes} (before : old.adding = some (key, value))
      (after : new.adding = some (key, value))
      (threads : next.threads = state.threads.set thread new)
      (documents : next.documents = state.documents) (returns : next.returns = state.returns)
  | added {key value : Bytes} (before : old.adding = some (key, value))
      (place : old = .append key value ∨ state.documents = [])
      (threads : next.threads = state.threads.set thread (.count key))
      (documents : next.documents =
        state.documents ++ [{ number := state.entered, key := key, value := value }])
      (returns : next.returns = state.returns)
  | counted {key : Bytes} (before : old = .count key)
      (threads : next.threads = state.threads.set thread .idle)
      (documents : next.documents = state.documents)
      (returns : next.returns = state.returns ++ [.inserted key true])
  /-- The key is there already. -/
  | refused {key value : Bytes} (before : old = .check key value) (present : key ∈ state.keys)
  | removed {key : Bytes} {leaf : ArtLeaf}
      (held : state.documents[keyIndex state.documents key]? = some leaf)
      (threads : next.threads = state.threads.set thread .idle)
      (documents : next.documents = state.documents.eraseIdx (keyIndex state.documents key))
      (returns : next.returns = state.returns ++ [.deleted leaf.key true])
  /-- A call that changes nothing returns. -/
  | returned {result : ArtReturn}
      (threads : next.threads = state.threads.set thread .idle)
      (documents : next.documents = state.documents)
      (returns : next.returns = state.returns ++ [result])
      (unchanged : ∀ key flag, result ≠ .inserted key flag ∧ result ≠ .deleted key true)

theorem addingEffect_of_step {state next : ArtState} {thread : Nat} {old : ArtThread}
    (unpublished : state.published = false → state.documents = [])
    (taken : artAdvance state thread old = some next) : AddingEffect state thread old next := by
  cases old with
  | idle => cases taken
  | publish key value =>
    rw [artAdvance] at taken
    split_ifs at taken with published
    · cases taken
      exact .moved rfl rfl rfl rfl rfl
    · cases taken
      have none := unpublished (eq_false_of_ne_true published)
      rw [← none]
      exact .added rfl (Or.inr none) rfl rfl rfl
  | reload key value =>
    rw [artAdvance] at taken
    split_ifs at taken
    cases taken
    exact .moved rfl rfl rfl rfl rfl
  | check key value =>
    rw [artAdvance] at taken
    split_ifs at taken with present
    · cases taken
      exact .refused rfl present
    · cases taken
      exact .moved rfl rfl rfl rfl rfl
  | append key value =>
    cases taken
    exact .added rfl (Or.inl rfl) rfl rfl rfl
  | count key =>
    cases taken
    exact .counted rfl rfl rfl rfl
  | remove key =>
    rw [artAdvance] at taken
    cases held : state.documents[keyIndex state.documents key]? with
    | none =>
      simp only [held] at taken
      cases taken
      exact .returned rfl rfl rfl (by simp)
    | some leaf =>
      simp only [held] at taken
      cases taken
      exact .removed held rfl rfl (by rw [key_of_keyIndex held]; rfl)
  | find key =>
    cases taken
    exact .returned rfl rfl rfl (by simp)
  | advance iterator =>
    obtain ⟨cursor, _, rfl⟩ := Option.map_eq_some_iff.mp taken
    rw [advanceIterator]
    split_ifs
    · exact .returned rfl rfl rfl (by simp)
    · cases state.documents[cursor.position]? with
      | none => exact .returned rfl rfl rfl (by simp)
      | some leaf => exact .returned rfl rfl rfl (by simp)

section Results

variable {state : InsertState δ} (thread : Nat) (art : ArtState) {result : ArtReturn}

theorem InsertState.withArt_same (same : art.returns = state.art.returns) :
    state.withArt thread art = { state with art := art } := by
  simp [withArt, same]

theorem InsertState.withArt_inserted {key : Bytes} {flag : Bool}
    (returns : art.returns = state.art.returns ++ [.inserted key flag]) :
    state.withArt thread art =
      { state with
        art := art
        returned := state.returned ++ (state.insertions thread).toList } := by
  simp [withArt, returns]

theorem InsertState.withArt_deleted {key : Bytes}
    (returns : art.returns = state.art.returns ++ [.deleted key true]) :
    state.withArt thread art =
      { state with
        art := art
        removed := state.removed ++ [key] } := by
  simp [withArt, returns]

theorem InsertState.withArt_unchanged
    (returns : art.returns = state.art.returns ++ [result])
    (unchanged : ∀ key flag, result ≠ .inserted key flag ∧ result ≠ .deleted key true) :
    state.withArt thread art = { state with art := art } := by
  rw [withArt, returns, List.drop_left]
  cases result with
  | inserted key flag => exact absurd rfl (unchanged key flag).1
  | deleted key flag =>
    cases flag with
    | true => exact absurd rfl (unchanged key true).2
    | false => rfl
  | found _ _ | yielded _ _ => rfl

end Results

/-! ## The invariant -/

section Invariant

variable {state next : InsertState δ} {stored : DocumentList} {thread : Nat}

/-- No delete since `mark` has taken the uuid out, or else the text is there. -/
def Stays (state : InsertState δ) (mark : Nat) (uuid text : Bytes) : Prop :=
  mark ≤ state.removed.length ∧
    (uuid ∈ state.removed.drop mark ∨ storedText state.art.documents uuid = some text)

/-- The step keeps what stays, and forgets no delete. -/
structure KeepsStored (state next : InsertState δ) : Prop where
  longer : state.removed.length ≤ next.removed.length
  stays : ∀ mark uuid text, Stays state mark uuid text → Stays next mark uuid text

theorem keepsStored_append (removed : next.removed = state.removed) {more : List ArtLeaf}
    (documents : next.art.documents = state.art.documents ++ more) : KeepsStored state next := by
  refine ⟨(congrArg List.length removed).ge, fun mark uuid text before => ?_⟩
  rw [Stays, removed, documents]
  exact ⟨before.1, before.2.imp_right fun held => storedText_append held more⟩

theorem keepsStored_same (removed : next.removed = state.removed)
    (documents : next.art.documents = state.art.documents) : KeepsStored state next :=
  keepsStored_append removed (documents.trans (List.append_nil _).symm)

theorem keepsStored_erase {index : Nat} {leaf : ArtLeaf}
    (held : state.art.documents[index]? = some leaf)
    (removed : next.removed = state.removed ++ [leaf.key])
    (documents : next.art.documents = state.art.documents.eraseIdx index) :
    KeepsStored state next := by
  refine ⟨by simp [removed], fun mark uuid text before => ?_⟩
  rw [Stays, removed, documents, List.drop_append_of_le_length before.1, List.length_append]
  refine ⟨before.1.trans (Nat.le_add_right _ _), ?_⟩
  by_cases same : leaf.key = uuid
  · exact Or.inl (List.mem_append_right _ (List.mem_singleton.mpr same.symm))
  · rw [storedText_erase held same]
    exact before.2.imp_left (List.mem_append_left _)

section Documents

variable [CDouble δ] {place : ArtThread} {key value : Bytes} {art : ArtState}

def Stored (state : InsertState δ) (insertion : Insertion δ) : Prop :=
  Stays state insertion.mark insertion.uuid (jsonStringify insertion.document)

def ReadBack (insertion : Insertion δ) : Prop :=
  jsonParse (jsonStringify insertion.document) = some (jsonDeepCopy insertion.document)

def Underway (state : InsertState δ) (thread : Nat) (place : ArtThread) : Prop :=
  ∀ uuid, place.inserting = some uuid → ∃ insertion, state.insertions thread = some insertion ∧
    insertion.uuid = uuid ∧ ReadBack insertion ∧ insertion.mark ≤ state.removed.length ∧
      (place.adding = some (uuid, jsonStringify insertion.document) ∨
        place = .count uuid ∧ Stored state insertion)

structure InsertInvariant (stored : DocumentList) (state : InsertState δ) : Prop where
  base : ArtBase state.art
  apart : KeysApart state.art
  underway : ∀ thread place, state.art.threads[thread]? = some place →
    Underway state thread place
  returned : ∀ insertion ∈ state.returned, ReadBack insertion ∧ Stored state insertion
  earlier : ∀ entry ∈ stored.entries, Stays state 0 entry.1 entry.2

theorem Underway.mono (underway : Underway state thread place) (keeps : KeepsStored state next)
    (insertions : next.insertions thread = state.insertions thread) :
    Underway next thread place := by
  intro uuid inserting
  obtain ⟨insertion, called, same, readBack, marked, progress⟩ := underway uuid inserting
  refine ⟨insertion, insertions.trans called, same, readBack, marked.trans keeps.longer, ?_⟩
  exact progress.imp_right fun added => ⟨added.1, keeps.stays _ _ _ added.2⟩

theorem InsertInvariant.of_thread (holds : InsertInvariant stored state)
    (base : ArtBase next.art) (apart : KeysApart next.art) (keeps : KeepsStored state next)
    {new : ArtThread} (threads : next.art.threads = state.art.threads.set thread new)
    (insertions : ∀ other, other ≠ thread → next.insertions other = state.insertions other)
    (underway : Underway next thread new)
    (returned : ∀ insertion ∈ next.returned,
      insertion ∈ state.returned ∨ ReadBack insertion ∧ Stored next insertion) :
    InsertInvariant stored next := by
  refine ⟨base, apart, fun other place found => ?_, fun insertion member => ?_,
    fun entry member => keeps.stays _ _ _ (holds.earlier entry member)⟩
  · rw [threads, List.getElem?_set] at found
    split_ifs at found with same inside
    · obtain rfl := same
      cases found
      exact underway
    · exact (holds.underway other place found).mono keeps (insertions other (Ne.symm same))
  · rcases returned insertion member with before | done
    · obtain ⟨readBack, held⟩ := holds.returned insertion before
      exact ⟨readBack, keeps.stays _ _ _ held⟩
    · exact done

theorem underway_idle (state : InsertState δ) (thread : Nat) : Underway state thread .idle :=
  fun _ inserting => absurd inserting (by simp [ArtThread.inserting])

omit [CDouble δ] in
theorem inserting_of_adding (adding : place.adding = some (key, value)) :
    place.inserting = some key := by
  cases place with
  | publish _ _ | reload _ _ | check _ _ | append _ _ =>
    cases adding
    rfl
  | idle | count _ | remove _ | find _ | advance _ => cases adding

theorem Underway.of_adding (underway : Underway state thread place)
    (adding : place.adding = some (key, value)) :
    ∃ insertion, state.insertions thread = some insertion ∧ insertion.uuid = key ∧
      ReadBack insertion ∧ insertion.mark ≤ state.removed.length ∧
        value = jsonStringify insertion.document := by
  obtain ⟨insertion, called, same, readBack, marked, progress⟩ :=
    underway key (inserting_of_adding adding)
  refine ⟨insertion, called, same, readBack, marked, ?_⟩
  rcases progress with text | ⟨rfl, _⟩
  · rw [adding] at text
    exact (Prod.mk.inj (Option.some.inj text)).2
  · cases adding

omit [CDouble δ] in
theorem absent_of_append (apart : KeysApart art)
    (found : art.threads[thread]? = some (.append key value)) : key ∉ art.keys := by
  have pending : key ∈ pendingKeys art.threads :=
    List.mem_filterMap.mpr ⟨.append key value, List.mem_of_getElem? found, rfl⟩
  exact fun member => (List.nodup_append.mp apart).2.2 key member key pending rfl

theorem insertInvariant_advance (holds : InsertInvariant stored state)
    (apart : InsertsApart state (.step thread))
    (taken : artStep state.art (.step thread) = some art) :
    InsertInvariant stored (state.withArt thread art) := by
  have base := artBase_step holds.base taken
  have keysApart : KeysApart art := by
    refine keysApart_step holds.base holds.apart ?_ taken
    rw [InsertsApart] at apart
    rw [ChecksAlone]
    cases place : state.art.threads[thread]? with
    | none => trivial
    | some old =>
      rw [place] at apart
      cases old with
      | check key value => exact Or.inr apart.2
      | idle | publish _ _ | reload _ _ | append _ _ | count _ | remove _ | find _
      | advance _ => trivial
  obtain ⟨old, found, taken⟩ := Option.bind_eq_some_iff.mp taken
  have underway := holds.underway thread old found
  cases addingEffect_of_step holds.base.unpublished taken with
  | @moved new key value before after threads documents returns =>
    rw [InsertState.withArt_same thread art returns]
    obtain ⟨insertion, called, same, readBack, marked, rfl⟩ := underway.of_adding before
    refine holds.of_thread base keysApart (keepsStored_same rfl documents) threads
      (fun _ _ => rfl) ?_ fun _ member => Or.inl member
    intro uuid inserting
    obtain rfl : key = uuid :=
      Option.some.inj ((inserting_of_adding after).symm.trans inserting)
    exact ⟨insertion, called, same, readBack, marked, Or.inl after⟩
  | @added key value before place threads documents returns =>
    rw [InsertState.withArt_same thread art returns]
    obtain ⟨insertion, called, rfl, readBack, marked, rfl⟩ := underway.of_adding before
    have absent : insertion.uuid ∉ state.art.keys := by
      rcases place with rfl | empty
      · exact absent_of_append holds.apart found
      · simp [ArtState.keys, empty]
    have held : storedText art.documents insertion.uuid =
        some (jsonStringify insertion.document) := by
      rw [documents]
      exact storedText_enter absent _ _
    refine holds.of_thread base keysApart (keepsStored_append rfl documents) threads
      (fun _ _ => rfl) ?_ fun _ member => Or.inl member
    intro uuid inserting
    cases inserting
    exact ⟨insertion, called, rfl, readBack, marked, Or.inr ⟨rfl, marked, Or.inr held⟩⟩
  | @counted key before threads documents returns =>
    subst before
    rw [InsertState.withArt_inserted thread art returns]
    obtain ⟨insertion, called, same, readBack, marked, progress⟩ := underway key rfl
    have held : Stored state insertion := by
      rcases progress with adding | ⟨_, held⟩
      · cases adding
      · exact held
    have keeps : KeepsStored state
        { state with
          art := art
          returned := state.returned ++ (state.insertions thread).toList } :=
      keepsStored_same rfl documents
    refine holds.of_thread base keysApart keeps threads (fun _ _ => rfl) (underway_idle _ _) ?_
    intro other member
    rw [called] at member
    rcases List.mem_append.mp member with before | new
    · exact Or.inl before
    · obtain rfl := List.mem_singleton.mp new
      exact Or.inr ⟨readBack, keeps.stays _ _ _ held⟩
  | @refused key value before present =>
    subst before
    rw [InsertsApart, found] at apart
    exact absurd present apart.1
  | removed held threads documents returns =>
    rw [InsertState.withArt_deleted thread art returns]
    exact holds.of_thread base keysApart (keepsStored_erase held rfl documents) threads
      (fun _ _ => rfl) (underway_idle _ _) fun _ member => Or.inl member
  | returned threads documents returns unchanged =>
    rw [InsertState.withArt_unchanged thread art returns unchanged]
    exact holds.of_thread base keysApart (keepsStored_same rfl documents) threads
      (fun _ _ => rfl) (underway_idle _ _) fun _ member => Or.inl member

omit [CDouble δ] in
theorem documentUuid_ne_nil (moment : Moment) : documentUuid moment ≠ [] := by
  simp [documentUuid, ascii]

omit [CDouble δ] in
theorem artCall_other {before after : ArtState} {call : ArtCall}
    (notInsert : ∀ key value, call ≠ .insert key value)
    (taken : artCall before thread call = some after) :
    after.documents = before.documents ∧ ∃ place : ArtThread, place.inserting = none ∧
      after.threads = before.threads.set thread place ∧
        (after.returns = before.returns ∨ ∃ result, after.returns = before.returns ++ [result] ∧
          ∀ key flag, result ≠ .inserted key flag ∧ result ≠ .deleted key true) := by
  cases call with
  | insert key value => exact absurd rfl (notInsert key value)
  | delete key | search key =>
    rw [artCall] at taken
    split_ifs at taken
    · cases taken
      exact ⟨rfl, .idle, rfl, rfl, Or.inr ⟨_, rfl, by simp⟩⟩
    · cases taken
      exact ⟨rfl, _, rfl, rfl, Or.inl rfl⟩
  | next iterator =>
    rw [artCall] at taken
    split_ifs at taken
    · cases taken
      exact ⟨rfl, _, rfl, rfl, Or.inl rfl⟩
    · cases taken
      exact ⟨rfl, .idle, rfl, rfl, Or.inr ⟨_, rfl, by simp⟩⟩

theorem insertInvariant_call (holds : InsertInvariant stored state) {call : ArtCall}
    (notInsert : ∀ key value, call ≠ .insert key value)
    (taken : artStep state.art (.call thread call) = some art) :
    InsertInvariant stored (state.withArt thread art) := by
  have base := artBase_step holds.base taken
  have alone : ChecksAlone state.art (.call thread call) := trivial
  have keysApart := keysApart_step holds.base holds.apart alone taken
  rw [artStep] at taken
  split_ifs at taken
  obtain ⟨documents, place, notInserting, threads, returns⟩ := artCall_other notInsert taken
  have same : state.withArt thread art = { state with art := art } := by
    rcases returns with same | ⟨result, returns, unchanged⟩
    · exact state.withArt_same thread art same
    · exact state.withArt_unchanged thread art returns unchanged
  rw [same]
  refine holds.of_thread base keysApart (keepsStored_same rfl documents) threads
    (fun _ _ => rfl) (fun uuid inserting => ?_) fun _ member => Or.inl member
  rw [notInserting] at inserting
  cases inserting

theorem insertInvariant_insert (holds : InsertInvariant stored state) {moment : Moment}
    {call : InsertCall δ} (apart : InsertsApart state (.insert thread moment call))
    (taken : insertStep state (.insert thread moment call) = some next) :
    InsertInvariant stored next := by
  obtain ⟨art, called, rfl⟩ := Option.map_eq_some_iff.mp taken
  have base := artBase_step holds.base called
  have alone : ChecksAlone state.art (.call thread
      (.insert (documentUuid moment) (jsonStringify (call.built moment)))) := trivial
  have keysApart := keysApart_step holds.base holds.apart alone called
  rw [artStep, artCall, if_neg (documentUuid_ne_nil moment)] at called
  have started : ∃ place : ArtThread,
      place.adding = some (documentUuid moment, jsonStringify (call.built moment)) ∧
        art = state.art.goTo thread place := by
    split_ifs at called
    · exact ⟨_, rfl, (Option.some.inj called).symm⟩
    · exact ⟨_, rfl, (Option.some.inj called).symm⟩
  obtain ⟨place, adding, rfl⟩ := started
  rw [InsertState.withArt_same thread _ (by rfl)]
  refine holds.of_thread base keysApart (keepsStored_same rfl rfl) rfl
    (fun other different => Function.update_of_ne different _ _) ?_ fun _ member => Or.inl member
  intro uuid inserting
  obtain rfl := Option.some.inj ((inserting_of_adding adding).symm.trans inserting)
  exact ⟨state.begin moment call, Function.update_self _ _ _, rfl, apart, le_rfl, Or.inl adding⟩

theorem keeps_insertInvariant (stored : DocumentList) :
    Keeps insertStep InsertsApart
      (InsertInvariant stored : InsertState δ → Prop) := by
  intro state event next holds apart taken
  cases event with
  | insert thread moment call => exact insertInvariant_insert holds apart taken
  | delete thread uuid =>
    obtain ⟨art, called, rfl⟩ := Option.map_eq_some_iff.mp taken
    exact insertInvariant_call holds (by simp) called
  | get thread uuid =>
    obtain ⟨art, called, rfl⟩ := Option.map_eq_some_iff.mp taken
    exact insertInvariant_call holds (by simp) called
  | step thread =>
    obtain ⟨art, advanced, rfl⟩ := Option.map_eq_some_iff.mp taken
    exact insertInvariant_advance holds apart advanced

omit [CDouble δ] in
theorem keys_artHolding (stored : DocumentList) (threads : Nat) :
    (artHolding stored threads).keys = entryKeys stored.entries := by
  refine List.ext_getElem (by simp [artHolding, ArtState.keys, entryKeys]) ?_
  intro index inside _
  simp [artHolding, ArtState.keys, entryKeys]

omit [CDouble δ] in
theorem artBase_holding (stored : DocumentList) (threads : Nat) :
    ArtBase (artHolding stored threads) := by
  have numbered : ∀ leaf ∈ (artHolding stored threads).documents,
      leaf.number < stored.entries.length := by
    intro leaf member
    obtain ⟨number, inside, rfl⟩ := List.mem_mapIdx.mp member
    exact inside
  refine ⟨fun unpublished => ?_, ?_, ?_, numbered, by simp [artHolding, artStart]⟩
  · have empty : stored.entries = [] := by simpa [artHolding] using unpublished
    simp [artHolding, empty]
  · intro thread member knows
    rw [List.eq_of_mem_replicate member] at knows
    cases knows
  · have keys : (artHolding stored threads).keys.Nodup := by
      rw [keys_artHolding]
      exact stored.distinct
    exact List.Nodup.of_map ArtLeaf.key keys

omit [CDouble δ] in
theorem storedText_of_nodup {documents : List ArtLeaf} {leaf : ArtLeaf}
    (distinct : (documents.map ArtLeaf.key).Nodup) (member : leaf ∈ documents) :
    storedText documents leaf.key = some leaf.value := by
  have found : documents.find? (fun other => other.key == leaf.key) = some leaf := by
    refine List.find?_eq_some_iff_append.mpr ⟨by simp, ?_⟩
    obtain ⟨before, after, rfl⟩ := List.append_of_mem member
    refine ⟨before, after, rfl, fun other inside => ?_⟩
    rw [List.map_append, List.map_cons] at distinct
    have different := (List.nodup_append.mp distinct).2.2 other.key
      (List.mem_map.mpr ⟨other, inside, rfl⟩) leaf.key List.mem_cons_self
    simpa using different
  rw [storedText, found]
  rfl

theorem insertInvariant_start (stored : DocumentList) (threads : Nat) :
    InsertInvariant stored (insertStart stored threads : InsertState δ) := by
  have distinct : (artHolding stored threads).keys.Nodup := by
    rw [keys_artHolding]
    exact stored.distinct
  refine ⟨artBase_holding stored threads, ?_, ?_, by simp [insertStart], ?_⟩
  · have nonePending : pendingKeys (artHolding stored threads).threads = [] := by
      simp [artHolding, artStart, pendingKeys, ArtThread.appending]
    rw [KeysApart, insertStart, nonePending, List.append_nil]
    exact distinct
  · intro thread place found
    rw [List.eq_of_mem_replicate (List.mem_of_getElem? found)]
    exact underway_idle _ _
  · intro entry member
    refine ⟨Nat.zero_le _, Or.inr ?_⟩
    obtain ⟨number, inside, rfl⟩ := List.getElem_of_mem member
    have held : ArtLeaf.mk number (stored.entries[number]).1 (stored.entries[number]).2 ∈
        (artHolding stored threads).documents :=
      List.mem_mapIdx.mpr ⟨number, inside, rfl⟩
    exact storedText_of_nodup distinct held

end Documents

end Invariant

def insertOf (key : Bytes) : InsertEvent Rat :=
  .insert 0 { now := 1, randomVal := 7 } (.storage (.object [(key, .integer 1)]))

def builtOf (key : Bytes) : JsonValue Rat :=
  storageInserted { now := 1, randomVal := 7 } (.object [(key, .integer 1)])

def sameUuid : List (InsertEvent Rat) :=
  [insertOf (ascii "a"), .step 0, .step 0, insertOf (ascii "b"), .step 0]

end Jdbx
