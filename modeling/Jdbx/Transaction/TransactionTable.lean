import Jdbx.Library.ChainedTable
import Jdbx.Library.GuardedRun
import Jdbx.Transaction.Transaction

/-!
# Looking up transactions

The array of a transaction manager, in which every transaction stays, and the
hash table of those that have not ended.  A transaction is known by its place in
the array.  Whether an allocation succeeds is an input; what is allocated stays
allocated, and the log and the database take no part.
-/

namespace Jdbx

open Library

/-- `transaction_manager_t`: an entry of the hash table points to the
transaction at that place. -/
structure HashedManager where
  activeTransactions : List Transaction
  capacity : Nat
  txHashTable : List (List Nat)
  deriving DecidableEq, Repr

/-- `hash_transaction_id`.  A `char` is signed. -/
def hashTransactionId (id : Bytes) (tableSize : Nat) : Nat :=
  let step (hash : UInt32) (byte : UInt8) : UInt32 :=
    hash * 31 + byte.toInt8.toInt32.toUInt32
  (id.foldl step 0).toNat % tableSize

/-- `entry->transaction->id` -/
def entryId (transactions : List Transaction) (entry : Nat) : Bytes :=
  (transactions[entry]?.map Transaction.id).getD []

def entryBucket (transactions : List Transaction) (tableSize entry : Nat) : Nat :=
  hashTransactionId (entryId transactions entry) tableSize

namespace HashedManager

def create (capacity : Int32) : HashedManager :=
  let capacity := if 0 < capacity then capacity.toNatClampNeg else 100
  { activeTransactions := [], capacity, txHashTable := List.replicate (capacity * 2) [] }

def hashTableAdd (manager : HashedManager) (entry : Nat) : HashedManager :=
  { manager with
    txHashTable :=
      pushNode (entryBucket manager.activeTransactions manager.txHashTable.length)
        manager.txHashTable entry }

def hashTableRemove (manager : HashedManager) (id : Bytes) : HashedManager :=
  { manager with
    txHashTable :=
      manager.txHashTable.modify (hashTransactionId id manager.txHashTable.length) fun chain =>
        chain.eraseP fun entry => entryId manager.activeTransactions entry == id }

def hashTableFind (manager : HashedManager) (id : Bytes) : Option Nat :=
  (chainAt manager.txHashTable (hashTransactionId id manager.txHashTable.length)).find? fun entry =>
    entryId manager.activeTransactions entry == id

def getTransaction (manager : HashedManager) (id : Bytes) : Option Nat :=
  manager.hashTableFind id

end HashedManager

/-- What a call of `transaction_begin` is given: its arguments, the clock, the
random number, and which of its allocations succeed. -/
structure BeginInput where
  isolationLevel : Option IsolationLevel
  userId : Bytes
  idTime : Int64
  random : Nat
  startTime : Int64
  arrayAllocated : Bool
  tableAllocated : Bool
  entryAllocated : Bool
  deriving DecidableEq, Repr

/-- The transaction that `transaction_begin` makes. -/
def BeginInput.transaction (input : BeginInput) : Transaction where
  id := generateTransactionId input.idTime input.random
  state := .active
  startTime := input.startTime
  commitTime := 0
  userId := cString input.userId
  isolationLevel := input.isolationLevel.getD .readCommitted

namespace HashedManager

variable (manager : HashedManager)

/-- Make room for one more transaction.  The result is `some none` where there
is no memory, and `none` where an `int` overflows. -/
def resize (input : BeginInput) : Option (Option HashedManager) :=
  if manager.activeTransactions.length < manager.capacity then
    some (some manager)
  else
    let newCapacity := manager.capacity * 2
    if 2 ^ 31 ≤ newCapacity then
      none
    else if ¬ input.arrayAllocated then
      some none
    else
      let newHashSize := newCapacity * 2
      if 2 ^ 31 ≤ newHashSize then
        none
      else if ¬ input.tableAllocated then
        -- The old hash table stays.
        some (some { manager with capacity := newCapacity })
      else
        some (some { manager with
          capacity := newCapacity
          txHashTable :=
            rehash (entryBucket manager.activeTransactions newHashSize) newHashSize
              manager.txHashTable })

/-- The end of `transaction_begin`. -/
def append (input : BeginInput) : HashedManager :=
  let entry := manager.activeTransactions.length
  let manager :=
    { manager with activeTransactions := manager.activeTransactions ++ [input.transaction] }
  if input.entryAllocated then manager.hashTableAdd entry else manager

def begin (input : BeginInput) : Option HashedManager :=
  (manager.resize input).map fun resized =>
    match resized with
    | none => manager
    | some resized => resized.append input

/-- What `transaction_commit` and `transaction_rollback` do: `state` is the one
in which the transaction ends.  A place that is not in the array is no
transaction. -/
def finish (state : TransactionState) (transaction : Nat) (commitTime : Int64) :
    Int32 × HashedManager :=
  match manager.activeTransactions[transaction]? with
  | none => (-1, manager)
  | some found =>
      if found.state = .committed then (-2, manager)
      else if found.state = .aborted then (-3, manager)
      else
        let manager :=
          { manager with
            activeTransactions :=
              manager.activeTransactions.set transaction { found with state, commitTime } }
        (0, manager.hashTableRemove found.id)

def commit (transaction : Nat) (commitTime : Int64) : Int32 × HashedManager :=
  manager.finish .committed transaction commitTime

def rollback (transaction : Nat) (commitTime : Int64) : Int32 × HashedManager :=
  manager.finish .aborted transaction commitTime

end HashedManager

/-- A call on a transaction manager. -/
inductive ManagerCall where
  | begin (input : BeginInput)
  | commit (transaction : Nat) (commitTime : Int64)
  | rollback (transaction : Nat) (commitTime : Int64)
  deriving DecidableEq, Repr

def managerStep (manager : HashedManager) : ManagerCall → Option HashedManager
  | .begin input => manager.begin input
  | .commit transaction commitTime => some (manager.commit transaction commitTime).2
  | .rollback transaction commitTime => some (manager.rollback transaction commitTime).2

/-! ## What a lookup is to find -/

def Transaction.Unfinished (transaction : Transaction) : Prop :=
  transaction.state ≠ .committed ∧ transaction.state ≠ .aborted

instance (transaction : Transaction) : Decidable transaction.Unfinished :=
  inferInstanceAs (Decidable (transaction.state ≠ .committed ∧ transaction.state ≠ .aborted))

def UnfinishedAt (transactions : List Transaction) (place : Nat) : Prop :=
  ∃ transaction, transactions[place]? = some transaction ∧ transaction.Unfinished

/-- A lookup finds the unfinished transaction of an id, and no two unfinished
transactions have one id. -/
structure FindsUnfinished (manager : HashedManager) : Prop where
  found : ∀ id place, manager.getTransaction id = some place ↔
    UnfinishedAt manager.activeTransactions place ∧ entryId manager.activeTransactions place = id
  distinct : ∀ place other, UnfinishedAt manager.activeTransactions place →
    UnfinishedAt manager.activeTransactions other →
      entryId manager.activeTransactions place = entryId manager.activeTransactions other →
        place = other

def LeavesFindable (manager : HashedManager) (call : ManagerCall) : Prop :=
  ∃ next, managerStep manager call = some next ∧ FindsUnfinished next

/-- The array is full, and twice its size or that of the new hash table is no `int`. -/
def Overflows (manager : HashedManager) (input : BeginInput) : Prop :=
  manager.capacity ≤ manager.activeTransactions.length ∧
    (2 ^ 31 ≤ manager.capacity * 2 ∨
      input.arrayAllocated = true ∧ 2 ^ 31 ≤ manager.capacity * 2 * 2)

instance (manager : HashedManager) (input : BeginInput) : Decidable (Overflows manager input) :=
  inferInstanceAs (Decidable (_ ∧ (_ ∨ _ ∧ _)))

def Appends (manager : HashedManager) (input : BeginInput) : Prop :=
  manager.activeTransactions.length < manager.capacity ∨ input.arrayAllocated = true

instance (manager : HashedManager) (input : BeginInput) : Decidable (Appends manager input) :=
  inferInstanceAs (Decidable (_ ∨ _))

/-- A transaction that joins the array has an entry of the hash table, and its
id is that of no unfinished transaction. -/
def BeginsFresh (manager : HashedManager) : ManagerCall → Prop
  | .begin input =>
      ¬ Overflows manager input ∧
        (Appends manager input →
          input.entryAllocated = true ∧
            ∀ transaction ∈ manager.activeTransactions, transaction.Unfinished →
              transaction.id ≠ generateTransactionId input.idTime input.random)
  | _ => True

instance (manager : HashedManager) (call : ManagerCall) : Decidable (BeginsFresh manager call) :=
  match call with
  | .begin input => inferInstanceAs (Decidable
      (¬ Overflows manager input ∧
        (Appends manager input →
          input.entryAllocated = true ∧
            ∀ transaction ∈ manager.activeTransactions, transaction.Unfinished →
              transaction.id ≠ generateTransactionId input.idTime input.random)))
  | .commit _ _ => inferInstanceAs (Decidable True)
  | .rollback _ _ => inferInstanceAs (Decidable True)

/-- The hash table holds the unfinished transactions, whose ids differ. -/
structure Tabled (manager : HashedManager) : Prop where
  capacity : 0 < manager.capacity
  nonempty : 0 < manager.txHashTable.length
  placed : Placed (entryBucket manager.activeTransactions manager.txHashTable.length)
    (UnfinishedAt manager.activeTransactions) manager.txHashTable
  distinct : ∀ place other, UnfinishedAt manager.activeTransactions place →
    UnfinishedAt manager.activeTransactions other →
      entryId manager.activeTransactions place = entryId manager.activeTransactions other →
        place = other

theorem hashTransactionId_lt (id : Bytes) {tableSize : Nat} (nonempty : 0 < tableSize) :
    hashTransactionId id tableSize < tableSize :=
  Nat.mod_lt _ nonempty

section Invariant

variable {manager : HashedManager} {transactions : List Transaction} {input : BeginInput}
  {place : Nat} {added : Transaction}

theorem getTransaction_eq (id : Bytes) : manager.getTransaction id =
    (chainAt manager.txHashTable (hashTransactionId id manager.txHashTable.length)).find?
      fun entry => entryId manager.activeTransactions entry == id :=
  rfl

theorem Tabled.finds (tabled : Tabled manager) : FindsUnfinished manager := by
  refine ⟨fun id place => ?_, tabled.distinct⟩
  rw [getTransaction_eq]
  constructor
  · intro result
    have member := List.mem_of_find?_eq_some result
    have sameId := List.find?_some result
    exact ⟨((tabled.placed.mem_chain _ place).mp member).1, beq_iff_eq.mp sameId⟩
  · rintro ⟨held, rfl⟩
    refine (tabled.placed.find? ?_).mpr ⟨held, rfl, beq_self_eq_true (entryId _ place)⟩
    intro other otherHeld _ sameId
    exact tabled.distinct other place otherHeld held (beq_iff_eq.mp sameId)

theorem create_capacity_pos (capacity : Int32) : 0 < (HashedManager.create capacity).capacity := by
  simp only [HashedManager.create]
  split
  · rename_i positive
    have aboveZero : 0 < capacity.toInt := Int32.lt_iff_toInt_lt.mp positive
    have size : capacity.toInt.toNat = capacity.toNatClampNeg := Int32.toNat_toInt capacity
    omega
  · decide

theorem tabled_create (capacity : Int32) : Tabled (HashedManager.create capacity) where
  capacity := create_capacity_pos capacity
  nonempty := by
    have positive := create_capacity_pos capacity
    simp only [HashedManager.create, List.length_replicate] at positive ⊢
    omega
  placed := by
    apply (placed_replicate (fun _ => 0) _).congr
    · exact fun _ none => none.elim
    · intro place
      simp [UnfinishedAt, HashedManager.create]
  distinct := by
    rintro place other ⟨transaction, held, -⟩
    cases held

theorem resize_of_overflows (overflows : Overflows manager input) :
    manager.resize input = none := by
  obtain ⟨full, tooLarge⟩ := overflows
  rw [HashedManager.resize, if_neg (Nat.not_lt.mpr full)]
  by_cases capacity : 2 ^ 31 ≤ manager.capacity * 2
  · exact if_pos capacity
  · obtain ⟨allocated, size⟩ := tooLarge.resolve_left capacity
    simp only [capacity, allocated, if_false, not_true_eq_false]
    exact if_pos size

theorem resize_of_not_appends (fits : ¬ Overflows manager input)
    (noRoom : ¬ Appends manager input) : manager.resize input = some none := by
  obtain ⟨full, notAllocated⟩ := not_or.mp noRoom
  have capacity : ¬ 2 ^ 31 ≤ manager.capacity * 2 :=
    fun large => fits ⟨Nat.not_lt.mp full, Or.inl large⟩
  simp only [HashedManager.resize, full, capacity, notAllocated, if_false, if_true,
    Bool.false_eq_true, not_false_eq_true]

theorem Tabled.resize (tabled : Tabled manager) (fits : ¬ Overflows manager input)
    (appends : Appends manager input) :
    ∃ resized, manager.resize input = some (some resized) ∧
      resized.activeTransactions = manager.activeTransactions ∧ Tabled resized := by
  by_cases room : manager.activeTransactions.length < manager.capacity
  · exact ⟨manager, if_pos room, rfl, tabled⟩
  · have allocated : input.arrayAllocated = true := appends.resolve_left room
    have full : manager.capacity ≤ manager.activeTransactions.length := Nat.not_lt.mp room
    have capacity : ¬ 2 ^ 31 ≤ manager.capacity * 2 := fun large => fits ⟨full, Or.inl large⟩
    have size : ¬ 2 ^ 31 ≤ manager.capacity * 2 * 2 :=
      fun large => fits ⟨full, Or.inr ⟨allocated, large⟩⟩
    rw [HashedManager.resize, if_neg room]
    simp only [capacity, allocated, size, if_false, not_true_eq_false]
    by_cases tableAllocated : input.tableAllocated = true
    · simp only [tableAllocated, not_true_eq_false, if_false]
      have positive := tabled.capacity
      have nonempty : 0 < manager.capacity * 2 * 2 := by omega
      refine ⟨_, rfl, rfl, ?_, ?_, ?_, tabled.distinct⟩
      · simpa using tabled.capacity
      · simpa [rehash_length] using nonempty
      · simp only [rehash_length]
        exact tabled.placed.rehash fun place _ => hashTransactionId_lt _ nonempty
    · simp only [tableAllocated]
      refine ⟨_, rfl, rfl, ?_, tabled.nonempty, tabled.placed, tabled.distinct⟩
      exact Nat.mul_pos tabled.capacity two_pos

theorem entryId_append (inside : place < transactions.length) :
    entryId (transactions ++ [added]) place = entryId transactions place := by
  rw [entryId, List.getElem?_append_left inside, entryId]

theorem entryId_append_length :
    entryId (transactions ++ [added]) transactions.length = added.id := by
  simp [entryId]

theorem UnfinishedAt.lt (unfinished : UnfinishedAt transactions place) :
    place < transactions.length := by
  obtain ⟨transaction, held, -⟩ := unfinished
  exact (List.getElem?_eq_some_iff.mp held).1

theorem unfinishedAt_append (unfinished : added.Unfinished) :
    UnfinishedAt (transactions ++ [added]) place ↔
      place = transactions.length ∨ UnfinishedAt transactions place := by
  unfold UnfinishedAt
  rcases Nat.lt_trichotomy place transactions.length with inside | rfl | outside
  · simp only [List.getElem?_append_left inside, inside.ne, false_or]
  · simpa using unfinished
  · have notLast : place ≠ transactions.length := Nat.ne_of_gt outside
    have past : transactions.length + 1 ≤ place := outside
    simp [List.getElem?_append_right outside.le, notLast, List.getElem?_eq_none outside.le,
      Nat.sub_ne_zero_of_lt outside]

theorem mem_of_unfinishedAt (unfinished : UnfinishedAt transactions place) :
    ∃ transaction ∈ transactions, transaction.Unfinished ∧
      transaction.id = entryId transactions place := by
  obtain ⟨transaction, held, unfinished⟩ := unfinished
  refine ⟨transaction, List.mem_of_getElem? held, unfinished, ?_⟩
  simp [entryId, held]

theorem Tabled.append (tabled : Tabled manager) (entryAllocated : input.entryAllocated = true)
    (fresh : ∀ transaction ∈ manager.activeTransactions, transaction.Unfinished →
      transaction.id ≠ generateTransactionId input.idTime input.random) :
    Tabled (manager.append input) := by
  have active : input.transaction.Unfinished := by
    simp [Transaction.Unfinished, BeginInput.transaction]
  have notYet : ¬ UnfinishedAt manager.activeTransactions manager.activeTransactions.length :=
    fun held => lt_irrefl _ held.lt
  have differs (place : Nat) (held : UnfinishedAt manager.activeTransactions place) :
      entryId manager.activeTransactions place ≠ input.transaction.id := by
    obtain ⟨transaction, member, unfinished, sameId⟩ := mem_of_unfinishedAt held
    rw [← sameId]
    exact fresh transaction member unfinished
  have kept : Placed
      (entryBucket (manager.activeTransactions ++ [input.transaction]) manager.txHashTable.length)
      (UnfinishedAt manager.activeTransactions) manager.txHashTable := by
    apply tabled.placed.congr
    · intro place held
      rw [entryBucket, entryId_append held.lt, entryBucket]
    · exact fun _ => Iff.rfl
  have pushed := kept.push notYet (hashTransactionId_lt _ tabled.nonempty)
  simp only [HashedManager.append, entryAllocated, if_true, HashedManager.hashTableAdd]
  refine ⟨tabled.capacity, ?_, ?_, ?_⟩
  · simpa [pushNode] using tabled.nonempty
  · simp only [pushNode, List.length_modify]
    exact pushed.congr (fun _ _ => rfl) fun place => unfinishedAt_append active
  · intro place other held otherHeld sameId
    rcases (unfinishedAt_append active).mp held with rfl | before
    · rcases (unfinishedAt_append active).mp otherHeld with rfl | otherBefore
      · rfl
      · rw [entryId_append_length, entryId_append otherBefore.lt] at sameId
        exact absurd sameId.symm (differs other otherBefore)
    · rcases (unfinishedAt_append active).mp otherHeld with rfl | otherBefore
      · rw [entryId_append_length, entryId_append before.lt] at sameId
        exact absurd sameId (differs place before)
      · rw [entryId_append before.lt, entryId_append otherBefore.lt] at sameId
        exact tabled.distinct place other before otherBefore sameId

theorem entryId_set {found : Transaction} (held : transactions[place]? = some found)
    (ended : Transaction) (sameId : ended.id = found.id) (entry : Nat) :
    entryId (transactions.set place ended) entry = entryId transactions entry := by
  unfold entryId
  rw [List.getElem?_set]
  split
  · rename_i same
    subst same
    have inside := (List.getElem?_eq_some_iff.mp held).1
    rw [if_pos inside, held, Option.map_some, Option.map_some, sameId]
  · rfl

theorem unfinishedAt_set {place entry : Nat} {ended : Transaction} (finished : ¬ ended.Unfinished) :
    UnfinishedAt (transactions.set place ended) entry ↔
      UnfinishedAt transactions entry ∧ entry ≠ place := by
  unfold UnfinishedAt
  rw [List.getElem?_set]
  split
  · rename_i same
    subst same
    constructor
    · rintro ⟨transaction, held, unfinished⟩
      split at held
      · cases held
        exact absurd unfinished finished
      · cases held
    · rintro ⟨-, different⟩
      exact absurd rfl different
  · rename_i different
    exact (and_iff_left (Ne.symm different)).symm

theorem Tabled.finish (tabled : Tabled manager) {state : TransactionState}
    (ending : state = .committed ∨ state = .aborted) (transaction : Nat) (commitTime : Int64) :
    Tabled (manager.finish state transaction commitTime).2 := by
  unfold HashedManager.finish
  split
  · exact tabled
  · rename_i found held
    split
    · exact tabled
    split
    · exact tabled
    rename_i notCommitted notAborted
    have unfinishedAt : UnfinishedAt manager.activeTransactions transaction :=
      ⟨found, held, notCommitted, notAborted⟩
    have foundId : entryId manager.activeTransactions transaction = found.id := by
      simp [entryId, held]
    have finished : ¬ ({ found with state, commitTime } : Transaction).Unfinished := by
      rintro ⟨otherThanCommitted, otherThanAborted⟩
      exact ending.elim otherThanCommitted otherThanAborted
    have ids := entryId_set held { found with state, commitTime } rfl
    have erased : Placed (entryBucket manager.activeTransactions manager.txHashTable.length)
        (fun other => UnfinishedAt manager.activeTransactions other ∧ other ≠ transaction)
        (manager.txHashTable.modify (hashTransactionId found.id manager.txHashTable.length)
          fun chain => chain.eraseP fun entry =>
            entryId manager.activeTransactions entry == found.id) := by
      apply tabled.placed.eraseP
      · rw [entryBucket, foundId]
      · intro other otherHeld _
        rw [beq_iff_eq, ← foundId]
        constructor
        · exact tabled.distinct other transaction otherHeld unfinishedAt
        · rintro rfl
          rfl
    refine ⟨tabled.capacity, ?_, ?_, ?_⟩
    · simpa [HashedManager.hashTableRemove] using tabled.nonempty
    · simp only [HashedManager.hashTableRemove, List.length_modify, ids]
      apply erased.congr
      · intro entry _
        rw [entryBucket, ids, entryBucket]
      · exact fun entry => unfinishedAt_set finished
    · intro place other placeHeld otherHeld sameId
      simp only [HashedManager.hashTableRemove, ids] at sameId
      exact tabled.distinct place other ((unfinishedAt_set finished).mp placeHeld).1
        ((unfinishedAt_set finished).mp otherHeld).1 sameId

theorem Tabled.begin (tabled : Tabled manager) (fresh : BeginsFresh manager (.begin input)) :
    ∃ next, manager.begin input = some next ∧ Tabled next := by
  obtain ⟨fits, joins⟩ := fresh
  by_cases appends : Appends manager input
  · obtain ⟨entryAllocated, freshId⟩ := joins appends
    obtain ⟨resized, grown, sameArray, resizedTabled⟩ := tabled.resize fits appends
    refine ⟨resized.append input, by rw [HashedManager.begin, grown, Option.map_some], ?_⟩
    apply resizedTabled.append entryAllocated
    rwa [sameArray]
  · exact ⟨manager, by rw [HashedManager.begin, resize_of_not_appends fits appends,
      Option.map_some], tabled⟩

theorem Tabled.nextCall (tabled : Tabled manager) {call : ManagerCall}
    (fresh : BeginsFresh manager call) :
    ∃ next, managerStep manager call = some next ∧ Tabled next := by
  cases call with
  | begin input => exact tabled.begin fresh
  | commit transaction commitTime =>
      exact ⟨_, rfl, tabled.finish (Or.inl rfl) transaction commitTime⟩
  | rollback transaction commitTime =>
      exact ⟨_, rfl, tabled.finish (Or.inr rfl) transaction commitTime⟩

theorem entryAllocated_of_findsUnfinished (tabled : Tabled manager)
    (finds : FindsUnfinished (manager.append input)) : input.entryAllocated = true := by
  by_contra notAllocated
  have appended : manager.append input =
      { manager with activeTransactions := manager.activeTransactions ++ [input.transaction] } := by
    simp only [HashedManager.append, notAllocated, if_false]
  have active : input.transaction.Unfinished := by
    simp [Transaction.Unfinished, BeginInput.transaction]
  have joined : UnfinishedAt (manager.append input).activeTransactions
      manager.activeTransactions.length := by
    rw [appended]
    exact (unfinishedAt_append active).mpr (Or.inl rfl)
  have result := (finds.found _ _).mpr ⟨joined, rfl⟩
  rw [getTransaction_eq, appended] at result
  have member := List.mem_of_find?_eq_some result
  exact lt_irrefl _ ((tabled.placed.mem_chain _ _).mp member).1.lt

theorem append_activeTransactions (input : BeginInput) :
    (manager.append input).activeTransactions =
      manager.activeTransactions ++ [input.transaction] := by
  simp only [HashedManager.append]
  split <;> rfl

theorem fresh_of_findsUnfinished (finds : FindsUnfinished (manager.append input)) :
    ∀ transaction ∈ manager.activeTransactions, transaction.Unfinished →
      transaction.id ≠ generateTransactionId input.idTime input.random := by
  intro transaction member unfinished sameId
  have active : input.transaction.Unfinished := by
    simp [Transaction.Unfinished, BeginInput.transaction]
  obtain ⟨place, inside, found⟩ := List.mem_iff_getElem.mp member
  have held : UnfinishedAt manager.activeTransactions place :=
    ⟨transaction, by rw [List.getElem?_eq_getElem inside, found], unfinished⟩
  have same := finds.distinct place manager.activeTransactions.length
  rw [append_activeTransactions, unfinishedAt_append active, unfinishedAt_append active,
    entryId_append inside, entryId_append_length] at same
  have oldId : entryId manager.activeTransactions place = transaction.id := by
    simp [entryId, inside, found]
  exact inside.ne (same (Or.inr held) (Or.inl rfl) (oldId.trans sameId))

theorem beginsFresh_of_leavesFindable (tabled : Tabled manager) {call : ManagerCall}
    (leaves : LeavesFindable manager call) : BeginsFresh manager call := by
  obtain ⟨next, taken, finds⟩ := leaves
  cases call with
  | commit | rollback => trivial
  | begin input =>
      have begun : manager.begin input = some next := taken
      rw [HashedManager.begin] at begun
      have fits : ¬ Overflows manager input := by
        intro overflows
        rw [resize_of_overflows overflows] at begun
        cases begun
      refine ⟨fits, fun appends => ?_⟩
      obtain ⟨resized, grown, sameArray, resizedTabled⟩ := tabled.resize fits appends
      rw [grown] at begun
      cases begun
      refine ⟨entryAllocated_of_findsUnfinished resizedTabled finds, ?_⟩
      rw [← sameArray]
      exact fresh_of_findsUnfinished finds

end Invariant

theorem keeps_tabled : Keeps managerStep BeginsFresh Tabled := by
  intro manager call next tabled fresh taken
  obtain ⟨kept, keptTaken, keptTabled⟩ := tabled.nextCall fresh
  obtain rfl := Option.some.inj (keptTaken.symm.trans taken)
  exact keptTabled

/-- The input of a begin in the first second, with memory to spare. -/
def inputWith (random : Nat) : BeginInput where
  isolationLevel := none
  userId := ascii "u"
  idTime := 1
  random
  startTime := 1
  arrayAllocated := true
  tableAllocated := true
  entryAllocated := true

end Jdbx
