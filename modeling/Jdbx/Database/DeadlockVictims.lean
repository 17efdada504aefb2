import Jdbx.Database.Deadlocks
import Jdbx.Library.CyclePath

/-!
# The victim of a deadlock

`select_deadlock_victim` takes the youngest of the transactions in progress for one of the
cycle.  They are the whole walk of the search into the cycle, and the youngest of them may only
wait for the transactions of the cycle.
-/

namespace Jdbx

open Library Relation

def nodeOrder (table : LockTable) : List Nat :=
  (buildWaitForGraph table).map WaitForNode.transaction

def OnCycle (table : LockTable) (transaction : Nat) : Prop :=
  TransGen (WaitsFor table) transaction transaction

def FindsVictim (table : LockTable) (transactions : Nat → Transaction) : Prop :=
  ∃ found marks, detectCycles (buildWaitForGraph table) (nodeOrder table) = some (found, marks) ∧
    (found = true ↔ ∃ transaction, OnCycle table transaction) ∧
    (found = true → ∃ victim,
      selectDeadlockVictim transactions marks (buildWaitForGraph table) = some victim ∧
        OnCycle table victim)

/-- The transaction is the youngest of those on the walk, and the first of several. -/
def YoungestOf (transactions : Nat → Transaction) (walk : Nat → Prop) (order : List Nat)
    (youngest : Nat) : Prop :=
  ∃ front back, order = front ++ youngest :: back ∧ walk youngest ∧
    (∀ other ∈ front, walk other →
      (transactions other).startTime < (transactions youngest).startTime) ∧
    ∀ other ∈ back, walk other →
      (transactions other).startTime ≤ (transactions youngest).startTime

/-- The walk starts at the first transaction that waits into a cycle, and goes on to the first
that it waits for and that waits into a cycle. -/
def OnDeadlockWalk (table : LockTable) : Nat → Prop :=
  OnWalk (neighbours (buildWaitForGraph table)) (nodeOrder table)

section Selection

variable {transactions : Nat → Transaction} {marks : Marks Nat} {youngest : Nat}

theorem selectVictimLoop_front {front : List Nat}
    (older : ∀ other ∈ front, marks other = .inProgress →
      (transactions other).startTime < (transactions youngest).startTime)
    (rest : List Nat) (victim : Option Nat) (startTime : Int64)
    (before : startTime < (transactions youngest).startTime) :
    ∃ victim' startTime', startTime' < (transactions youngest).startTime ∧
      selectVictimLoop transactions marks victim startTime (front ++ rest) =
        selectVictimLoop transactions marks victim' startTime' rest := by
  induction front generalizing victim startTime with
  | nil => exact ⟨victim, startTime, before, rfl⟩
  | cons other front ih =>
      have behind := ih fun item member =>
        older item (List.mem_cons_of_mem _ member)
      rw [List.cons_append, selectVictimLoop]
      split
      · rename_i taken
        exact behind _ _ (older other List.mem_cons_self taken.1)
      · exact behind victim startTime before

theorem selectVictimLoop_back {back : List Nat}
    (positive : 0 < (transactions youngest).startTime)
    (notYounger : ∀ other ∈ back, marks other = .inProgress →
      (transactions other).startTime ≤ (transactions youngest).startTime) :
    selectVictimLoop transactions marks (some youngest) (transactions youngest).startTime back =
      some youngest := by
  induction back with
  | nil => rfl
  | cons other back ih =>
      rw [selectVictimLoop, if_neg]
      · exact ih fun item member => notYounger item (List.mem_cons_of_mem _ member)
      · rintro ⟨onPath, isZero | younger⟩
        · rw [isZero] at positive
          exact absurd positive (by decide)
        · exact absurd younger (Int64.not_lt.mpr (notYounger other List.mem_cons_self onPath))

theorem selectVictimLoop_youngest {order : List Nat}
    (positive : 0 < (transactions youngest).startTime)
    (isYoungest : YoungestOf transactions (fun other => marks other = .inProgress) order
      youngest) :
    selectVictimLoop transactions marks none 0 order = some youngest := by
  obtain ⟨front, back, rfl, onPath, older, notYounger⟩ := isYoungest
  obtain ⟨victim, startTime, before, same⟩ :=
    selectVictimLoop_front older (youngest :: back) none 0 positive
  rw [same, selectVictimLoop, if_pos ⟨onPath, .inr before⟩]
  exact selectVictimLoop_back positive notYounger

theorem exists_youngestOf (transactions : Nat → Transaction) {walk : Nat → Prop}
    {order : List Nat} (some : ∃ transaction ∈ order, walk transaction) :
    ∃ youngest, YoungestOf transactions walk order youngest := by
  induction order with
  | nil =>
      obtain ⟨_, member, _⟩ := some
      cases member
  | cons first rest ih =>
      by_cases behind : ∃ transaction ∈ rest, walk transaction
      · obtain ⟨youngest, front, back, rfl, onWalk, older, notYounger⟩ :=
          ih behind
        by_cases replaced : walk first ∧
            (transactions youngest).startTime ≤ (transactions first).startTime
        · refine ⟨first, [], front ++ youngest :: back, rfl, replaced.1, nofun, ?_⟩
          intro other member isWalk
          refine Int64.le_trans ?_ replaced.2
          rcases List.mem_append.mp member with isFront | isBack
          · exact Int64.le_of_lt (older other isFront isWalk)
          · rcases List.mem_cons.mp isBack with rfl | isBack
            · exact Int64.le_refl _
            · exact notYounger other isBack isWalk
        · refine ⟨youngest, first :: front, back, rfl, onWalk, ?_, notYounger⟩
          intro other member isWalk
          rcases List.mem_cons.mp member with rfl | isFront
          · exact Int64.not_le.mp fun younger => replaced ⟨isWalk, younger⟩
          · exact older other isFront isWalk
      · obtain ⟨transaction, member, isWalk⟩ := some
        rcases List.mem_cons.mp member with rfl | isRest
        · exact ⟨transaction, [], rest, rfl, isWalk, nofun,
            fun other isRest otherWalk => absurd ⟨other, isRest, otherWalk⟩ behind⟩
        · exact absurd ⟨transaction, isRest, isWalk⟩ behind

end Selection

theorem OnDeadlockWalk.waitsIntoCycle {table : LockTable} {transaction : Nat}
    (onWalk : OnDeadlockWalk table transaction) : WaitsIntoCycle table transaction := by
  obtain ⟨front, root, back, -, -, reaches, walk⟩ := onWalk
  rw [← reachesCycle_iff]
  cases walk with
  | refl => exact reaches
  | tail _ first => exact first.2

theorem detectCycles_walk (table : LockTable) :
    ∃ found marks, detectCycles (buildWaitForGraph table) (nodeOrder table) =
        some (found, marks) ∧
      (found = true ↔ ∃ transaction, OnCycle table transaction) ∧
      (found = true → (∃ transaction ∈ nodeOrder table, OnDeadlockWalk table transaction) ∧
        ∀ transaction, marks transaction = .inProgress ↔ OnDeadlockWalk table transaction) := by
  obtain ⟨found, marks, detected, safe, path⟩ :=
    detectCycles_spec table (nodeOrder table) fun _ member => member
  have walk : found = true →
      ∀ transaction, marks transaction = .inProgress ↔ OnDeadlockWalk table transaction := by
    rintro rfl
    have fresh : VisitedSafe (neighbours (buildWaitForGraph table)) fun _ => .unvisited := by
      intro vertex visited
      cases visited
    refine searchAll_onWalk fresh (fun vertex onPath => ?_) detected
    cases onPath
  refine ⟨found, marks, detected, ⟨fun met => ?_, ?_⟩, fun met => ⟨?_, walk met⟩⟩
  · obtain ⟨⟨start, _, onPath⟩, intoCycle⟩ := path met
    obtain ⟨transaction, _, cycle⟩ := intoCycle start onPath
    exact ⟨transaction, cycle⟩
  · rintro ⟨transaction, cycle⟩
    have waits : WaitsIntoCycle table transaction := ⟨transaction, .refl, cycle⟩
    cases found with
    | true => rfl
    | false => exact absurd waits (safe rfl transaction waits.hasNode)
  · obtain ⟨⟨start, member, onPath⟩, _⟩ := path met
    exact ⟨start, member, (walk met start).mp onPath⟩

/-- The victim is on a cycle exactly if the youngest transaction of the walk is. -/
theorem findsVictim_iff (table : LockTable) (transactions : Nat → Transaction)
    (positive : ∀ transaction, 0 < (transactions transaction).startTime) :
    FindsVictim table transactions ↔
      ∀ youngest, YoungestOf transactions (OnDeadlockWalk table) (nodeOrder table) youngest →
        OnCycle table youngest := by
  obtain ⟨found, marks, detected, cycles, walk⟩ := detectCycles_walk table
  have selects : found = true → ∀ youngest,
      YoungestOf transactions (OnDeadlockWalk table) (nodeOrder table) youngest →
        selectDeadlockVictim transactions marks (buildWaitForGraph table) = some youngest := by
    intro met youngest isYoungest
    have sameWalk : OnDeadlockWalk table = fun other => marks other = .inProgress :=
      funext fun other => propext ((walk met).2 other).symm
    rw [sameWalk] at isYoungest
    exact selectVictimLoop_youngest (positive youngest) isYoungest
  constructor
  · rintro ⟨found', marks', detected', _, finds⟩ youngest isYoungest
    obtain ⟨rfl, rfl⟩ : found = found' ∧ marks = marks' := by
      simpa using detected.symm.trans detected'
    obtain ⟨_, _, _, onWalk, _⟩ := id isYoungest
    obtain ⟨transaction, _, cycle⟩ := onWalk.waitsIntoCycle
    have met := cycles.mpr ⟨transaction, cycle⟩
    obtain ⟨victim, selected, victimCycle⟩ := finds met
    rw [selects met youngest isYoungest, Option.some.injEq] at selected
    exact selected ▸ victimCycle
  · intro onCycle
    refine ⟨found, marks, detected, cycles, fun met => ?_⟩
    obtain ⟨youngest, isYoungest⟩ := exists_youngestOf transactions (walk met).1
    exact ⟨youngest, selects met youngest isYoungest, onCycle youngest isYoungest⟩

def heldDocument (address : Nat) (documentId : Bytes) (granted : LockRequest) : LockEntry :=
  { writtenDocument address documentId granted granted with waitingQueue := [] }

/-- Transactions 1 and 2 wait for each other, and transaction 3, which holds a document of its
own, waits for 1. -/
def threeWriters : LockTable :=
  [[heldDocument 0 (ascii "d") (writeRequest 1 3 .granted),
    writtenDocument 1 (ascii "a") (writeRequest 2 3 .waiting) (writeRequest 3 1 .granted),
    writtenDocument 2 (ascii "b") (writeRequest 4 2 .waiting) (writeRequest 5 1 .granted),
    writtenDocument 3 (ascii "c") (writeRequest 6 1 .waiting) (writeRequest 7 2 .granted)]]

/-- A transaction that started at that time. -/
def startedAt (startTime : Int64) : Transaction where
  id := ascii "tx"
  state := .active
  startTime := startTime
  commitTime := 0
  userId := ascii "user"
  isolationLevel := .serializable

/-- All of two writers are on a cycle. -/
theorem findsVictim_twoWriters : FindsVictim twoWriters fun _ => startedAt 100 :=
  (findsVictim_iff twoWriters _ fun _ => by decide).mpr fun youngest isYoungest => by
    obtain ⟨front, back, layout, _⟩ := isYoungest
    have member : youngest ∈ nodeOrder twoWriters := by
      rw [layout]
      simp
    have nodes : nodeOrder twoWriters = [1, 2] := by decide +kernel
    rw [nodes, List.mem_cons, List.mem_singleton] at member
    rcases member with rfl | rfl
    · exact twoWriters_cycle.1
    · exact twoWriters_cycle.2

theorem not_onCycle_thirdWriter : ¬ OnCycle threeWriters 3 := by
  intro cycle
  obtain ⟨source, _, waits⟩ := TransGen.tail'_iff.mp cycle
  rw [← edge_neighbours] at waits
  have noEdge : ∀ node ∈ buildWaitForGraph threeWriters, 3 ∉ node.waitingFor := by
    decide +kernel
  unfold Edge neighbours at waits
  split at waits
  · rename_i node found
    exact noEdge node (List.mem_of_find?_eq_some found) (List.mem_filter.mp waits).1
  · cases waits

/-- The victim is the youngest transaction, which only waits for the deadlocked ones. -/
theorem not_findsVictim_threeWriters :
    ¬ FindsVictim threeWriters fun transaction => startedAt (Int64.ofNat (100 + transaction)) := by
  rintro ⟨found, marks, detected, _, finds⟩
  have isThird : (detectCycles (buildWaitForGraph threeWriters) (nodeOrder threeWriters)).map
      (fun outcome => (outcome.1, selectDeadlockVictim
        (fun transaction => startedAt (Int64.ofNat (100 + transaction))) outcome.2
          (buildWaitForGraph threeWriters))) = some (true, some 3) := by
    decide +kernel
  rw [detected, Option.map_some, Option.some.injEq, Prod.mk.injEq] at isThird
  obtain ⟨victim, selected, cycle⟩ := finds isThird.1
  rw [selected, Option.some.injEq] at isThird
  exact not_onCycle_thirdWriter (isThird.2 ▸ cycle)

end Jdbx
