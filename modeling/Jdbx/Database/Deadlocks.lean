import Jdbx.Database.LockManager
import Jdbx.Library.CycleSearch

/-!
# Deadlock detection

`lock_manager_check_deadlocks` builds the wait-for graph of the lock table,
searches it for a cycle, aborts a transaction of the path on which it found
one, and searches again.  The graph is built from the requests alone, so that
the second search still meets the aborted transaction.
-/

namespace Jdbx

open Library Relation

/-- `wait_for_node_t`.  The visit state is kept by the search. -/
structure WaitForNode where
  transaction : Nat
  waitingFor : List Nat
  deriving DecidableEq, Repr

def hasNode (nodes : List WaitForNode) (transaction : Nat) : Bool :=
  nodes.any fun node => node.transaction == transaction

/-- The second pass of `build_wait_for_graph`, for one request. -/
def addNode (nodes : List WaitForNode) (request : LockRequest) : List WaitForNode :=
  if hasNode nodes request.transaction then nodes
  else nodes ++ [{ transaction := request.transaction, waitingFor := [] }]

def addWaitingFor (node : WaitForNode) (waitingFor : Nat) : WaitForNode :=
  if waitingFor ∈ node.waitingFor then node
  else { node with waitingFor := node.waitingFor ++ [waitingFor] }

/-- The third pass of `build_wait_for_graph`, for one waiting and one granted
request.  The nodes have different transactions, so that the update reaches
one node at most. -/
def addEdge (waiting : LockRequest) (nodes : List WaitForNode) (granted : LockRequest) :
    List WaitForNode :=
  if (granted.lockType = .exclusive ∨ waiting.lockType = .exclusive) ∧
      hasNode nodes granted.transaction then
    nodes.map fun node =>
      if node.transaction = waiting.transaction then addWaitingFor node granted.transaction
      else node
  else nodes

/-- The second pass of `build_wait_for_graph`: the nodes. -/
def createNodes (table : LockTable) : List WaitForNode :=
  table.flatten.foldl
    (fun nodes entry => (entry.grantedQueue ++ entry.waitingQueue).foldl addNode nodes) []

def buildWaitForGraph (table : LockTable) : List WaitForNode :=
  table.flatten.foldl
    (fun nodes entry =>
      entry.waitingQueue.foldl
        (fun nodes waiting => entry.grantedQueue.foldl (addEdge waiting) nodes) nodes)
    (createNodes table)

/-- The neighbours that `detect_cycle` goes to: what the node of the transaction
waits for, as far as it has a node. -/
def neighbours (nodes : List WaitForNode) (transaction : Nat) : List Nat :=
  match nodes.find? fun node => node.transaction == transaction with
  | some node => node.waitingFor.filter (hasNode nodes)
  | none => []

/-- The loops over `detect_cycle`, from fresh visit states. -/
def detectCycles (nodes : List WaitForNode) (starts : List Nat) : Option (Bool × Marks Nat) :=
  searchAll (neighbours nodes) nodes.length (fun _ => .unvisited) starts

/-- The loop of `select_deadlock_victim`. -/
def selectVictimLoop (transactions : Nat → Transaction) (marks : Marks Nat) (victim : Option Nat)
    (youngestStartTime : Int64) : List Nat → Option Nat
  | [] => victim
  | transaction :: rest =>
    let startTime := (transactions transaction).startTime
    if marks transaction = .inProgress ∧
        (youngestStartTime = 0 ∨ youngestStartTime < startTime) then
      selectVictimLoop transactions marks (some transaction) startTime rest
    else selectVictimLoop transactions marks victim youngestStartTime rest

def selectDeadlockVictim (transactions : Nat → Transaction) (marks : Marks Nat)
    (nodes : List WaitForNode) : Option Nat :=
  selectVictimLoop transactions marks none 0 (nodes.map WaitForNode.transaction)

def abortTransactionForDeadlock (transactions : Nat → Transaction) (victim : Nat) :
    Nat → Transaction :=
  Function.update transactions victim
    { transactions victim with
      state :=
        if (transactions victim).state = .active then .aborting
        else (transactions victim).state }

/-- `lock_manager_check_deadlocks`.  The fuel bounds the recursion, and a call
that needs more has no result. -/
def checkDeadlocks (deadlockDetection : Bool) (table : LockTable) :
    Nat → (Nat → Transaction) → Option (Bool × (Nat → Transaction))
  | 0, _ => none
  | rounds + 1, transactions =>
    let nodes := buildWaitForGraph table
    let starts := nodes.map WaitForNode.transaction
    if !deadlockDetection || nodes.isEmpty then some (false, transactions)
    else
      match detectCycles nodes starts with
      | none => none
      | some (false, _) => some (false, transactions)
      | some (true, marks) =>
        match selectDeadlockVictim transactions marks nodes with
        | none => some (true, transactions)
        | some victim =>
          let transactions := abortTransactionForDeadlock transactions victim
          match detectCycles nodes (starts.filter fun start => start ≠ victim) with
          | none => none
          | some (true, _) => checkDeadlocks deadlockDetection table rounds transactions
          | some (false, _) => some (true, transactions)

/-! ## The meaning of the graph -/

/-- The first transaction waits for the second: it has a waiting request for a
resource on which the second has been granted a conflicting one. -/
def WaitsFor (table : LockTable) (source target : Nat) : Prop :=
  ∃ entry ∈ table.flatten, ∃ waiting ∈ entry.waitingQueue, ∃ granted ∈ entry.grantedQueue,
    waiting.transaction = source ∧ granted.transaction = target ∧
      (granted.lockType = .exclusive ∨ waiting.lockType = .exclusive)

theorem foldl_adds {σ ι : Type} {step : σ → ι → σ} (invariant property : σ → Prop)
    {adds : ι → Prop} :
    ∀ (items : List ι) {state : σ}, invariant state →
      (∀ item ∈ items, ∀ state, invariant state → invariant (step state item) ∧
        (property (step state item) ↔ property state ∨ adds item)) →
        invariant (items.foldl step state) ∧
          (property (items.foldl step state) ↔ property state ∨ ∃ item ∈ items, adds item) := by
  intro items
  induction items with
  | nil =>
    intro state holds _
    exact ⟨holds, by simp⟩
  | cons item items ih =>
    intro state holds one
    obtain ⟨kept, added⟩ := one item List.mem_cons_self state holds
    obtain ⟨rest, grown⟩ := ih kept
      fun other member => one other (List.mem_cons_of_mem item member)
    refine ⟨rest, grown.trans ?_⟩
    rw [added, List.exists_mem_cons_iff, or_assoc]

theorem hasNode_iff {nodes : List WaitForNode} {transaction : Nat} :
    hasNode nodes transaction = true ↔ transaction ∈ nodes.map WaitForNode.transaction := by
  simp [hasNode]

def LockEntry.requests (entry : LockEntry) : List LockRequest :=
  entry.grantedQueue ++ entry.waitingQueue

theorem createNodes_spec (table : LockTable) (transaction : Nat) :
    (∀ node ∈ createNodes table, node.waitingFor = []) ∧
      (transaction ∈ (createNodes table).map WaitForNode.transaction ↔
        ∃ entry ∈ table.flatten, ∃ request ∈ entry.requests,
          request.transaction = transaction) := by
  let noEdges (nodes : List WaitForNode) : Prop := ∀ node ∈ nodes, node.waitingFor = []
  let present (nodes : List WaitForNode) : Prop :=
    transaction ∈ nodes.map WaitForNode.transaction
  have one : ∀ nodes request, noEdges nodes → noEdges (addNode nodes request) ∧
      (present (addNode nodes request) ↔ present nodes ∨ request.transaction = transaction) := by
    intro nodes request holds
    simp only [present, addNode]
    split_ifs with found
    · rw [hasNode_iff] at found
      refine ⟨holds, Or.inl, ?_⟩
      rintro (before | rfl)
      · exact before
      · exact found
    · refine ⟨fun node member => ?_, by simp [eq_comm]⟩
      rcases List.mem_append.mp member with member | member
      · exact holds node member
      · rw [List.mem_singleton.mp member]
  have none : noEdges [] := by
    intro node member
    cases member
  obtain ⟨empty, spec⟩ := foldl_adds noEdges present table.flatten none
    fun entry _ nodes holds =>
      foldl_adds noEdges present (entry.grantedQueue ++ entry.waitingQueue) holds
        fun request _ nodes holds => one nodes request holds
  refine ⟨empty, spec.trans ?_⟩
  simp [present, LockEntry.requests]

def waitingForOf (nodes : List WaitForNode) (transaction : Nat) : List Nat :=
  match nodes.find? fun node => node.transaction == transaction with
  | some node => node.waitingFor
  | none => []

theorem find?_map_node {nodes : List WaitForNode} {update : WaitForNode → WaitForNode}
    (sameTransaction : ∀ node, (update node).transaction = node.transaction)
    (transaction : Nat) :
    (nodes.map update).find? (fun node => node.transaction == transaction) =
      (nodes.find? fun node => node.transaction == transaction).map update := by
  rw [List.find?_map]
  congr 2
  funext node
  simp [sameTransaction]

theorem addWaitingFor_transaction (node : WaitForNode) (waitingFor : Nat) :
    (addWaitingFor node waitingFor).transaction = node.transaction := by
  rw [addWaitingFor]
  split_ifs <;> rfl

theorem mem_addWaitingFor {node : WaitForNode} {waitingFor target : Nat} :
    target ∈ (addWaitingFor node waitingFor).waitingFor ↔
      target ∈ node.waitingFor ∨ target = waitingFor := by
  rw [addWaitingFor]
  split_ifs with present
  · constructor
    · exact Or.inl
    · rintro (before | rfl)
      · exact before
      · exact present
  · simp

theorem addEdge_transactions (waiting : LockRequest) (nodes : List WaitForNode)
    (granted : LockRequest) :
    (addEdge waiting nodes granted).map WaitForNode.transaction =
      nodes.map WaitForNode.transaction := by
  rw [addEdge]
  split_ifs
  · rw [List.map_map]
    apply List.map_congr_left
    intro node _
    rw [Function.comp_apply]
    split_ifs
    · exact addWaitingFor_transaction node granted.transaction
    · rfl
  · rfl

theorem mem_waitingForOf_addEdge {waiting granted : LockRequest} {nodes : List WaitForNode}
    (waitingNode : hasNode nodes waiting.transaction)
    (grantedNode : hasNode nodes granted.transaction) (source target : Nat) :
    target ∈ waitingForOf (addEdge waiting nodes granted) source ↔
      target ∈ waitingForOf nodes source ∨
        waiting.transaction = source ∧ granted.transaction = target ∧
          (granted.lockType = .exclusive ∨ waiting.lockType = .exclusive) := by
  rw [addEdge]
  split_ifs with conflict
  · rw [waitingForOf, find?_map_node ?_ source]
    · rw [waitingForOf]
      cases found : nodes.find? fun node => node.transaction == source with
      | none =>
        have missing : waiting.transaction ≠ source := by
          rintro rfl
          obtain ⟨node, member, same⟩ := List.any_eq_true.mp waitingNode
          exact absurd same (by simpa using List.find?_eq_none.mp found node member)
        simp [missing]
      | some node =>
        have sameSource : node.transaction = source := by
          simpa using List.find?_some found
        simp only [Option.map_some]
        split_ifs with isWaiting
        · rw [mem_addWaitingFor]
          have isSource : waiting.transaction = source := isWaiting.symm.trans sameSource
          have same : target = granted.transaction ↔ granted.transaction = target := eq_comm
          simp only [isSource, conflict.1, true_and, and_true, same]
        · have notSource : waiting.transaction ≠ source :=
            fun isSource => isWaiting (sameSource.trans isSource.symm)
          simp [notSource]
    · intro node
      split_ifs
      · exact addWaitingFor_transaction node granted.transaction
      · rfl
  · have noConflict : ¬ (granted.lockType = .exclusive ∨ waiting.lockType = .exclusive) :=
      fun either => conflict ⟨either, grantedNode⟩
    simp [noConflict]

theorem buildWaitForGraph_edges (table : LockTable) (source target : Nat) :
    (buildWaitForGraph table).map WaitForNode.transaction =
        (createNodes table).map WaitForNode.transaction ∧
      (target ∈ waitingForOf (buildWaitForGraph table) source ↔
        target ∈ waitingForOf (createNodes table) source ∨ WaitsFor table source target) := by
  let sameNodes (nodes : List WaitForNode) : Prop :=
    nodes.map WaitForNode.transaction = (createNodes table).map WaitForNode.transaction
  have present : ∀ nodes, sameNodes nodes → ∀ entry ∈ table.flatten,
      ∀ request ∈ entry.requests, hasNode nodes request.transaction = true := by
    intro nodes same entry entryMember request member
    rw [hasNode_iff, same, (createNodes_spec table request.transaction).2]
    exact ⟨entry, entryMember, request, member, rfl⟩
  let adjacent (nodes : List WaitForNode) : Prop := target ∈ waitingForOf nodes source
  refine foldl_adds sameNodes adjacent table.flatten rfl ?_
  intro entry entryMember nodes same
  refine foldl_adds sameNodes adjacent entry.waitingQueue same ?_
  intro waiting waitingMember nodes same
  refine foldl_adds sameNodes adjacent entry.grantedQueue same ?_
  intro granted grantedMember nodes same
  have waitingNode : hasNode nodes waiting.transaction = true :=
    present nodes same entry entryMember waiting (List.mem_append_right _ waitingMember)
  have grantedNode : hasNode nodes granted.transaction = true :=
    present nodes same entry entryMember granted (List.mem_append_left _ grantedMember)
  exact ⟨(addEdge_transactions waiting nodes granted).trans same,
    mem_waitingForOf_addEdge waitingNode grantedNode source target⟩

theorem hasNode_buildWaitForGraph (table : LockTable) (transaction : Nat) :
    hasNode (buildWaitForGraph table) transaction = true ↔
      ∃ entry ∈ table.flatten, ∃ request ∈ entry.requests,
        request.transaction = transaction := by
  rw [hasNode_iff, (buildWaitForGraph_edges table transaction transaction).1]
  exact (createNodes_spec table transaction).2

variable {table : LockTable}

theorem WaitsFor.nodes {source target : Nat} (waits : WaitsFor table source target) :
    hasNode (buildWaitForGraph table) source = true ∧
      hasNode (buildWaitForGraph table) target = true := by
  obtain ⟨entry, entryMember, waiting, waitingMember, granted, grantedMember, rfl, rfl, -⟩ := waits
  rw [hasNode_buildWaitForGraph, hasNode_buildWaitForGraph]
  exact ⟨⟨entry, entryMember, waiting, List.mem_append_right _ waitingMember, rfl⟩,
    ⟨entry, entryMember, granted, List.mem_append_left _ grantedMember, rfl⟩⟩

theorem edge_neighbours (table : LockTable) :
    Edge (neighbours (buildWaitForGraph table)) = WaitsFor table := by
  funext source target
  have filtered : target ∈ neighbours (buildWaitForGraph table) source ↔
      target ∈ waitingForOf (buildWaitForGraph table) source ∧
        hasNode (buildWaitForGraph table) target = true := by
    rw [neighbours, waitingForOf]
    split
    · exact List.mem_filter
    · simp
  have noEdges : target ∉ waitingForOf (createNodes table) source := by
    intro member
    rw [waitingForOf] at member
    split at member
    · rename_i node found
      rw [(createNodes_spec table source).1 node (List.mem_of_find?_eq_some found)] at member
      cases member
    · cases member
  rw [(buildWaitForGraph_edges table source target).2, or_iff_right noEdges] at filtered
  exact propext (filtered.trans (and_iff_left_of_imp fun waits => waits.nodes.2))

def WaitsIntoCycle (table : LockTable) (transaction : Nat) : Prop :=
  ∃ other, ReflTransGen (WaitsFor table) transaction other ∧ TransGen (WaitsFor table) other other

theorem reachesCycle_iff {transaction : Nat} :
    ReachesCycle (neighbours (buildWaitForGraph table)) transaction ↔
      WaitsIntoCycle table transaction := by
  rw [ReachesCycle, edge_neighbours, WaitsIntoCycle]

theorem WaitsIntoCycle.hasNode {transaction : Nat} (waits : WaitsIntoCycle table transaction) :
    transaction ∈ (buildWaitForGraph table).map WaitForNode.transaction := by
  obtain ⟨next, edge, -⟩ := (reachesCycle_iff.mpr waits).successor
  have direct : WaitsFor table transaction next := by
    rw [← edge_neighbours]
    exact edge
  exact hasNode_iff.mp direct.nodes.1

theorem detectCycles_spec (table : LockTable) (starts : List Nat)
    (nodes : ∀ start ∈ starts,
      start ∈ (buildWaitForGraph table).map WaitForNode.transaction) :
    ∃ found marks, detectCycles (buildWaitForGraph table) starts = some (found, marks) ∧
      (found = false → ∀ start ∈ starts, ¬ WaitsIntoCycle table start) ∧
      (found = true → (∃ start ∈ starts, marks start = .inProgress) ∧
        ∀ transaction, marks transaction = .inProgress → WaitsIntoCycle table transaction) := by
  have closed : ∀ vertex ∈ (buildWaitForGraph table).map WaitForNode.transaction,
      ∀ next ∈ neighbours (buildWaitForGraph table) vertex,
        next ∈ (buildWaitForGraph table).map WaitForNode.transaction := by
    intro vertex _ next edge
    have waits : WaitsFor table vertex next := by
      rw [← edge_neighbours]
      exact edge
    exact hasNode_iff.mp waits.nodes.2
  have enough : unvisitedCount ((buildWaitForGraph table).map WaitForNode.transaction)
      (fun _ => .unvisited) ≤ (buildWaitForGraph table).length := by
    simp [unvisitedCount]
  obtain ⟨⟨found, marks⟩, outcome⟩ := searchAll_enough closed nodes enough
  have safe : VisitedSafe (neighbours (buildWaitForGraph table)) fun _ => .unvisited := by
    intro vertex visited
    cases visited
  have noPath : ∀ vertex : Nat, (fun _ => Mark.unvisited) vertex ≠ .inProgress := by
    intro vertex onPath
    cases onPath
  obtain ⟨none, some⟩ := searchAll_spec safe noPath outcome
  simp only [reachesCycle_iff] at none some
  exact ⟨found, marks, outcome, none, some⟩

theorem selectVictimLoop_spec (transactions : Nat → Transaction) (marks : Marks Nat) :
    ∀ (candidates : List Nat) (victim : Option Nat) (youngestStartTime : Int64),
      (∀ chosen ∈ victim, marks chosen = .inProgress) →
      (victim = none → youngestStartTime = 0) →
      (victim ≠ none ∨ ∃ candidate ∈ candidates, marks candidate = .inProgress) →
        ∃ chosen, selectVictimLoop transactions marks victim youngestStartTime candidates =
          some chosen ∧ marks chosen = .inProgress := by
  intro candidates
  induction candidates with
  | nil =>
    intro victim youngestStartTime onPath _ some
    rcases some with some | ⟨candidate, member, -⟩
    · obtain ⟨chosen, rfl⟩ := Option.ne_none_iff_exists'.mp some
      exact ⟨chosen, rfl, onPath chosen rfl⟩
    · cases member
  | cons candidate rest ih =>
    intro victim youngestStartTime onPath fresh some
    rw [selectVictimLoop]
    split_ifs with younger
    · apply ih
      · intro chosen same
        cases same
        exact younger.1
      · simp
      · exact Or.inl (by simp)
    · apply ih victim youngestStartTime onPath fresh
      cases victim with
      | some chosen => exact Or.inl (by simp)
      | none =>
        refine Or.inr ?_
        rcases some with some | ⟨tested, member, inProgress⟩
        · exact absurd rfl some
        · rcases List.mem_cons.mp member with rfl | member
          · exact absurd ⟨inProgress, Or.inl (fresh rfl)⟩ younger
          · exact ⟨tested, member, inProgress⟩

theorem checkDeadlocks_succ (table : LockTable) (rounds : Nat)
    (transactions : Nat → Transaction) :
    (∀ transaction, ¬ WaitsIntoCycle table transaction) ∧
        checkDeadlocks true table (rounds + 1) transactions = some (false, transactions) ∨
      ∃ victim, WaitsIntoCycle table victim ∧
        ((∀ transaction, WaitsIntoCycle table transaction → transaction = victim) ∧
            checkDeadlocks true table (rounds + 1) transactions =
              some (true, abortTransactionForDeadlock transactions victim) ∨
          (∃ transaction, WaitsIntoCycle table transaction ∧ transaction ≠ victim) ∧
            checkDeadlocks true table (rounds + 1) transactions =
              checkDeadlocks true table rounds
                (abortTransactionForDeadlock transactions victim)) := by
  obtain ⟨starts, sameStarts⟩ :
      ∃ starts, starts = (buildWaitForGraph table).map WaitForNode.transaction := ⟨_, rfl⟩
  obtain ⟨found, marks, detected, safe, path⟩ := detectCycles_spec table starts
    fun start member => sameStarts ▸ member
  rw [checkDeadlocks, ← sameStarts]
  by_cases empty : (buildWaitForGraph table).isEmpty = true
  · refine Or.inl ⟨fun transaction waits => ?_, by simp [empty]⟩
    have member := waits.hasNode
    rw [List.isEmpty_iff.mp empty] at member
    cases member
  · simp only [empty, Bool.not_true, Bool.or_self, Bool.false_eq_true, if_false]
    rw [detected]
    cases found with
    | false =>
      exact Or.inl ⟨fun transaction waits => safe rfl transaction (sameStarts ▸ waits.hasNode) waits, rfl⟩
    | true =>
      refine Or.inr ?_
      obtain ⟨onPath, intoCycle⟩ := path rfl
      obtain ⟨victim, selected, inProgress⟩ :=
        selectVictimLoop_spec transactions marks starts none 0 (by simp) (by simp)
          (Or.inr onPath)
      obtain ⟨still, marksAfter, detectedAfter, noneAfter, someAfter⟩ :=
        detectCycles_spec table (starts.filter fun start => start ≠ victim)
          fun start member => sameStarts ▸ (List.mem_filter.mp member).1
      refine ⟨victim, intoCycle victim inProgress, ?_⟩
      simp only [selectDeadlockVictim, ← sameStarts, selected]
      rw [detectedAfter]
      cases still with
      | false =>
        refine Or.inl ⟨fun transaction waits => ?_, rfl⟩
        by_contra different
        refine noneAfter rfl transaction (List.mem_filter.mpr ⟨sameStarts ▸ waits.hasNode, ?_⟩) waits
        simpa using different
      | true =>
        obtain ⟨⟨start, member, again⟩, intoCycleAfter⟩ := someAfter rfl
        have different : start ≠ victim := by
          simpa using (List.mem_filter.mp member).2
        exact Or.inr ⟨⟨start, intoCycleAfter start again, different⟩, rfl⟩

def ActiveCycle (table : LockTable) (transactions : Nat → Transaction) : Prop :=
  ∃ transaction, TransGen
    (fun source target => WaitsFor table source target ∧
      (transactions source).state = .active ∧ (transactions target).state = .active)
    transaction transaction

def ResolvesDeadlocks (deadlockDetection : Bool) (table : LockTable)
    (transactions : Nat → Transaction) : Prop :=
  ∃ rounds detected after,
    checkDeadlocks deadlockDetection table rounds transactions = some (detected, after) ∧
      (detected = true → ¬ ActiveCycle table after)

/-- At most one transaction waits, directly or through others, into a cycle:
the graph has no cycle at all, or its only cycle is one transaction waiting for
itself for which no other transaction waits. -/
def AtMostOneWaitsIntoCycle (table : LockTable) : Prop :=
  ∀ first second, WaitsIntoCycle table first → WaitsIntoCycle table second → first = second

theorem ActiveCycle.waitsIntoCycle {transactions : Nat → Transaction}
    (cycle : ActiveCycle table transactions) :
    ∃ transaction, WaitsIntoCycle table transaction ∧
      (transactions transaction).state = .active := by
  obtain ⟨transaction, path⟩ := cycle
  obtain ⟨next, edge, -⟩ := TransGen.head'_iff.mp path
  have waits : TransGen (WaitsFor table) transaction transaction :=
    path.lift id fun _ _ active => active.1
  exact ⟨transaction, ⟨transaction, ReflTransGen.refl, waits⟩, edge.2.1⟩

theorem abortTransactionForDeadlock_state (transactions : Nat → Transaction) (victim : Nat) :
    (abortTransactionForDeadlock transactions victim victim).state ≠ .active := by
  rw [abortTransactionForDeadlock, Function.update_self]
  by_cases active : (transactions victim).state = .active
  · simp [active]
  · simp [active]

theorem checkDeadlocks_eq_none {first second : Nat} (firstWaits : WaitsIntoCycle table first)
    (secondWaits : WaitsIntoCycle table second) (different : first ≠ second) :
    ∀ (rounds : Nat) (transactions : Nat → Transaction),
      checkDeadlocks true table rounds transactions = none := by
  intro rounds
  induction rounds with
  | zero =>
    intro transactions
    rfl
  | succ rounds ih =>
    intro transactions
    rcases checkDeadlocks_succ table rounds transactions with
      ⟨none, -⟩ | ⟨victim, -, ⟨only, -⟩ | ⟨-, again⟩⟩
    · exact absurd firstWaits (none first)
    · exact absurd ((only first firstWaits).trans (only second secondWaits).symm) different
    · rw [again]
      exact ih (abortTransactionForDeadlock transactions victim)

theorem not_resolvesDeadlocks {first second : Nat} (firstWaits : WaitsIntoCycle table first)
    (secondWaits : WaitsIntoCycle table second) (different : first ≠ second)
    (transactions : Nat → Transaction) :
    ¬ ResolvesDeadlocks true table transactions := by
  rintro ⟨rounds, detected, after, result, -⟩
  rw [checkDeadlocks_eq_none firstWaits secondWaits different] at result
  cases result

/-- The check of the deadlocks does what it is for exactly when detection is
off or at most one transaction waits into a cycle. -/
theorem resolvesDeadlocks_iff (deadlockDetection : Bool) (table : LockTable)
    (transactions : Nat → Transaction) :
    ResolvesDeadlocks deadlockDetection table transactions ↔
      deadlockDetection = false ∨ AtMostOneWaitsIntoCycle table := by
  cases deadlockDetection with
  | false =>
    refine iff_of_true ⟨1, false, transactions, ?_, by simp⟩ (Or.inl rfl)
    simp [checkDeadlocks]
  | true =>
    constructor
    · intro resolves
      refine Or.inr fun first second firstWaits secondWaits => ?_
      by_contra different
      exact not_resolvesDeadlocks firstWaits secondWaits different transactions resolves
    · rintro (off | single)
      · cases off
      · rcases checkDeadlocks_succ table 0 transactions with
          ⟨-, result⟩ | ⟨victim, waits, ⟨only, result⟩ | ⟨⟨other, others, different⟩, -⟩⟩
        · exact ⟨1, false, transactions, result, by simp⟩
        · refine ⟨1, true, abortTransactionForDeadlock transactions victim, result, ?_⟩
          intro _ cycle
          obtain ⟨transaction, intoCycle, active⟩ := cycle.waitsIntoCycle
          rw [only transaction intoCycle] at active
          exact abortTransactionForDeadlock_state transactions victim active
        · exact absurd (single other victim others waits) different

def writeRequest (address transaction : Nat) (status : LockStatus) : LockRequest :=
  { address, transaction, lockType := .exclusive, status }

/-- A document that one transaction writes and another waits to write. -/
def writtenDocument (address : Nat) (documentId : Bytes) (waiting granted : LockRequest) :
    LockEntry where
  address := address
  key := { collection := ascii "c", documentId := some documentId }
  currentLockType := .exclusive
  readerCount := 0
  waitingQueue := [waiting]
  grantedQueue := [granted]

/-- Transaction 1 holds document `a` and waits for `b`, which transaction 2
holds while it waits for `a`. -/
def twoWriters : LockTable :=
  [[writtenDocument 0 (ascii "a") (writeRequest 4 2 .waiting) (writeRequest 1 1 .granted)],
   [writtenDocument 1 (ascii "b") (writeRequest 3 1 .waiting) (writeRequest 2 2 .granted)]]

theorem twoWriters_cycle :
    TransGen (WaitsFor twoWriters) 1 1 ∧ TransGen (WaitsFor twoWriters) 2 2 := by
  have firstWaits : WaitsFor twoWriters 1 2 :=
    ⟨_, List.mem_cons_of_mem _ List.mem_cons_self, _, List.mem_cons_self, _,
      List.mem_cons_self, rfl, rfl, Or.inl rfl⟩
  have secondWaits : WaitsFor twoWriters 2 1 :=
    ⟨_, List.mem_cons_self, _, List.mem_cons_self, _, List.mem_cons_self, rfl, rfl, Or.inl rfl⟩
  exact ⟨.tail (.single firstWaits) secondWaits, .tail (.single secondWaits) firstWaits⟩

/-- A plain deadlock of two active transactions is never resolved. -/
theorem not_resolvesDeadlocks_twoWriters :
    ¬ ResolvesDeadlocks true twoWriters fun address =>
      { id := ascii "tx", state := .active, startTime := Int64.ofNat (100 + address),
        commitTime := 0, userId := ascii "user", isolationLevel := .serializable } :=
  not_resolvesDeadlocks ⟨1, ReflTransGen.refl, twoWriters_cycle.1⟩
    ⟨2, ReflTransGen.refl, twoWriters_cycle.2⟩ (by decide) _

end Jdbx
