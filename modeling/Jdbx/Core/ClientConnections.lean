import Jdbx.Library.GuardedRun
import Mathlib.Data.List.Basic
import Mathlib.Logic.Function.Basic

/-!
# Client connections

`client_connection.c`: connections with reference counts, and the manager that lists them.
Each atomic operation is one step, and so is each section under a mutex; the loops of
`connection_manager_cleanup_expired` and `connection_manager_shutdown` take one step for each
slot, since they release connections inside.  A test of `g_connection_manager` and the lock
after it are one step.  Connections and threads are numbers.

Beside the fields of a connection the state counts the references that have been returned and
not released, and the calls of `client_connection_destroy_internal`.
-/

namespace Jdbx

structure ClientConnection where
  refCount : Int32
  isDestroyed : Bool
  cleanupInProgress : Bool
  holders : Nat
  destructions : Nat

/-- `connection_manager_t`, with the thread that has locked `manager_mutex`. -/
structure ConnectionManager where
  managerMutex : Option Nat
  activeConnections : List (Option Nat)
  activeCount : Nat

/-- Where a thread stands in its call.  `creates` marks the registration in
`client_connection_create`. -/
inductive ConnectionPlace where
  | idle
  | register (connection : Nat) (creates : Bool)
  | unregister (connection : Nat)
  | loadCleanup (connection : Nat)
  | increment (connection : Nat)
  | recheck (connection : Nat) (oldCount : Int32)
  | undo (connection : Nat)
  /-- The unregistration in `client_connection_release`, once the count is zero. -/
  | unregisterLast (connection : Nat)
  | markDestroyed (connection : Nat)
  | markCleanup (connection : Nat)
  | closeSocket (connection : Nat)
  | free (connection : Nat)
  | lockCleanup
  | cleanup (index : Nat)
  | lockShutdown
  | shutdown (index : Nat)
  | freeManager
  deriving DecidableEq

namespace ConnectionPlace

def holds (connection : Nat) : ConnectionPlace → Bool
  | register other creates => decide (other = connection) && creates
  | recheck other oldCount => decide (other = connection) && decide (0 < oldCount)
  | _ => false

def destroys (connection : Nat) : ConnectionPlace → Bool
  | unregisterLast other | markDestroyed other => decide (other = connection)
  | _ => false

/-- The next step locks `manager_mutex`. -/
def waits : ConnectionPlace → Bool
  | register _ _ | unregister _ | unregisterLast _ | lockCleanup | lockShutdown => true
  | _ => false

end ConnectionPlace

namespace ConnectionManager

variable (manager : ConnectionManager) (connection : Nat)

/-- `connection_manager_register`, under the mutex. -/
def register : ConnectionManager :=
  if manager.activeCount ≥ manager.activeConnections.length then manager
  else match manager.activeConnections.findIdx? (· = none) with
    | some index =>
        { manager with
          activeConnections := manager.activeConnections.set index (some connection)
          activeCount := manager.activeCount + 1 }
    | none => manager

def clearSlot (index : Nat) : ConnectionManager :=
  { manager with
    activeConnections := manager.activeConnections.set index none
    activeCount := manager.activeCount - 1 }

/-- `connection_manager_unregister`, under the mutex. -/
def unregister : ConnectionManager :=
  match manager.activeConnections.findIdx? (· = some connection) with
  | some index => manager.clearSlot index
  | none => manager

/-- What `active_connections[index]` points to. -/
def slot (index : Nat) : Option Nat := manager.activeConnections[index]?.join

end ConnectionManager

structure ConnectionState where
  connections : Nat → ClientConnection
  /-- The number of connections created so far. -/
  created : Nat
  /-- `g_connection_manager`. -/
  manager : Option ConnectionManager
  threads : List ConnectionPlace

namespace ConnectionState

/-- After `connection_manager_init`. -/
def start (maxConnections threads : Nat) : ConnectionState where
  connections := fun _ => ⟨0, false, false, 0, 0⟩
  created := 0
  manager := some ⟨none, List.replicate maxConnections none, 0⟩
  threads := List.replicate threads .idle

variable (state : ConnectionState)

def references (connection : Nat) : Nat :=
  (state.connections connection).holders + state.threads.countP (·.holds connection)

def pending (connection : Nat) : Nat := state.threads.countP (·.destroys connection)

variable (thread : Nat)

def goTo (place : ConnectionPlace) : ConnectionState :=
  { state with threads := state.threads.set thread place }

def setManager (manager : ConnectionManager) : ConnectionState :=
  { state with manager := some manager }

def modify (connection : Nat) (change : ClientConnection → ClientConnection) :
    ConnectionState :=
  { state with
    connections := Function.update state.connections connection
      (change (state.connections connection)) }

def handOut (connection : Nat) : ConnectionState :=
  state.modify connection fun entry => { entry with holders := entry.holders + 1 }

/-- `atomic_fetch_add` and `atomic_fetch_sub` on `ref_count`. -/
def addReference (connection : Nat) : ConnectionState :=
  state.modify connection fun entry => { entry with refCount := entry.refCount + 1 }

def subReference (connection : Nat) : ConnectionState :=
  state.modify connection fun entry => { entry with refCount := entry.refCount - 1 }

/-- The rest of `client_connection_release`, after its `atomic_fetch_sub`.  With a count of
zero the caller does not get back to `place` before the connection is destroyed. -/
def releasedTo (connection : Nat) (place : ConnectionPlace) : ConnectionState :=
  state.goTo thread
    (if (state.connections connection).refCount = 0 then .unregisterLast connection else place)

/-- A section under `manager_mutex`, where there is a manager. -/
def underMutex (absent : ConnectionState) (locked : ConnectionManager → ConnectionState) :
    Option ConnectionState :=
  match state.manager with
  | none => some absent
  | some manager => if manager.managerMutex = none then some (locked manager) else none

/-- A slot of the loop in `connection_manager_cleanup_expired`.  `expired` is the answer of
`is_connection_expired`. -/
def cleanupSlot (manager : ConnectionManager) (index : Nat) (expired : Bool) : ConnectionState :=
  if index < manager.activeConnections.length then
    match manager.slot index, expired with
    | some connection, true =>
        ((state.setManager (manager.clearSlot index)).subReference connection).releasedTo thread
          connection (.cleanup (index + 1))
    | _, _ => state.goTo thread (.cleanup (index + 1))
  else (state.setManager { manager with managerMutex := none }).goTo thread .idle

/-- A slot of the loop in `connection_manager_shutdown`. -/
def shutdownSlot (manager : ConnectionManager) (index : Nat) : ConnectionState :=
  if index < manager.activeConnections.length then
    match manager.slot index with
    | some connection =>
        let released := state.subReference connection
        if (released.connections connection).refCount = 0 then
          released.goTo thread (.unregisterLast connection)
        else
          (released.setManager
            { manager with
              activeConnections := manager.activeConnections.set index none }).goTo thread
            (.shutdown (index + 1))
    | none => state.goTo thread (.shutdown (index + 1))
  else
    (state.setManager { manager with managerMutex := none, activeCount := 0 }).goTo thread
      .freeManager

/-- The next step of a thread.  There is none while another thread, or the thread itself, has
the mutex that it waits for, and none that uses a manager that has been freed. -/
def step (expired : Bool) : ConnectionPlace → Option ConnectionState
  | .idle => some state
  | .register connection creates =>
      let returned := if creates then state.handOut connection else state
      state.underMutex (returned.goTo thread .idle) fun manager =>
        (returned.setManager (manager.register connection)).goTo thread .idle
  | .unregister connection =>
      state.underMutex (state.goTo thread .idle) fun manager =>
        (state.setManager (manager.unregister connection)).goTo thread .idle
  | .loadCleanup connection =>
      some (state.goTo thread
        (if (state.connections connection).cleanupInProgress then .idle
        else .increment connection))
  | .increment connection =>
      some ((state.addReference connection).goTo thread
        (.recheck connection (state.connections connection).refCount))
  | .recheck connection oldCount =>
      if (state.connections connection).isDestroyed = true ∨ oldCount ≤ 0 then
        some (state.goTo thread (.undo connection))
      else some ((state.handOut connection).goTo thread .idle)
  | .undo connection => some ((state.subReference connection).goTo thread .idle)
  | .unregisterLast connection =>
      state.underMutex (state.goTo thread (.markDestroyed connection)) fun manager =>
        (state.setManager (manager.unregister connection)).goTo thread
          (.markDestroyed connection)
  | .markDestroyed connection =>
      some ((state.modify connection fun entry =>
          { entry with isDestroyed := true, destructions := entry.destructions + 1 }).goTo
        thread (.markCleanup connection))
  | .markCleanup connection =>
      some ((state.modify connection fun entry => { entry with cleanupInProgress := true }).goTo
        thread (.closeSocket connection))
  | .closeSocket connection => some (state.goTo thread (.free connection))
  | .free connection =>
      some ((state.modify connection fun entry =>
          { entry with refCount := 0, isDestroyed := false, cleanupInProgress := false }).goTo
        thread .idle)
  | .lockCleanup =>
      state.underMutex (state.goTo thread .idle) fun manager =>
        (state.setManager { manager with managerMutex := some thread }).goTo thread (.cleanup 0)
  | .cleanup index =>
      state.manager.map fun manager => state.cleanupSlot thread manager index expired
  | .lockShutdown =>
      state.underMutex (state.goTo thread .idle) fun manager =>
        (state.setManager { manager with managerMutex := some thread }).goTo thread (.shutdown 0)
  | .shutdown index => state.manager.map fun manager => state.shutdownSlot thread manager index
  | .freeManager => state.manager.map fun _ => { state.goTo thread .idle with manager := none }

/-- `client_connection_create`.  `granted` is the answer of its allocations. -/
def create (granted : Bool) : ConnectionState :=
  if granted then
    let made : ConnectionState :=
      { state with
        connections := Function.update state.connections state.created ⟨1, false, false, 0, 0⟩
        created := state.created + 1 }
    made.goTo thread (.register state.created true)
  else state

/-- `client_connection_acquire`, up to its first load. -/
def acquire (connection : Nat) : ConnectionState :=
  if (state.connections connection).isDestroyed then state
  else state.goTo thread (.loadCleanup connection)

/-- `client_connection_release` of a reference that is outstanding. -/
def release (connection : Nat) : ConnectionState :=
  if 0 < (state.connections connection).holders then
    (state.modify connection fun entry =>
      { entry with refCount := entry.refCount - 1, holders := entry.holders - 1 }).releasedTo
        thread connection .idle
  else state

end ConnectionState

inductive ConnectionEvent where
  | create (thread : Nat) (granted : Bool)
  | register (thread connection : Nat)
  | acquire (thread connection : Nat)
  | release (thread connection : Nat)
  | unregister (thread connection : Nat)
  | cleanupExpired (thread : Nat)
  | shutdown (thread : Nat)
  | step (thread : Nat) (expired : Bool)

def ConnectionEvent.thread : ConnectionEvent → Nat
  | .create thread _ | .register thread _ | .acquire thread _ | .release thread _
  | .unregister thread _ | .cleanupExpired thread | .shutdown thread | .step thread _ => thread

/-- The call of an idle thread, with a connection that has been created. -/
def ConnectionState.call (state : ConnectionState) : ConnectionEvent → ConnectionState
  | .create thread granted => state.create thread granted
  | .register thread connection =>
      if connection < state.created then state.goTo thread (.register connection false) else state
  | .acquire thread connection =>
      if connection < state.created then state.acquire thread connection else state
  | .release thread connection => state.release thread connection
  | .unregister thread connection =>
      if connection < state.created then state.goTo thread (.unregister connection) else state
  | .cleanupExpired thread => state.goTo thread .lockCleanup
  | .shutdown thread => state.goTo thread .lockShutdown
  | .step _ _ => state

def connectionStep (state : ConnectionState) (event : ConnectionEvent) : Option ConnectionState :=
  match state.threads[event.thread]?, event with
  | some place, .step thread expired => state.step thread expired place
  | some place, call => if place = .idle then some (state.call call) else some state
  | none, _ => some state

/-- A connection is destroyed once at most and not while it is held, `ref_count` counts its
holders, `active_count` counts the slots in use, and no thread waits for a mutex that it has. -/
structure ConnectionLaw (state : ConnectionState) : Prop where
  once : ∀ connection, (state.connections connection).destructions ≤ 1
  unheld : ∀ connection, 0 < (state.connections connection).destructions →
    state.references connection = 0
  counted : ∀ connection,
    (state.connections connection).refCount.toInt = state.references connection
  active : ∀ manager ∈ state.manager,
    manager.activeCount = manager.activeConnections.countP Option.isSome
  unblocked : ∀ manager ∈ state.manager, ∀ thread, manager.managerMutex = some thread →
    ∀ place ∈ state.threads[thread]?, place.waits = false

def ConnectionLawAfter (state : ConnectionState) (event : ConnectionEvent) : Prop :=
  ∀ next ∈ connectionStep state event, ConnectionLaw next

/-- A count that goes up is positive and has room, the cleanup meets no expired connection, and
the shutdown meets none. -/
def KeepsPlaceConnections (state : ConnectionState) (expired : Bool) : ConnectionPlace → Prop
  | .increment connection =>
      0 < (state.connections connection).refCount ∧
        (state.connections connection).refCount < Int32.maxValue
  | .cleanup index => expired = true → ∀ manager ∈ state.manager, manager.slot index = none
  | .shutdown index => ∀ manager ∈ state.manager, manager.slot index = none
  | _ => True

instance (state : ConnectionState) (expired : Bool) :
    DecidablePred (KeepsPlaceConnections state expired)
  | .increment _ => inferInstanceAs (Decidable (_ ∧ _))
  | .cleanup index =>
      inferInstanceAs (Decidable (_ → ∀ manager ∈ state.manager, manager.slot index = none))
  | .shutdown index =>
      inferInstanceAs (Decidable (∀ manager ∈ state.manager, manager.slot index = none))
  | .idle | .register _ _ | .unregister _ | .loadCleanup _ | .recheck _ _ | .undo _
  | .unregisterLast _ | .markDestroyed _ | .markCleanup _ | .closeSocket _ | .free _
  | .lockCleanup | .lockShutdown | .freeManager => inferInstanceAs (Decidable True)

def KeepsConnections (state : ConnectionState) : ConnectionEvent → Prop
  | .step thread expired =>
      ∀ place ∈ state.threads[thread]?, KeepsPlaceConnections state expired place
  | _ => True

instance (state : ConnectionState) : DecidablePred (KeepsConnections state)
  | .step thread expired =>
      inferInstanceAs (Decidable (∀ place ∈ state.threads[thread]?,
        KeepsPlaceConnections state expired place))
  | .create _ _ | .register _ _ | .acquire _ _ | .release _ _ | .unregister _ _
  | .cleanupExpired _ | .shutdown _ => inferInstanceAs (Decidable True)

end Jdbx
