import Jdbx.Core.ClientConnections
import Jdbx.Library.ThreadList

/-!
# Runs over client connections

A connection without references has one thread about to destroy it, or has been destroyed.
While no count goes up from zero, that is for good.
-/

namespace Jdbx

open Library

variable {state next : ConnectionState} {thread connection : Nat}
  {old place : ConnectionPlace} {manager changed : ConnectionManager}

namespace ConnectionState

@[simp] theorem threads_modify (change : ClientConnection → ClientConnection) :
    (state.modify connection change).threads = state.threads := rfl

@[simp] theorem connections_modify (change : ClientConnection → ClientConnection) :
    (state.modify connection change).connections connection =
      change (state.connections connection) :=
  Function.update_self _ _ _

theorem references_goTo (found : state.threads[thread]? = some old) (place : ConnectionPlace)
    (connection : Nat) :
    (state.goTo thread place).references connection + (if old.holds connection then 1 else 0) =
      state.references connection + (if place.holds connection then 1 else 0) := by
  have counts := countP_set found place (·.holds connection)
  rw [references, references, Nat.add_assoc, Nat.add_assoc]
  exact congrArg ((state.connections connection).holders + ·) counts

theorem pending_goTo (found : state.threads[thread]? = some old) (place : ConnectionPlace)
    (connection : Nat) :
    (state.goTo thread place).pending connection + (if old.destroys connection then 1 else 0) =
      state.pending connection + (if place.destroys connection then 1 else 0) :=
  countP_set found place (·.destroys connection)

end ConnectionState

/-! ## References -/

theorem toInt_increment {count : Int32} (room : count < Int32.maxValue) :
    (count + 1).toInt = count.toInt + 1 := by
  have small := Int32.lt_iff_toInt_lt.mp room
  have low := Int32.le_toInt count
  rw [show Int32.maxValue.toInt = 2 ^ 31 - 1 by decide] at small
  rw [Int32.toInt_add, show (1 : Int32).toInt = 1 by decide, Int.bmod_def]
  omega

theorem toInt_decrement {count : Int32} (positive : 0 ≤ count.toInt) :
    (count - 1).toInt = count.toInt - 1 := by
  have high := Int32.toInt_lt count
  rw [Int32.toInt_sub, show (1 : Int32).toInt = 1 by decide, Int.bmod_def]
  omega

def PlaceKept (state : ConnectionState) : ConnectionPlace → Prop
  | .recheck _ oldCount => 0 < oldCount
  | .undo _ => False
  | .markCleanup connection | .closeSocket connection | .free connection =>
    0 < (state.connections connection).destructions
  | _ => True

structure ReferencesKept (state : ConnectionState) : Prop where
  counted : ∀ connection,
    (state.connections connection).refCount.toInt = state.references connection
  ending : ∀ connection,
    state.pending connection + (state.connections connection).destructions =
      if connection < state.created ∧ state.references connection = 0 then 1 else 0
  fresh : ∀ connection, state.created ≤ connection → state.references connection = 0
  marked : ∀ connection, (state.connections connection).isDestroyed = true →
    0 < (state.connections connection).destructions
  places : ∀ place ∈ state.threads, PlaceKept state place

namespace ReferencesKept

theorem placeKept_mono (more : ∀ connection, (state.connections connection).destructions ≤
    (next.connections connection).destructions) (kept : PlaceKept state place) :
    PlaceKept next place := by
  cases place with
  | markCleanup connection | closeSocket connection | free connection =>
    exact Nat.lt_of_lt_of_le kept (more connection)
  | recheck _ _ | undo _ => exact kept
  | _ => trivial

theorem setManager (kept : ReferencesKept state) (manager : ConnectionManager) :
    ReferencesKept (state.setManager manager) :=
  ⟨kept.counted, kept.ending, kept.fresh, kept.marked, kept.places⟩

theorem noManager (kept : ReferencesKept state) :
    ReferencesKept { state with manager := none } :=
  ⟨kept.counted, kept.ending, kept.fresh, kept.marked, kept.places⟩

theorem goTo (kept : ReferencesKept state) (found : state.threads[thread]? = some old)
    (holds : ∀ connection, old.holds connection = place.holds connection)
    (destroys : ∀ connection, old.destroys connection = place.destroys connection)
    (placed : PlaceKept state place) : ReferencesKept (state.goTo thread place) := by
  have references : ∀ connection,
      (state.goTo thread place).references connection = state.references connection := by
    intro connection
    have counts := state.references_goTo found place connection
    rw [holds] at counts
    exact Nat.add_right_cancel counts
  have pending : ∀ connection,
      (state.goTo thread place).pending connection = state.pending connection := by
    intro connection
    have counts := state.pending_goTo found place connection
    rw [destroys] at counts
    exact Nat.add_right_cancel counts
  refine ⟨?_, ?_, ?_, kept.marked, forall_mem_set kept.places placed thread⟩
  · intro connection
    rw [references]
    exact kept.counted connection
  · intro connection
    rw [references, pending]
    exact kept.ending connection
  · intro connection unmade
    rw [references]
    exact kept.fresh connection unmade

theorem references_modify (found : state.threads[thread]? = some old)
    (change : ClientConnection → ClientConnection) (place : ConnectionPlace)
    (connection : Nat) :
    ((state.modify connection change).goTo thread place).references connection +
        (state.connections connection).holders + (if old.holds connection then 1 else 0) =
      state.references connection + (change (state.connections connection)).holders +
        (if place.holds connection then 1 else 0) := by
  have counts := (state.modify connection change).references_goTo found place connection
  have before : (state.modify connection change).references connection +
      (state.connections connection).holders =
        state.references connection + (change (state.connections connection)).holders := by
    rw [ConnectionState.references, ConnectionState.references, state.connections_modify,
      state.threads_modify]
    omega
  omega

theorem modify (kept : ReferencesKept state) (found : state.threads[thread]? = some old)
    {change : ClientConnection → ClientConnection}
    (holds : ∀ other, other ≠ connection → old.holds other = place.holds other)
    (destroys : ∀ other, other ≠ connection → old.destroys other = place.destroys other)
    (more : (state.connections connection).destructions ≤
      (change (state.connections connection)).destructions)
    (counts : ∀ references pending : Nat,
      references + (state.connections connection).holders +
          (if old.holds connection then 1 else 0) =
        state.references connection + (change (state.connections connection)).holders +
          (if place.holds connection then 1 else 0) →
      pending + (if old.destroys connection then 1 else 0) =
        state.pending connection + (if place.destroys connection then 1 else 0) →
      (change (state.connections connection)).refCount.toInt = references ∧
        pending + (change (state.connections connection)).destructions =
          (if connection < state.created ∧ references = 0 then 1 else 0) ∧
        (state.created ≤ connection → references = 0))
    (marked : (change (state.connections connection)).isDestroyed = true →
      0 < (change (state.connections connection)).destructions)
    (placed : PlaceKept (state.modify connection change) place) :
    ReferencesKept ((state.modify connection change).goTo thread place) := by
  have same : ∀ other, other ≠ connection →
      (state.modify connection change).connections other = state.connections other :=
    fun other different => Function.update_of_ne different _ _
  have references : ∀ other, other ≠ connection →
      ((state.modify connection change).goTo thread place).references other =
        state.references other := by
    intro other different
    have counts := (state.modify connection change).references_goTo found place other
    rw [holds other different] at counts
    have before : (state.modify connection change).references other = state.references other := by
      rw [ConnectionState.references, same other different]
      rfl
    rw [← before]
    exact Nat.add_right_cancel counts
  have pending : ∀ other, other ≠ connection →
      ((state.modify connection change).goTo thread place).pending other =
        state.pending other := by
    intro other different
    have counts := (state.modify connection change).pending_goTo found place other
    rw [destroys other different] at counts
    exact Nat.add_right_cancel counts
  have here : (state.modify connection change).connections connection =
      change (state.connections connection) := state.connections_modify change
  have there : ((state.modify connection change).goTo thread place).connections =
    (state.modify connection change).connections := rfl
  have settled := counts _ _ (references_modify found change place connection)
    ((state.modify connection change).pending_goTo found place connection)
  refine ⟨?_, ?_, ?_, ?_, ?_⟩
  · intro other
    by_cases equal : other = connection
    · rw [equal, there, here]
      exact settled.1
    · rw [there, same other equal, references other equal]
      exact kept.counted other
  · intro other
    by_cases equal : other = connection
    · rw [equal, there, here]
      exact settled.2.1
    · rw [there, same other equal, references other equal, pending other equal]
      exact kept.ending other
  · intro other unmade
    by_cases equal : other = connection
    · rw [equal] at unmade ⊢
      exact settled.2.2 unmade
    · rw [references other equal]
      exact kept.fresh other unmade
  · intro other
    by_cases equal : other = connection
    · rw [equal, there, here]
      exact marked
    · rw [there, same other equal]
      exact kept.marked other
  · apply forall_mem_set ?_ placed
    intro placeOther member
    apply placeKept_mono ?_ (kept.places placeOther member)
    intro other
    by_cases equal : other = connection
    · rw [equal, here]
      exact more
    · exact Nat.le_of_eq (congrArg _ (same other equal).symm)

theorem undestroyed (kept : ReferencesKept state) (held : state.references connection ≠ 0) :
    state.pending connection = 0 ∧ (state.connections connection).destructions = 0 := by
  have ending := kept.ending connection
  rw [if_neg fun both => held both.2] at ending
  omega

theorem destroyed (kept : ReferencesKept state)
    (begun : 0 < (state.connections connection).destructions) :
    state.references connection = 0 ∧ state.pending connection = 0 ∧
      (state.connections connection).destructions = 1 := by
  have ending := kept.ending connection
  by_cases none : connection < state.created ∧ state.references connection = 0
  · rw [if_pos none] at ending
    refine ⟨none.2, ?_, ?_⟩ <;> omega
  · rw [if_neg none] at ending
    omega

theorem made (kept : ReferencesKept state) (held : state.references connection ≠ 0) :
    connection < state.created := by
  by_contra unmade
  exact held (kept.fresh connection (Nat.le_of_not_lt unmade))

theorem handOut (kept : ReferencesKept state) (found : state.threads[thread]? = some old)
    (holds : ∀ other, old.holds other = decide (connection = other))
    (destroys : ∀ other, old.destroys other = false) :
    ReferencesKept ((state.handOut connection).goTo thread .idle) := by
  have counted := kept.counted connection
  have ending := kept.ending connection
  apply kept.modify found
  · intro other different
    rw [holds, decide_eq_false (Ne.symm different)]
    rfl
  · exact fun other _ => destroys other
  · exact Nat.le_refl _
  · intro references pending first second
    rw [holds] at first
    rw [destroys] at second
    simp only [ConnectionPlace.holds, ConnectionPlace.destroys, decide_true, if_true,
      Bool.false_eq_true, if_false] at first second
    have same : references = state.references connection := by omega
    have same' : pending = state.pending connection := by omega
    rw [same, same']
    exact ⟨counted, ending, kept.fresh connection⟩
  · exact kept.marked connection
  · trivial

theorem increment (kept : ReferencesKept state)
    (found : state.threads[thread]? = some (.increment connection))
    (positive : 0 < (state.connections connection).refCount)
    (room : (state.connections connection).refCount < Int32.maxValue) :
    ReferencesKept ((state.addReference connection).goTo thread
      (.recheck connection (state.connections connection).refCount)) := by
  have counted := kept.counted connection
  have above : 0 < (state.connections connection).refCount.toInt :=
    Int32.lt_iff_toInt_lt.mp positive
  have held : state.references connection ≠ 0 := by omega
  have made := kept.made held
  obtain ⟨unpending, undestroyed⟩ := kept.undestroyed held
  apply kept.modify found
  · intro other different
    simp [ConnectionPlace.holds, Ne.symm different]
  · exact fun other _ => rfl
  · exact Nat.le_refl _
  · intro references pending first second
    simp only [ConnectionPlace.holds, ConnectionPlace.destroys, decide_true,
      decide_eq_true positive, Bool.and_self, if_true, Bool.false_eq_true, if_false]
      at first second
    have more : references = state.references connection + 1 := by omega
    refine ⟨?_, ?_, fun unmade => absurd made (Nat.not_lt_of_le unmade)⟩
    · rw [toInt_increment room, counted, more]
      rfl
    · rw [if_neg (by omega)]
      dsimp only
      omega
  · exact kept.marked connection
  · exact positive

theorem release (kept : ReferencesKept state) (found : state.threads[thread]? = some .idle)
    (holder : 0 < (state.connections connection).holders) :
    ReferencesKept ((state.modify connection fun entry =>
      { entry with refCount := entry.refCount - 1, holders := entry.holders - 1 }).releasedTo
        thread connection .idle) := by
  have counted := kept.counted connection
  have held : state.references connection ≠ 0 := by
    rw [ConnectionState.references]
    omega
  have made := kept.made held
  obtain ⟨unpending, undestroyed⟩ := kept.undestroyed held
  have fewer : ((state.connections connection).refCount - 1).toInt =
      (state.references connection : Int) - 1 := by
    rw [toInt_decrement (by omega), counted]
  rw [ConnectionState.releasedTo, state.connections_modify]
  dsimp only
  have zero : (state.connections connection).refCount - 1 = 0 ↔
      state.references connection = 1 := by
    rw [← Int32.toInt_inj, fewer, show (0 : Int32).toInt = 0 by decide]
    omega
  by_cases last : (state.connections connection).refCount - 1 = 0
  · rw [if_pos last]
    apply kept.modify found
    · exact fun other _ => rfl
    · intro other different
      simp [ConnectionPlace.destroys, Ne.symm different]
    · exact Nat.le_refl _
    · intro references pending first second
      simp only [ConnectionPlace.holds, ConnectionPlace.destroys, decide_true, if_true,
        Bool.false_eq_true, if_false] at first second
      have one := zero.mp last
      have none : references = 0 := by omega
      rw [if_pos ⟨made, none⟩, none, fewer, one]
      refine ⟨rfl, ?_, fun _ => rfl⟩
      dsimp only
      omega
    · exact kept.marked connection
    · trivial
  · rw [if_neg last]
    apply kept.modify found
    · exact fun other _ => rfl
    · exact fun other _ => rfl
    · exact Nat.le_refl _
    · intro references pending first second
      simp only [ConnectionPlace.holds, ConnectionPlace.destroys, Bool.false_eq_true,
        if_false] at first second
      have several : state.references connection ≠ 1 := fun one => last (zero.mpr one)
      have left : references + 1 = state.references connection := by omega
      rw [fewer, if_neg (by omega)]
      refine ⟨by omega, ?_, fun unmade => absurd made (Nat.not_lt_of_le unmade)⟩
      dsimp only
      omega
    · exact kept.marked connection
    · trivial

theorem markDestroyed (kept : ReferencesKept state)
    (found : state.threads[thread]? = some (.markDestroyed connection)) :
    ReferencesKept ((state.modify connection fun entry =>
      { entry with isDestroyed := true, destructions := entry.destructions + 1 }).goTo thread
        (.markCleanup connection)) := by
  have counted := kept.counted connection
  have ending := kept.ending connection
  apply kept.modify found
  · exact fun other _ => rfl
  · intro other different
    simp [ConnectionPlace.destroys, Ne.symm different]
  · exact Nat.le_succ _
  · intro references pending first second
    simp only [ConnectionPlace.holds, ConnectionPlace.destroys, decide_true, if_true,
      Bool.false_eq_true, if_false] at first second
    have same : references = state.references connection := by omega
    rw [same]
    refine ⟨counted, ?_, kept.fresh connection⟩
    rw [← ending]
    dsimp only
    omega
  · exact fun _ => Nat.succ_pos _
  · rw [PlaceKept, state.connections_modify]
    exact Nat.succ_pos _

theorem markCleanup (kept : ReferencesKept state)
    (found : state.threads[thread]? = some (.markCleanup connection)) :
    ReferencesKept ((state.modify connection fun entry =>
      { entry with cleanupInProgress := true }).goTo thread (.closeSocket connection)) := by
  have begun := kept.places _ (List.mem_of_getElem? found)
  apply kept.modify found
  · exact fun other _ => rfl
  · exact fun other _ => rfl
  · exact Nat.le_refl _
  · intro references pending first second
    simp only [ConnectionPlace.holds, ConnectionPlace.destroys, Bool.false_eq_true,
      if_false] at first second
    have same : references = state.references connection := by omega
    have same' : pending = state.pending connection := by omega
    rw [same, same']
    exact ⟨kept.counted connection, kept.ending connection, kept.fresh connection⟩
  · exact kept.marked connection
  · rw [PlaceKept, state.connections_modify]
    exact begun

theorem free (kept : ReferencesKept state)
    (found : state.threads[thread]? = some (.free connection)) :
    ReferencesKept ((state.modify connection fun entry =>
      { entry with refCount := 0, isDestroyed := false, cleanupInProgress := false }).goTo
        thread .idle) := by
  have begun := kept.places _ (List.mem_of_getElem? found)
  obtain ⟨none, -, -⟩ := kept.destroyed begun
  apply kept.modify found
  · exact fun other _ => rfl
  · exact fun other _ => rfl
  · exact Nat.le_refl _
  · intro references pending first second
    simp only [ConnectionPlace.holds, ConnectionPlace.destroys, Bool.false_eq_true,
      if_false] at first second
    have same : references = state.references connection := by omega
    have same' : pending = state.pending connection := by omega
    rw [same, same']
    refine ⟨?_, kept.ending connection, kept.fresh connection⟩
    rw [none]
    rfl
  · exact nofun
  · trivial

theorem create (kept : ReferencesKept state) (found : state.threads[thread]? = some .idle) :
    ReferencesKept (state.create thread true) := by
  have none := kept.fresh state.created (Nat.le_refl _)
  have ending := kept.ending state.created
  rw [if_neg fun both => Nat.lt_irrefl _ both.1] at ending
  let made : ConnectionState :=
    { state with
      connections := Function.update state.connections state.created ⟨1, false, false, 0, 0⟩
      created := state.created + 1 }
  have entry : made.connections state.created = ⟨1, false, false, 0, 0⟩ :=
    Function.update_self _ _ _
  have same : ∀ other, other ≠ state.created → made.connections other = state.connections other :=
    fun other different => Function.update_of_ne different _ _
  have references : ∀ other, (state.create thread true).references other =
      if other = state.created then 1 else state.references other := by
    intro other
    have counts := made.references_goTo found (.register state.created true) other
    by_cases equal : other = state.created
    · have before : made.references state.created = 0 := by
        rw [ConnectionState.references] at none ⊢
        rw [entry]
        exact Nat.add_eq_zero_iff.mpr ⟨rfl, (Nat.add_eq_zero_iff.mp none).2⟩
      rw [if_pos equal]
      simp only [ConnectionPlace.holds, equal, decide_true, Bool.and_true, if_true,
        Bool.false_eq_true, if_false, before] at counts
      rw [equal]
      exact counts
    · have before : made.references other = state.references other := by
        rw [ConnectionState.references, same other equal]
        rfl
      rw [if_neg equal, ← before]
      simp only [ConnectionPlace.holds, Ne.symm equal, decide_false, Bool.false_and,
        Bool.false_eq_true, if_false] at counts
      exact counts
  have pending : ∀ other, (state.create thread true).pending other = state.pending other :=
    fun other => countP_set found (.register state.created true) (·.destroys other)
  have there : (state.create thread true).connections = made.connections := rfl
  refine ⟨?_, ?_, ?_, ?_, ?_⟩
  · intro other
    rw [references, there]
    by_cases equal : other = state.created
    · rw [equal, entry, if_pos rfl]
      rfl
    · rw [same other equal, if_neg equal]
      exact kept.counted other
  · intro other
    rw [references, pending, there]
    by_cases equal : other = state.created
    · rw [equal, entry, if_pos rfl, if_neg fun both => Nat.one_ne_zero both.2]
      dsimp only
      omega
    · rw [same other equal, if_neg equal, kept.ending other]
      have before : other < state.created + 1 ↔ other < state.created := by omega
      exact if_congr (and_congr_left' before.symm) rfl rfl
  · intro other unmade
    have unmade' : state.created + 1 ≤ other := unmade
    rw [references, if_neg (by omega)]
    exact kept.fresh other (by omega)
  · intro other
    rw [there]
    by_cases equal : other = state.created
    · rw [equal, entry]
      exact nofun
    · rw [same other equal]
      exact kept.marked other
  · have before : ∀ place ∈ state.threads, PlaceKept (state.create thread true) place := by
      intro place member
      apply placeKept_mono ?_ (kept.places place member)
      intro other
      rw [there]
      by_cases equal : other = state.created
      · rw [equal]
        omega
      · exact Nat.le_of_eq (congrArg _ (same other equal).symm)
    have placed : PlaceKept (state.create thread true) (.register state.created true) := trivial
    exact forall_mem_set before placed thread

end ReferencesKept

/-- The thread has locked `manager_mutex`. -/
def ConnectionPlace.locks : ConnectionPlace → Bool
  | .cleanup _ | .shutdown _ => true
  | _ => false

/-- The slots are counted, the thread with the mutex is the one in a loop over them, and the
shutdown has left none behind. -/
structure ManagerKept (state : ConnectionState) : Prop where
  active : ∀ manager ∈ state.manager,
    manager.activeCount = manager.activeConnections.countP Option.isSome
  locked : ∀ manager ∈ state.manager, ∀ thread, manager.managerMutex = some thread →
    ∃ place, state.threads[thread]? = some place ∧ place.locks = true
  owned : ∀ manager ∈ state.manager, ∀ thread place, state.threads[thread]? = some place →
    place.locks = true → manager.managerMutex = some thread
  emptied : ∀ manager ∈ state.manager, ∀ thread index : Nat,
    state.threads[thread]? = some (.shutdown index) → ∀ other < index, manager.slot other = none

namespace ManagerKept

theorem modify (kept : ManagerKept state) (change : ClientConnection → ClientConnection) :
    ManagerKept (state.modify connection change) :=
  ⟨kept.active, kept.locked, kept.owned, kept.emptied⟩

theorem goTo (kept : ManagerKept state) (found : state.threads[thread]? = some old)
    (stays : place.locks = old.locks)
    (emptied : ∀ manager ∈ state.manager, ∀ index, place = .shutdown index →
      ∀ other < index, manager.slot other = none) : ManagerKept (state.goTo thread place) := by
  have here : (state.threads.set thread place)[thread]? = some place :=
    List.getElem?_set_self (List.getElem?_eq_some_iff.mp found).1
  refine ⟨kept.active, ?_, ?_, ?_⟩
  · intro manager there owner locked
    obtain ⟨before, at', locks⟩ := kept.locked manager there owner locked
    by_cases same : owner = thread
    · rw [same] at at' ⊢
      rw [Option.some.inj (at'.symm.trans found)] at locks
      exact ⟨place, here, stays.trans locks⟩
    · exact ⟨before, (List.getElem?_set_ne (Ne.symm same)).trans at', locks⟩
  · intro manager there owner after at' locks
    rcases getElem?_set_cases at' with ⟨same, same'⟩ | ⟨-, at'⟩
    · rw [same]
      rw [same', stays] at locks
      exact kept.owned manager there thread old found locks
    · exact kept.owned manager there owner after at' locks
  · intro manager there owner index at'
    rcases getElem?_set_cases at' with ⟨-, same⟩ | ⟨-, at'⟩
    · exact emptied manager there index same.symm
    · exact kept.emptied manager there owner index at'

theorem setManager (kept : ManagerKept state) (found : state.threads[thread]? = some old)
    (there : state.manager = some manager)
    (free : manager.managerMutex = none ∨ manager.managerMutex = some thread)
    (active : changed.activeCount = changed.activeConnections.countP Option.isSome)
    (locked : changed.managerMutex = if place.locks then some thread else none)
    (emptied : ∀ index, place = .shutdown index → ∀ other < index, changed.slot other = none) :
    ManagerKept ((state.setManager changed).goTo thread place) := by
  have here : (state.threads.set thread place)[thread]? = some place :=
    List.getElem?_set_self (List.getElem?_eq_some_iff.mp found).1
  have alone : ∀ other after, other ≠ thread → state.threads[other]? = some after →
      after.locks = false := by
    intro other after different at'
    by_contra locks
    have owned := kept.owned manager there other after at' (Bool.not_eq_false _ ▸ locks)
    rcases free with none | mine
    · cases none.symm.trans owned
    · exact different (Option.some.inj (owned.symm.trans mine))
  refine ⟨?_, ?_, ?_, ?_⟩
  · intro other same
    rw [← Option.some.inj same]
    exact active
  · intro other same owner owned
    rw [← Option.some.inj same, locked] at owned
    split_ifs at owned with locks
    rw [← Option.some.inj owned]
    exact ⟨place, here, locks⟩
  · intro other same owner after at' locks
    rw [← Option.some.inj same, locked]
    rcases getElem?_set_cases at' with ⟨mine, same'⟩ | ⟨different, at'⟩
    · rw [same'] at locks
      rw [if_pos locks, mine]
    · cases (alone owner after different at').symm.trans locks
  · intro other same owner index at'
    rw [← Option.some.inj same]
    rcases getElem?_set_cases at' with ⟨-, same'⟩ | ⟨different, at'⟩
    · exact emptied index same'.symm
    · cases alone owner _ different at'

theorem noManager (state : ConnectionState) : ManagerKept { state with manager := none } :=
  ⟨nofun, nofun, nofun, nofun⟩

end ManagerKept

namespace ConnectionManager

theorem active_register (manager : ConnectionManager) (connection : Nat)
    (active : manager.activeCount = manager.activeConnections.countP Option.isSome) :
    (manager.register connection).activeCount =
      (manager.register connection).activeConnections.countP Option.isSome := by
  rw [register]
  split_ifs
  · exact active
  · cases found : manager.activeConnections.findIdx? (· = none) with
    | none => exact active
    | some index =>
      obtain ⟨inside, empty, -⟩ := List.findIdx?_eq_some_iff_getElem.mp found
      have there : manager.activeConnections[index]? = some none := by
        rw [List.getElem?_eq_getElem inside, of_decide_eq_true empty]
      have counts := countP_set there (some connection) Option.isSome
      simp only [Option.isSome_none, Option.isSome_some, Bool.false_eq_true, if_false,
        if_true] at counts
      dsimp only
      omega

theorem active_unregister (manager : ConnectionManager) (connection : Nat)
    (active : manager.activeCount = manager.activeConnections.countP Option.isSome) :
    (manager.unregister connection).activeCount =
      (manager.unregister connection).activeConnections.countP Option.isSome := by
  rw [unregister]
  cases found : manager.activeConnections.findIdx? (· = some connection) with
  | none => exact active
  | some index =>
    obtain ⟨inside, listed, -⟩ := List.findIdx?_eq_some_iff_getElem.mp found
    have there : manager.activeConnections[index]? = some (some connection) := by
      rw [List.getElem?_eq_getElem inside, of_decide_eq_true listed]
    have counts := countP_set there none Option.isSome
    simp only [Option.isSome_none, Option.isSome_some, Bool.false_eq_true, if_false,
      if_true] at counts
    simp only [clearSlot]
    omega

@[simp] theorem managerMutex_register (manager : ConnectionManager) (connection : Nat) :
    (manager.register connection).managerMutex = manager.managerMutex := by
  rw [register]
  split_ifs
  · rfl
  · split <;> rfl

@[simp] theorem managerMutex_unregister (manager : ConnectionManager) (connection : Nat) :
    (manager.unregister connection).managerMutex = manager.managerMutex := by
  rw [unregister]
  split <;> rfl

end ConnectionManager

/-! ## Runs -/

structure ConnectionsKept (state : ConnectionState) : Prop where
  references : ReferencesKept state
  manager : ManagerKept state

theorem underMutex_cases {absent : ConnectionState} {locked : ConnectionManager → ConnectionState}
    (taken : state.underMutex absent locked = some next) :
    next = absent ∨ ∃ manager, state.manager = some manager ∧ manager.managerMutex = none ∧
      next = locked manager := by
  rw [ConnectionState.underMutex] at taken
  cases found : state.manager with
  | none =>
    rw [found] at taken
    exact Or.inl (Option.some.inj taken).symm
  | some manager =>
    simp only [found] at taken
    split_ifs at taken with free
    exact Or.inr ⟨manager, rfl, free, (Option.some.inj taken).symm⟩

namespace ConnectionsKept

theorem law (kept : ConnectionsKept state) : ConnectionLaw state where
  once := by
    intro connection
    by_cases begun : 0 < (state.connections connection).destructions
    · exact Nat.le_of_eq (kept.references.destroyed begun).2.2
    · omega
  unheld := fun connection begun => (kept.references.destroyed begun).1
  counted := kept.references.counted
  active := kept.manager.active
  unblocked := by
    intro manager there thread locked place at'
    obtain ⟨holder, found, locks⟩ := kept.manager.locked manager there thread locked
    rw [← Option.some.inj (found.symm.trans at')]
    cases holder with
    | cleanup _ | shutdown _ => rfl
    | _ => cases locks

theorem goTo (kept : ConnectionsKept state) (found : state.threads[thread]? = some old)
    (holds : ∀ connection, old.holds connection = place.holds connection)
    (destroys : ∀ connection, old.destroys connection = place.destroys connection)
    (placed : PlaceKept state place) (stays : place.locks = old.locks)
    (emptied : ∀ manager ∈ state.manager, ∀ index, place = .shutdown index →
      ∀ other < index, manager.slot other = none) :
    ConnectionsKept (state.goTo thread place) :=
  ⟨kept.references.goTo found holds destroys placed, kept.manager.goTo found stays emptied⟩

theorem setManager (kept : ConnectionsKept state) (found : state.threads[thread]? = some old)
    (there : state.manager = some manager)
    (free : manager.managerMutex = none ∨ manager.managerMutex = some thread)
    (holds : ∀ connection, old.holds connection = place.holds connection)
    (destroys : ∀ connection, old.destroys connection = place.destroys connection)
    (placed : PlaceKept state place)
    (active : changed.activeCount = changed.activeConnections.countP Option.isSome)
    (locked : changed.managerMutex = if place.locks then some thread else none)
    (emptied : ∀ index, place = .shutdown index → ∀ other < index, changed.slot other = none) :
    ConnectionsKept ((state.setManager changed).goTo thread place) :=
  ⟨(kept.references.setManager changed).goTo found holds destroys placed,
    kept.manager.setManager found there free active locked emptied⟩

theorem move (kept : ConnectionsKept state) (found : state.threads[thread]? = some old)
    (holds : ∀ connection, old.holds connection = place.holds connection)
    (destroys : ∀ connection, old.destroys connection = place.destroys connection)
    (placed : PlaceKept state place) (before : old.locks = false) (after : place.locks = false) :
    ConnectionsKept (state.goTo thread place) := by
  apply kept.goTo found holds destroys placed (after.trans before.symm)
  intro manager _ index same
  rw [same] at after
  cases after

theorem edit (kept : ConnectionsKept state) (found : state.threads[thread]? = some old)
    (there : state.manager = some manager)
    (free : manager.managerMutex = none ∨ manager.managerMutex = some thread)
    (holds : ∀ connection, old.holds connection = place.holds connection)
    (destroys : ∀ connection, old.destroys connection = place.destroys connection)
    (placed : PlaceKept state place) (after : place.locks = false)
    (active : changed.activeCount = changed.activeConnections.countP Option.isSome)
    (unlocked : changed.managerMutex = none) :
    ConnectionsKept ((state.setManager changed).goTo thread place) := by
  apply kept.setManager found there free holds destroys placed active
  · rw [unlocked, after]
    rfl
  · intro index same
    rw [same] at after
    cases after

theorem register {creates : Bool} (kept : ConnectionsKept state)
    (found : state.threads[thread]? = some (.register connection creates))
    {expired : Bool}
    (taken : state.step thread expired (.register connection creates) = some next) :
    ConnectionsKept next := by
  have returned : ConnectionsKept
      ((if creates then state.handOut connection else state).goTo thread .idle) := by
    cases creates with
    | false => exact kept.move found (fun _ => Bool.and_false _) (fun _ => rfl) trivial rfl rfl
    | true =>
      rw [if_pos rfl]
      exact ⟨kept.references.handOut found (fun _ => Bool.and_true _) fun _ => rfl,
        (kept.manager.modify _).goTo found rfl nofun⟩
  have same : (if creates then state.handOut connection else state).manager = state.manager := by
    split_ifs <;> rfl
  rcases underMutex_cases taken with equal | ⟨manager, there, free, equal⟩
  · rw [equal]
    exact returned
  · rw [equal]
    refine ⟨returned.references.setManager (manager.register connection), ?_⟩
    have before : ManagerKept (if creates then state.handOut connection else state) := by
      split_ifs
      · exact kept.manager.modify _
      · exact kept.manager
    have found' : (if creates then state.handOut connection else state).threads[thread]? =
        some (.register connection creates) := by
      split_ifs <;> exact found
    apply before.setManager found' (same.trans there) (Or.inl free)
    · exact manager.active_register connection (kept.manager.active manager there)
    · exact (manager.managerMutex_register connection).trans free
    · exact nofun

theorem cleanupSlot (kept : ConnectionsKept state) {index : Nat} {expired : Bool}
    (found : state.threads[thread]? = some (.cleanup index)) (there : state.manager = some manager)
    (unexpired : expired = true → manager.slot index = none) :
    ConnectionsKept (state.cleanupSlot thread manager index expired) := by
  have mine := kept.manager.owned manager there thread _ found rfl
  simp only [ConnectionState.cleanupSlot]
  split_ifs
  · have goesOn : ConnectionsKept (state.goTo thread (.cleanup (index + 1))) :=
      kept.goTo found (fun _ => rfl) (fun _ => rfl) trivial rfl nofun
    cases slotted : manager.slot index with
    | none => exact goesOn
    | some connection =>
      cases expired with
      | false => exact goesOn
      | true => cases slotted.symm.trans (unexpired rfl)
  · exact kept.edit found there (Or.inr mine) (fun _ => rfl) (fun _ => rfl) trivial rfl
      (kept.manager.active manager there) rfl

theorem shutdownSlot (kept : ConnectionsKept state) {index : Nat}
    (found : state.threads[thread]? = some (.shutdown index)) (there : state.manager = some manager)
    (empty : manager.slot index = none) :
    ConnectionsKept (state.shutdownSlot thread manager index) := by
  have mine := kept.manager.owned manager there thread _ found rfl
  have emptied := kept.manager.emptied manager there thread index found
  simp only [ConnectionState.shutdownSlot, empty]
  split_ifs with inside
  · refine kept.goTo found (fun _ => rfl) (fun _ => rfl) trivial rfl ?_
    intro other same next place before less
    rw [← Option.some.inj (there.symm.trans same)]
    cases place
    rcases Nat.lt_succ_iff_lt_or_eq.mp less with less | equal
    · exact emptied _ less
    · rw [equal]
      exact empty
  · refine kept.edit found there (Or.inr mine) (fun _ => rfl) (fun _ => rfl) trivial rfl ?_ rfl
    symm
    apply List.countP_eq_zero.mpr
    intro slot member
    obtain ⟨other, at'⟩ := List.mem_iff_getElem?.mp member
    have less := (List.getElem?_eq_some_iff.mp at').1
    have unused := emptied other (Nat.lt_of_lt_of_le less (Nat.le_of_not_lt inside))
    rw [ConnectionManager.slot, at'] at unused
    rw [show slot = none from unused]
    exact Bool.false_ne_true

theorem step (kept : ConnectionsKept state) {expired : Bool}
    (found : state.threads[thread]? = some place)
    (met : KeepsPlaceConnections state expired place)
    (taken : state.step thread expired place = some next) : ConnectionsKept next := by
  have placed := kept.references.places _ (List.mem_of_getElem? found)
  cases place with
  | idle =>
    rw [← Option.some.inj taken]
    exact kept
  | register connection creates => exact kept.register found taken
  | unregister connection =>
    rcases underMutex_cases taken with equal | ⟨manager, there, free, equal⟩
    · rw [equal]
      exact kept.move found (fun _ => rfl) (fun _ => rfl) trivial rfl rfl
    · rw [equal]
      exact kept.edit found there (Or.inl free) (fun _ => rfl) (fun _ => rfl) trivial rfl
        (manager.active_unregister connection (kept.manager.active manager there))
        ((manager.managerMutex_unregister connection).trans free)
  | loadCleanup connection =>
    rw [← Option.some.inj taken]
    split_ifs
    · exact kept.move found (fun _ => rfl) (fun _ => rfl) trivial rfl rfl
    · exact kept.move found (fun _ => rfl) (fun _ => rfl) trivial rfl rfl
  | increment connection =>
    rw [← Option.some.inj taken]
    exact ⟨kept.references.increment found met.1 met.2,
      (kept.manager.modify _).goTo found rfl nofun⟩
  | recheck connection oldCount =>
    have positive : 0 < oldCount := placed
    have holds : ∀ other, ConnectionPlace.holds other (.recheck connection oldCount) =
        decide (connection = other) := by
      intro other
      rw [ConnectionPlace.holds, decide_eq_true positive, Bool.and_true]
    have held : state.references connection ≠ 0 := by
      have counted : 0 < state.threads.countP (·.holds connection) :=
        List.countP_pos_iff.mpr ⟨_, List.mem_of_getElem? found,
          (holds connection).trans (decide_eq_true rfl)⟩
      rw [ConnectionState.references]
      omega
    have unmarked : ¬((state.connections connection).isDestroyed = true ∨ oldCount ≤ 0) := by
      rintro (marked | low)
      · have begun := kept.references.marked connection marked
        rw [(kept.references.undestroyed held).2] at begun
        cases begun
      · exact absurd positive (Int32.not_lt.mpr low)
    rw [ConnectionState.step, if_neg unmarked] at taken
    rw [← Option.some.inj taken]
    exact ⟨kept.references.handOut found holds fun _ => rfl,
      (kept.manager.modify _).goTo found rfl nofun⟩
  | undo connection => cases placed
  | unregisterLast connection =>
    rcases underMutex_cases taken with equal | ⟨manager, there, free, equal⟩
    · rw [equal]
      exact kept.move found (fun _ => rfl) (fun _ => rfl) trivial rfl rfl
    · rw [equal]
      exact kept.edit found there (Or.inl free) (fun _ => rfl) (fun _ => rfl) trivial rfl
        (manager.active_unregister connection (kept.manager.active manager there))
        ((manager.managerMutex_unregister connection).trans free)
  | markDestroyed connection =>
    rw [← Option.some.inj taken]
    exact ⟨kept.references.markDestroyed found, (kept.manager.modify _).goTo found rfl nofun⟩
  | markCleanup connection =>
    rw [← Option.some.inj taken]
    exact ⟨kept.references.markCleanup found, (kept.manager.modify _).goTo found rfl nofun⟩
  | closeSocket connection =>
    rw [← Option.some.inj taken]
    exact kept.move found (fun _ => rfl) (fun _ => rfl) placed rfl rfl
  | free connection =>
    rw [← Option.some.inj taken]
    exact ⟨kept.references.free found, (kept.manager.modify _).goTo found rfl nofun⟩
  | lockCleanup =>
    rcases underMutex_cases taken with equal | ⟨manager, there, free, equal⟩
    · rw [equal]
      exact kept.move found (fun _ => rfl) (fun _ => rfl) trivial rfl rfl
    · rw [equal]
      exact kept.setManager found there (Or.inl free) (fun _ => rfl) (fun _ => rfl) trivial
        (kept.manager.active manager there) rfl nofun
  | cleanup index =>
    obtain ⟨manager, there, equal⟩ := Option.map_eq_some_iff.mp taken
    rw [← equal]
    exact kept.cleanupSlot found there fun same => met same manager there
  | lockShutdown =>
    rcases underMutex_cases taken with equal | ⟨manager, there, free, equal⟩
    · rw [equal]
      exact kept.move found (fun _ => rfl) (fun _ => rfl) trivial rfl rfl
    · rw [equal]
      refine kept.setManager found there (Or.inl free) (fun _ => rfl) (fun _ => rfl) trivial
        (kept.manager.active manager there) rfl ?_
      intro index same other less
      cases same
      cases less
  | shutdown index =>
    obtain ⟨manager, there, equal⟩ := Option.map_eq_some_iff.mp taken
    rw [← equal]
    exact kept.shutdownSlot found there (met manager there)
  | freeManager =>
    obtain ⟨manager, there, equal⟩ := Option.map_eq_some_iff.mp taken
    rw [← equal]
    have moved : ConnectionsKept (state.goTo thread .idle) :=
      kept.move found (fun _ => rfl) (fun _ => rfl) trivial rfl rfl
    exact ⟨moved.references.noManager, ManagerKept.noManager _⟩

theorem call (kept : ConnectionsKept state) {event : ConnectionEvent}
    (found : state.threads[event.thread]? = some .idle) : ConnectionsKept (state.call event) := by
  cases event with
  | create thread granted =>
    cases granted with
    | false => exact kept
    | true =>
      refine ⟨kept.references.create found, ?_⟩
      exact ManagerKept.goTo ⟨kept.manager.active, kept.manager.locked, kept.manager.owned,
        kept.manager.emptied⟩ found rfl nofun
  | register thread connection =>
    rw [ConnectionState.call]
    split_ifs
    · exact kept.move found (fun _ => (Bool.and_false _).symm) (fun _ => rfl) trivial rfl rfl
    · exact kept
  | unregister thread connection =>
    rw [ConnectionState.call]
    split_ifs
    · exact kept.move found (fun _ => rfl) (fun _ => rfl) trivial rfl rfl
    · exact kept
  | acquire thread connection =>
    rw [ConnectionState.call, ConnectionState.acquire]
    split_ifs
    · exact kept
    · exact kept.move found (fun _ => rfl) (fun _ => rfl) trivial rfl rfl
    · exact kept
  | release thread connection =>
    rw [ConnectionState.call, ConnectionState.release]
    split_ifs with holder
    · refine ⟨kept.references.release found holder, ?_⟩
      rw [ConnectionState.releasedTo]
      split_ifs
      · exact (kept.manager.modify _).goTo found rfl nofun
      · exact (kept.manager.modify _).goTo found rfl nofun
    · exact kept
  | cleanupExpired thread | shutdown thread =>
    exact kept.move found (fun _ => rfl) (fun _ => rfl) trivial rfl rfl
  | step thread expired => exact kept

end ConnectionsKept

theorem connectionStep_cases {event : ConnectionEvent} (taken : next ∈ connectionStep state event) :
    next = state ∨
      (∃ thread expired place, event = .step thread expired ∧
        state.threads[thread]? = some place ∧ state.step thread expired place = some next) ∨
      state.threads[event.thread]? = some .idle ∧ next = state.call event := by
  cases event with
  | step thread expired =>
    cases found : state.threads[thread]? with
    | none =>
      simp only [connectionStep, ConnectionEvent.thread, found] at taken
      exact Or.inl (Option.some.inj taken).symm
    | some place =>
      simp only [connectionStep, ConnectionEvent.thread, found] at taken
      exact Or.inr (Or.inl ⟨thread, expired, place, rfl, found, taken⟩)
  | create _ _ | register _ _ | acquire _ _ | release _ _ | unregister _ _ | cleanupExpired _
  | shutdown _ =>
    cases found : state.threads[ConnectionEvent.thread _]? with
    | none =>
      simp only [connectionStep, found] at taken
      exact Or.inl (Option.some.inj taken).symm
    | some place =>
      simp only [connectionStep, found] at taken
      split_ifs at taken with idle
      · exact Or.inr (Or.inr ⟨congrArg some idle, (Option.some.inj taken).symm⟩)
      · exact Or.inl (Option.some.inj taken).symm

theorem connectionStep_keeps : Keeps connectionStep KeepsConnections ConnectionsKept := by
  intro state event next kept met taken
  rcases connectionStep_cases taken with same | moves | ⟨idle, called⟩
  · rw [same]
    exact kept
  · obtain ⟨thread, expired, place, rfl, found, moved⟩ := moves
    exact kept.step found (met place found) moved
  · rw [called]
    exact kept.call idle

theorem connectionsKept_start (maxConnections threads : Nat) :
    ConnectionsKept (.start maxConnections threads) := by
  have idle : ∀ place ∈ (ConnectionState.start maxConnections threads).threads,
      place = .idle := fun place member => (List.mem_replicate.mp member).2
  have references : ∀ connection,
      (ConnectionState.start maxConnections threads).references connection = 0 := by
    intro connection
    rw [ConnectionState.references, List.countP_eq_zero.mpr]
    · rfl
    · intro place member
      rw [idle place member]
      exact Bool.false_ne_true
  have pending : ∀ connection,
      (ConnectionState.start maxConnections threads).pending connection = 0 := by
    intro connection
    apply List.countP_eq_zero.mpr
    intro place member
    rw [idle place member]
    exact Bool.false_ne_true
  constructor
  · refine ⟨?_, ?_, fun connection _ => references connection, nofun, ?_⟩
    · intro connection
      rw [references]
      rfl
    · intro connection
      rw [pending, if_neg fun both => Nat.not_lt_zero _ both.1]
      rfl
    · intro place member
      rw [idle place member]
      trivial
  · refine ⟨?_, ?_, ?_, ?_⟩
    · intro manager there
      rw [← Option.some.inj there, List.countP_replicate]
      rfl
    · intro manager there thread locked
      rw [← Option.some.inj there] at locked
      cases locked
    · intro manager _ thread place at' locks
      rw [idle place (List.mem_of_getElem? at')] at locks
      cases locks
    · intro manager _ thread index at'
      cases idle _ (List.mem_of_getElem? at')

namespace ConnectionsKept

theorem unlawful_subReference (kept : ReferencesKept state)
    (found : state.threads[thread]? = some old) (before : old.holds connection = false)
    (after : place.holds connection = false) :
    ¬ConnectionLaw ((state.subReference connection).goTo thread place) := by
  intro law
  have counted := kept.counted connection
  have counted' := law.counted connection
  have counts := ReferencesKept.references_modify found
    (fun entry => { entry with refCount := entry.refCount - 1 }) place connection
  rw [before, after] at counts
  have same : ((state.subReference connection).goTo thread place).references connection =
      state.references connection := by
    exact Nat.add_right_cancel (Nat.add_right_cancel counts)
  have fewer : (((state.subReference connection).goTo thread place).connections
      connection).refCount = (state.connections connection).refCount - 1 := by
    change ((state.subReference connection).connections connection).refCount = _
    rw [ConnectionState.subReference, state.connections_modify]
  rw [fewer, toInt_decrement (by omega), same] at counted'
  omega

theorem unlawful_increment (kept : ConnectionsKept state)
    (found : state.threads[thread]? = some (.increment connection))
    (unmet : ¬(0 < (state.connections connection).refCount ∧
      (state.connections connection).refCount < Int32.maxValue)) :
    ¬ConnectionLaw ((state.addReference connection).goTo thread
      (.recheck connection (state.connections connection).refCount)) := by
  intro law
  have before := kept.references.counted connection
  have counts := ReferencesKept.references_modify found
    (fun entry => { entry with refCount := entry.refCount + 1 })
    (.recheck connection (state.connections connection).refCount) connection
  have after := law.counted connection
  have entry : (((state.addReference connection).goTo thread
      (.recheck connection (state.connections connection).refCount)).connections
        connection).refCount = (state.connections connection).refCount + 1 := by
    change ((state.addReference connection).connections connection).refCount = _
    rw [ConnectionState.addReference, state.connections_modify]
  rw [entry] at after
  by_cases positive : 0 < (state.connections connection).refCount
  · have large : Int32.maxValue.toInt ≤ (state.connections connection).refCount.toInt :=
      Int32.le_iff_toInt_le.mp (Int32.not_lt.mp fun room => unmet ⟨positive, room⟩)
    have most : (state.connections connection).refCount = Int32.maxValue :=
      Int32.toInt_inj.mp (Int.le_antisymm
        (Int.le_of_lt_add_one (Int32.toInt_lt _)) large)
    rw [most, show (Int32.maxValue + 1).toInt = -(2 ^ 31) by decide] at after
    omega
  · have low : (state.connections connection).refCount.toInt ≤ 0 :=
      Int32.le_iff_toInt_le.mp (Int32.not_lt.mp positive)
    have zero : (state.connections connection).refCount = 0 :=
      Int32.toInt_inj.mp (show _ = (0 : Int) by omega)
    rw [zero, show ((0 : Int32) + 1).toInt = 1 by decide] at after
    simp only [ConnectionPlace.holds, decide_eq_false positive, Bool.and_false,
      Bool.false_eq_true, if_false] at counts
    rw [zero, show (0 : Int32).toInt = 0 by decide] at before
    have same : ((state.addReference connection).goTo thread
        (.recheck connection 0)).references connection = state.references connection := by
      rw [zero] at counts
      exact Nat.add_right_cancel counts
    rw [same] at after
    omega

theorem breaks (kept : ConnectionsKept state) {expired : Bool}
    (found : state.threads[thread]? = some place)
    (unmet : ¬KeepsPlaceConnections state expired place) :
    ∃ next, state.step thread expired place = some next ∧ ¬ConnectionLaw next := by
  cases place with
  | increment connection => exact ⟨_, rfl, kept.unlawful_increment found unmet⟩
  | cleanup index =>
    obtain ⟨expires, listed⟩ := Classical.not_imp.mp unmet
    simp only [not_forall] at listed
    obtain ⟨manager, there, used⟩ := listed
    obtain ⟨connection, slotted⟩ := Option.ne_none_iff_exists'.mp used
    have inside : index < manager.activeConnections.length :=
      (List.getElem?_eq_some_iff.mp (Option.join_eq_some_iff.mp slotted)).1
    refine ⟨_, Option.map_eq_some_iff.mpr ⟨manager, there, rfl⟩, ?_⟩
    simp only [ConnectionState.cleanupSlot, if_pos inside, slotted, expires]
    apply unlawful_subReference (kept.references.setManager _) found rfl
    split_ifs <;> rfl
  | shutdown index =>
    simp only [KeepsPlaceConnections, not_forall] at unmet
    obtain ⟨manager, there, used⟩ := unmet
    obtain ⟨connection, slotted⟩ := Option.ne_none_iff_exists'.mp used
    have inside : index < manager.activeConnections.length :=
      (List.getElem?_eq_some_iff.mp (Option.join_eq_some_iff.mp slotted)).1
    refine ⟨_, Option.map_eq_some_iff.mpr ⟨manager, there, rfl⟩, ?_⟩
    simp only [ConnectionState.shutdownSlot, if_pos inside, slotted]
    split_ifs
    · exact unlawful_subReference kept.references found rfl rfl
    · exact unlawful_subReference (kept.references.setManager _) found rfl rfl
  | _ => exact absurd trivial unmet

end ConnectionsKept

theorem connectionLawAfter_iff {event : ConnectionEvent} (kept : ConnectionsKept state) :
    ConnectionLawAfter state event ↔ KeepsConnections state event := by
  constructor
  · intro lawful
    cases event with
    | step thread expired =>
      intro place found
      by_contra unmet
      obtain ⟨next, moved, broken⟩ := kept.breaks found unmet
      apply broken (lawful next ?_)
      simp only [connectionStep, ConnectionEvent.thread, Option.mem_def.mp found]
      exact moved
    | _ => trivial
  · intro met next taken
    exact (connectionStep_keeps state event next kept met taken).law

/-- The law holds in every state that a run reaches just where no count goes up from zero or
past its largest value, and the cleanup and the shutdown find no connection to release. -/
theorem connections_lawful_iff {maxConnections threads : Nat} {events : List ConnectionEvent} :
    EveryStep connectionStep ConnectionLawAfter (.start maxConnections threads) events ↔
      EveryStep connectionStep KeepsConnections (.start maxConnections threads) events :=
  EveryStep.iff_of_keeps connectionStep_keeps (fun _ _ kept => connectionLawAfter_iff kept)
    (connectionsKept_start maxConnections threads)

/-- A client's connection is acquired by a second thread, both release it, and the last release
destroys it.  Then the manager is shut down. -/
def releasedConnectionRun : List ConnectionEvent :=
  [.create 0 true, .step 0 false, .acquire 1 0, .step 1 false, .step 1 false, .step 1 false,
    .release 0 0, .release 1 0] ++ List.replicate 5 (.step 1 false) ++
  .shutdown 0 :: List.replicate 4 (.step 0 false)

example : (runFrom connectionStep (.start 1 2) releasedConnectionRun).map (fun state =>
      ((state.connections 0).destructions, state.manager.isNone)) = some (1, true) := by
  decide +kernel

def expiredConnectionRun : List ConnectionEvent :=
  [.create 0 true, .step 0 false, .cleanupExpired 0, .step 0 true, .step 0 true]

/-- The cleanup waits for the mutex that it has. -/
theorem not_connectionLaw_expiredConnectionRun :
    ¬∀ (maxConnections threads : Nat) (events : List ConnectionEvent),
      EveryStep connectionStep ConnectionLawAfter (.start maxConnections threads) events := by
  intro lawful
  have unblocked : EveryStep connectionStep
      (fun state event => ∀ next ∈ connectionStep state event, ∀ manager ∈ next.manager,
        manager.managerMutex = some 0 → ∀ place ∈ next.threads[0]?, place.waits = false)
      (.start 1 1) expiredConnectionRun :=
    (lawful 1 1 expiredConnectionRun).mono fun _ _ law next taken manager there =>
      (law next taken).unblocked manager there 0
  exact absurd unblocked (by decide +kernel)

end Jdbx
