import Jdbx.Library.GuardedRun
import Mathlib.Logic.Function.Basic

/-!
# Hazard pointers

`hazard_pointer.c`: records in which threads publish the pointers that they use, and lists of
retired pointers that are freed when no record holds them.  Each atomic operation and each
access to a field that others write is one step.  Records, domains and threads are numbers,
and so are the pointers: an address that is given out again is another pointer.

Beside what the code keeps, the state says who holds which record, what has been retired and
freed, and which slots have held a pointer since before it was retired.
-/

namespace Jdbx

/-- `MAX_HAZARD_POINTERS` and `MAX_RETIRED_NODES`. -/
def maxHazardPointers : Nat := 8
def maxRetiredNodes : Nat := 1000

/-- `hp_record_t`, with the domain in whose list it is. -/
structure HazardRecord where
  domain : Nat
  pointers : List (Option Nat)
  active : Bool

/-- `retired_node_t`, marked with the domain that the pointer was retired to. -/
structure RetiredNode where
  pointer : Nat
  domain : Nat
  deriving DecidableEq

/-- Where a thread stands in its call.  `done` counts the nodes of its list that the scan has
kept, and `records` are those that it still has to look at. -/
inductive HazardPlace where
  | idle
  | waitLock (domain : Nat)
  | search (domain : Nat) (records : List Nat)
  | exchange (domain record : Nat) (records : List Nat)
  | clear (domain record : Nat)
  | unlock (domain record : Nat)
  | unprotect (record index : Nat)
  | deactivate (record : Nat)
  | readHead (domain done : Nat)
  | readActive (domain done : Nat) (records : List Nat)
  | readPointer (domain done record index : Nat) (records : List Nat)
  | reclaim (domain done : Nat)
  deriving DecidableEq

namespace HazardPlace

def claims : HazardPlace → Option Nat
  | clear _ record | unlock _ record => some record
  | _ => none

end HazardPlace

/-- A thread with its `tls_hp_record` and its `tls_retired_list`. -/
structure HazardThread where
  place : HazardPlace
  cached : Option Nat
  retired : List RetiredNode

/-- A call of `hp_acquire_record` whose record has not been released. -/
structure RecordHolder where
  record : Nat
  thread : Nat
  deriving DecidableEq

/-- A slot of a record. -/
@[ext] structure HazardSlot where
  record : Nat
  index : Nat
  deriving DecidableEq

/-- A pointer that was freed, and the slots that had held it since before it was retired. -/
structure FreedPointer where
  pointer : Nat
  guards : List HazardSlot

structure HazardState where
  records : List HazardRecord
  /-- The list of each domain, from its head on. -/
  lists : Nat → List Nat
  locked : Nat → Bool
  threads : List HazardThread
  holders : List RecordHolder
  retirements : List Nat
  guards : Nat → List HazardSlot
  freed : List FreedPointer

namespace HazardState

/-- Domains without records, and so many threads. -/
def start (threads : Nat) : HazardState where
  records := []
  lists := fun _ => []
  locked := fun _ => false
  threads := List.replicate threads ⟨.idle, none, []⟩
  holders := []
  retirements := []
  guards := fun _ => []
  freed := []

variable (state : HazardState)

def isActive (record : Nat) : Bool :=
  (state.records[record]?.map HazardRecord.active).getD false

def domainOf (record : Nat) : Option Nat :=
  state.records[record]?.map HazardRecord.domain

def slot (record index : Nat) : Option Nat :=
  (state.records[record]?.bind fun entry => entry.pointers[index]?).join

def isHeld (record : Nat) : Bool :=
  state.holders.any fun holder => holder.record = record

def protectors (pointer : Nat) : List HazardSlot :=
  (List.range state.records.length).flatMap fun record =>
    if state.isHeld record then
      ((List.range maxHazardPointers).filter fun index =>
        state.slot record index = some pointer).map fun index => ⟨record, index⟩
    else []

def setThread (thread : Nat) (changed : HazardThread) : HazardState :=
  { state with threads := state.threads.set thread changed }

def setActive (record : Nat) (active : Bool) : HazardState :=
  { state with records := state.records.modify record fun entry =>
      { entry with active := active } }

def setSlot (record index : Nat) (pointer : Option Nat) : HazardState :=
  { state with
    records := state.records.modify record fun entry =>
      { entry with pointers := entry.pointers.set index pointer }
    guards := fun guarded =>
      if pointer = some guarded then state.guards guarded
      else (state.guards guarded).filter fun slot => slot ≠ ⟨record, index⟩ }

/-- The `memset` of a record that was claimed. -/
def clearSlots (record : Nat) : HazardState :=
  { state with
    records := state.records.modify record fun entry =>
      { entry with pointers := List.replicate maxHazardPointers none }
    guards := fun guarded => (state.guards guarded).filter fun slot => slot.record ≠ record }

def createRecord (domain : Nat) : HazardState :=
  { state with
    records := state.records ++ [⟨domain, List.replicate maxHazardPointers none, true⟩]
    lists := Function.update state.lists domain (state.records.length :: state.lists domain) }

/-- `hp_acquire_record` returns the record. -/
def hold (record thread : Nat) : HazardState :=
  { state with holders := state.holders ++ [⟨record, thread⟩] }

/-- The call of `hp_release_record` ends what the thread holds. -/
def letGo (record thread : Nat) : HazardState :=
  let left := { state with holders := state.holders.erase ⟨record, thread⟩ }
  { left with guards := fun guarded => (state.guards guarded).filter fun slot =>
      left.isHeld slot.record }

/-- `free_func`. -/
def reclaim (pointer : Nat) : HazardState :=
  { state with freed := state.freed ++ [⟨pointer, state.guards pointer⟩] }

def setLocked (domain : Nat) (locked : Bool) : HazardState :=
  { state with locked := Function.update state.locked domain locked }

def noteRetired (pointer : Nat) : HazardState :=
  { state with
    retirements := state.retirements ++ [pointer]
    guards := Function.update state.guards pointer (state.protectors pointer) }

variable (thread : Nat) (self : HazardThread)

def goTo (place : HazardPlace) : HazardState :=
  state.setThread thread { self with place := place }

/-- The scan goes on to the node after `done` others, if there is one. -/
def scanFrom (domain done : Nat) : HazardState :=
  state.goTo thread self
    (if done < self.retired.length then .readHead domain done else .idle)

/-- `hp_acquire_record`, up to the lock. -/
def acquireRecord (domain : Nat) : HazardState :=
  match self.cached with
  | some record =>
      if state.isActive record then state.hold record thread
      else state.goTo thread self (.waitLock domain)
  | none => state.goTo thread self (.waitLock domain)

/-- `hp_protect`, and `hp_unprotect` with no pointer. -/
def protect (record index : Nat) (pointer : Option Nat) : HazardState :=
  if index ≥ maxHazardPointers then state else state.setSlot record index pointer

/-- `hp_retire`.  `granted` is the answer of `BUFFER_ALLOC`. -/
def retire (domain pointer : Nat) (granted : Bool) : HazardState :=
  let noted := state.noteRetired pointer
  if granted then
    let longer := { self with retired := ⟨pointer, domain⟩ :: self.retired }
    if longer.retired.length ≥ maxRetiredNodes then
      noted.scanFrom thread longer domain 0
    else noted.goTo thread longer .idle
  else noted.reclaim pointer

/-- The next step of a thread.  There is none while another has the lock. -/
def step (granted : Bool) : HazardPlace → Option HazardState
  | .idle => some state
  | .waitLock domain =>
      if state.locked domain then none
      else some ((state.setLocked domain true).goTo thread self
        (.search domain (state.lists domain)))
  | .search domain records =>
      match records with
      | record :: rest =>
          if state.isActive record then some (state.goTo thread self (.search domain rest))
          else some (state.goTo thread self (.exchange domain record rest))
      | [] =>
          if granted then
            some ((state.createRecord domain).goTo thread self
              (.unlock domain state.records.length))
          else some ((state.setLocked domain false).goTo thread self .idle)
  | .exchange domain record rest =>
      if state.isActive record then some (state.goTo thread self (.search domain rest))
      else some ((state.setActive record true).goTo thread self (.clear domain record))
  | .clear domain record =>
      some ((state.clearSlots record).goTo thread self (.unlock domain record))
  | .unlock domain record =>
      some (((state.setLocked domain false).hold record thread).setThread thread
        { self with place := .idle, cached := some record })
  | .unprotect record index =>
      some ((state.setSlot record index none).goTo thread self
        (if index + 1 < maxHazardPointers then .unprotect record (index + 1)
        else .deactivate record))
  | .deactivate record =>
      some (((state.setActive record false).letGo record thread).setThread thread
        { self with
          place := .idle
          cached := if self.cached = some record then none else self.cached })
  | .readHead domain done =>
      some (state.goTo thread self (.readActive domain done (state.lists domain)))
  | .readActive domain done records =>
      match records with
      | record :: rest =>
          if state.isActive record then
            some (state.goTo thread self (.readPointer domain done record 0 rest))
          else some (state.goTo thread self (.readActive domain done rest))
      | [] => some (state.goTo thread self (.reclaim domain done))
  | .readPointer domain done record index rest =>
      if state.slot record index = (self.retired[done]?).map RetiredNode.pointer then
        some (state.scanFrom thread self domain (done + 1))
      else if index + 1 < maxHazardPointers then
        some (state.goTo thread self (.readPointer domain done record (index + 1) rest))
      else some (state.goTo thread self (.readActive domain done rest))
  | .reclaim domain done =>
      (self.retired[done]?).map fun node =>
        (state.reclaim node.pointer).scanFrom thread
          { self with retired := self.retired.eraseIdx done } domain done

end HazardState

inductive HazardEvent where
  | acquire (thread domain : Nat)
  /-- `hp_protect`, and `hp_unprotect` with no pointer. -/
  | protect (thread record index : Nat) (pointer : Option Nat)
  | release (thread record : Nat)
  | retire (thread domain pointer : Nat) (granted : Bool)
  | scan (thread domain : Nat)
  | step (thread : Nat) (granted : Bool)

/-- The call of an idle thread. -/
def HazardState.call (state : HazardState) (thread : Nat) (self : HazardThread) :
    HazardEvent → HazardState
  | .acquire _ domain => state.acquireRecord thread self domain
  | .protect _ record index pointer => state.protect record index pointer
  | .release _ record => state.goTo thread self (.unprotect record 0)
  | .retire _ domain pointer granted => state.retire thread self domain pointer granted
  | .scan _ domain => state.scanFrom thread self domain 0
  | .step _ _ => state

def HazardEvent.thread : HazardEvent → Nat
  | .acquire thread _ | .protect thread _ _ _ | .release thread _ | .retire thread _ _ _
  | .scan thread _ | .step thread _ => thread

def hazardStep (state : HazardState) (event : HazardEvent) : Option HazardState :=
  match state.threads[event.thread]?, event with
  | some self, .step thread granted => state.step thread self granted self.place
  | some self, call =>
      if self.place = .idle then some (state.call call.thread self call) else some state
  | none, _ => some state

/-- A record is held by one thread at most, and a retired pointer is freed once at most and
not while a slot of an acquired record has held it since before it was retired. -/
structure HazardLaw (state : HazardState) : Prop where
  owned : ∀ first ∈ state.holders, ∀ second ∈ state.holders,
    first.record = second.record → first.thread = second.thread
  once : (state.freed.map FreedPointer.pointer).Nodup
  unguarded : ∀ freed ∈ state.freed, freed.guards = []

def HazardLawAfter (state : HazardState) (event : HazardEvent) : Prop :=
  ∀ next ∈ hazardStep state event, HazardLaw next

/-- A record is released by its one holder, and a scan of a domain looks at nodes of that
domain. -/
def KeepsPlaceHazards (state : HazardState) (thread : Nat) (self : HazardThread) :
    HazardPlace → Prop
  | .deactivate record =>
      state.isActive record = true →
        (state.holders.filter fun holder => holder.record = record) = [⟨record, thread⟩]
  | .readHead domain done => ∀ node ∈ self.retired[done]?, node.domain = domain
  | _ => True

instance (state : HazardState) (thread : Nat) (self : HazardThread) :
    DecidablePred (KeepsPlaceHazards state thread self)
  | .deactivate _ => inferInstanceAs (Decidable (_ → _))
  | .readHead _ done => inferInstanceAs (Decidable (∀ node ∈ self.retired[done]?, _))
  | .idle | .waitLock _ | .search _ _ | .exchange _ _ _ | .clear _ _ | .unlock _ _
  | .unprotect _ _ | .readActive _ _ _ | .readPointer _ _ _ _ _ | .reclaim _ _ =>
      inferInstanceAs (Decidable True)

/-- A pointer is retired once; and if an acquired record protects it then, the record belongs
to the domain that it is retired to, and the node is granted. -/
def KeepsHazards (state : HazardState) : HazardEvent → Prop
  | .retire _ domain pointer granted =>
      pointer ∉ state.retirements ∧ ∀ slot ∈ state.protectors pointer,
        granted = true ∧ state.domainOf slot.record = some domain
  | .step thread _ =>
      ∀ self ∈ state.threads[thread]?, KeepsPlaceHazards state thread self self.place
  | .acquire _ _ | .protect _ _ _ _ | .release _ _ | .scan _ _ => True

instance (state : HazardState) : DecidablePred (KeepsHazards state)
  | .retire _ _ _ _ => inferInstanceAs (Decidable (_ ∧ _))
  | .step thread _ => inferInstanceAs (Decidable (∀ self ∈ state.threads[thread]?, _))
  | .acquire _ _ | .protect _ _ _ _ | .release _ _ | .scan _ _ => inferInstanceAs (Decidable True)

end Jdbx
