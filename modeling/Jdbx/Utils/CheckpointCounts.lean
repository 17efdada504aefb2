import Mathlib.Algebra.BigOperators.Group.List.Basic
import Mathlib.Algebra.GroupWithZero.Nat
import Jdbx.Utils.CheckpointSteps

/-!
# The counters of a checkpoint

Each step adjusts the two counters along with the list, but for the rewind, which sets
them to zero and leaves the protected blocks of its target on the list.
-/

namespace Jdbx

open Library MemoryState

variable {state after : MemoryState} {block number size : Nat} {header : MemoryHeader}
  {checkpoint : MemoryCheckpoint}

def MemoryState.sizeOf (state : MemoryState) (block : Nat) : Nat :=
  ((state.blocks block).map (·.size)).getD 0

/-- The lists of the open checkpoints, their counters and the headers on them. -/
structure ListsAgree (state : MemoryState) : Prop where
  count : ∀ {number checkpoint}, state.checkpoints number = some checkpoint →
    checkpoint.allocationCount = checkpoint.allocations.length
  size : ∀ {number checkpoint}, state.checkpoints number = some checkpoint →
    checkpoint.totalSize = (checkpoint.allocations.map state.sizeOf).sum
  named : ∀ {number checkpoint}, state.checkpoints number = some checkpoint →
    ∀ block ∈ checkpoint.allocations,
      ∃ header, state.blocks block = some header ∧ header.checkpoint = some number
  once : ∀ {number checkpoint}, state.checkpoints number = some checkpoint →
    checkpoint.allocations.Nodup
  oneList : ∀ {number other checkpoint otherCheckpoint},
    state.checkpoints number = some checkpoint → state.checkpoints other = some otherCheckpoint →
      ∀ block ∈ checkpoint.allocations, block ∈ otherCheckpoint.allocations → number = other

def listingCheckpoint (state : MemoryState) (size : Nat) (answers : AllocAnswers) :
    Option MemoryCheckpoint :=
  ((allocPlan state size answers).join.bind Prod.snd).map Prod.snd

/-- No counter overflows, and no rewind finds a protected block on the list of its target. -/
def KeepsCounters (state : MemoryState) : MemoryEvent → Prop
  | .alloc size answers =>
      ∀ checkpoint ∈ listingCheckpoint state size answers,
        checkpoint.allocationCount + 1 < 2 ^ 64 ∧ checkpoint.totalSize + size < 2 ^ 64
  | .checkpointRewind number =>
      ∀ block ∈ state.listOf number,
        (state.blocks block).all (fun header => !header.hazardProtected) = true
  | _ => True

instance (state : MemoryState) : (event : MemoryEvent) → Decidable (KeepsCounters state event)
  | .alloc size answers => inferInstanceAs (Decidable (∀ checkpoint ∈
      listingCheckpoint state size answers,
        checkpoint.allocationCount + 1 < 2 ^ 64 ∧ checkpoint.totalSize + size < 2 ^ 64))
  | .checkpointRewind number => inferInstanceAs (Decidable (∀ block ∈ state.listOf number,
      (state.blocks block).all (fun header => !header.hazardProtected) = true))
  | .checkpointCreate .. | .free _ | .promote _ | .markHazardProtected _
  | .clearHazardProtection _ | .checkpointCommit _ | .bypassCheckpoint _ | .write .. =>
      inferInstanceAs (Decidable True)

/-- The counters of one checkpoint agree with its list, and have not overflowed. -/
structure CountedAt (state : MemoryState) (checkpoint : MemoryCheckpoint) : Prop where
  count : checkpoint.allocationCount = checkpoint.allocations.length
  size : checkpoint.totalSize = (checkpoint.allocations.map state.sizeOf).sum
  countSmall : checkpoint.allocationCount < 2 ^ 64
  sizeSmall : checkpoint.totalSize < 2 ^ 64

def Counted (state : MemoryState) : Prop :=
  ∀ number checkpoint, state.checkpoints number = some checkpoint → CountedAt state checkpoint

theorem Counted.listsAgree (counted : Counted state) (tracking : Tracking state) :
    ListsAgree state where
  count := fun opened => (counted _ _ opened).count
  size := fun opened => (counted _ _ opened).size
  named := fun opened block listed => by
    obtain ⟨header, held, names, -⟩ := tracking.listed opened listed
    exact ⟨header, held, names⟩
  once := fun opened => by
    rw [← listOf_of_open opened]
    exact tracking.owns.nodup _
  oneList := fun opened otherOpened block listed otherListed => by
    rw [← listOf_of_open opened] at listed
    rw [← listOf_of_open otherOpened] at otherListed
    exact tracking.owns.unique listed otherListed

/-! ## What one step does to the counters -/

theorem CountedAt.of_sizes (counted : CountedAt state checkpoint)
    (sizes : ∀ block ∈ checkpoint.allocations, after.sizeOf block = state.sizeOf block) :
    CountedAt after checkpoint where
  count := counted.count
  size := by
    rw [counted.size]
    exact congrArg List.sum (List.map_congr_left fun block listed => (sizes block listed).symm)
  countSmall := counted.countSmall
  sizeSmall := counted.sizeSmall

theorem Shrinks.sizeOf (shrinks : Shrinks state after) (held : after.blocks block ≠ none) :
    after.sizeOf block = state.sizeOf block := by
  obtain ⟨left, found⟩ := Option.ne_none_iff_exists'.mp held
  obtain ⟨header, before, same, -⟩ := shrinks.fromBlock found
  simp [MemoryState.sizeOf, found, before, same]

theorem CountedAt.of_shrinks (counted : CountedAt state checkpoint) (shrinks : Shrinks state after)
    (law : MemoryLaw after) (opened : after.checkpoints number = some checkpoint) :
    CountedAt after checkpoint := by
  apply counted.of_sizes
  intro block listed
  obtain ⟨header, held, -⟩ := law.tracking.listed opened listed
  exact shrinks.sizeOf (by simp [held])

theorem Counted.of_shrinks (counted : Counted state) (shrinks : Shrinks state after)
    (law : MemoryLaw after)
    (same : ∀ number checkpoint, after.checkpoints number = some checkpoint →
      state.checkpoints number = some checkpoint) : Counted after :=
  fun number checkpoint opened => (counted number checkpoint (same number checkpoint opened)).of_shrinks shrinks law opened

theorem CountedAt.link (counted : CountedAt state checkpoint)
    (countRoom : checkpoint.allocationCount + 1 < 2 ^ 64)
    (sizeRoom : checkpoint.totalSize + size < 2 ^ 64) (isSize : after.sizeOf block = size)
    (sizes : ∀ other ∈ checkpoint.allocations, after.sizeOf other = state.sizeOf other) :
    CountedAt after (checkpoint.link block size) := by
  have still := counted.of_sizes sizes
  constructor
  · simp only [MemoryCheckpoint.link]
    rw [Nat.mod_eq_of_lt countRoom, counted.count, List.length_append, List.length_singleton]
  · simp only [MemoryCheckpoint.link]
    rw [Nat.mod_eq_of_lt sizeRoom, List.map_append, List.sum_append, ← still.size,
      List.map_singleton, List.sum_singleton, isSize]
  · exact Nat.mod_lt _ (by decide)
  · exact Nat.mod_lt _ (by decide)

theorem CountedAt.unlink (counted : CountedAt state checkpoint)
    (listed : block ∈ checkpoint.allocations) (isSize : state.sizeOf block = size)
    (sizes : ∀ other ∈ checkpoint.allocations.erase block,
      after.sizeOf other = state.sizeOf other) :
    CountedAt after (checkpoint.unlink block size) := by
  have countSmall := counted.countSmall
  have sizeSmall := counted.sizeSmall
  have sum : size + ((checkpoint.allocations.erase block).map state.sizeOf).sum =
      checkpoint.totalSize := by
    rw [counted.size, ← isSize]
    exact List.sum_map_erase state.sizeOf listed
  have same : (checkpoint.allocations.erase block).map after.sizeOf =
      (checkpoint.allocations.erase block).map state.sizeOf :=
    List.map_congr_left sizes
  have length := List.length_erase_of_mem listed
  have notEmpty : 0 < checkpoint.allocations.length := List.length_pos_of_mem listed
  have count := counted.count
  constructor
  · simp only [MemoryCheckpoint.unlink, length]
    omega
  · simp only [MemoryCheckpoint.unlink, same]
    omega
  · exact Nat.mod_lt _ (by decide)
  · exact Nat.mod_lt _ (by decide)

theorem Counted.unlink (counted : Counted state) (law : MemoryLaw state)
    (shrinks : Shrinks state after) (afterLaw : MemoryLaw after)
    (held : state.blocks block = some header) (names : header.checkpoint = some number)
    (opened : state.checkpoints number = some checkpoint)
    (checkpoints : after.checkpoints = Function.update state.checkpoints number
      (some (checkpoint.unlink block header.size))) : Counted after := by
  intro other found isOpen
  by_cases same : other = number
  · subst same
    have isUnlinked : checkpoint.unlink block header.size = found := by
      simpa [checkpoints] using isOpen
    subst isUnlinked
    have listed := (law.tracking.mem_iff opened held).mpr names
    apply (counted _ _ opened).unlink listed (by simp [MemoryState.sizeOf, held])
    intro left member
    obtain ⟨leftHeader, leftHeld, -⟩ := afterLaw.tracking.listed isOpen member
    exact shrinks.sizeOf (by simp [leftHeld])
  · have before : state.checkpoints other = some found := by
      simpa [checkpoints, same] using isOpen
    exact (counted _ _ before).of_shrinks shrinks afterLaw isOpen

theorem Counted.place {allocator : Allocator} {tracking : Option (Nat × MemoryCheckpoint)}
    (counted : Counted state) (law : MemoryLaw state) (tracks : Tracks state allocator tracking)
    (room : ∀ number checkpoint, tracking = some (number, checkpoint) →
      checkpoint.allocationCount + 1 < 2 ^ 64 ∧ checkpoint.totalSize + size < 2 ^ 64) :
    Counted (state.place size allocator tracking) := by
  have sizes : ∀ {number checkpoint}, state.checkpoints number = some checkpoint →
      ∀ block ∈ checkpoint.allocations,
        (state.place size allocator tracking).sizeOf block = state.sizeOf block := by
    intro number checkpoint opened block listed
    obtain ⟨header, held, -⟩ := law.tracking.listed opened listed
    have old : block ≠ state.next := Nat.ne_of_lt (law.numbering.held_lt held)
    rw [MemoryState.sizeOf, place_blocks, Function.update_of_ne old, MemoryState.sizeOf]
  cases tracking with
  | none => exact fun _ _ opened => (counted _ _ opened).of_sizes (sizes opened)
  | some holder =>
      obtain ⟨current, checkpoint⟩ := holder
      obtain ⟨-, opened, -⟩ := tracks current checkpoint rfl
      obtain ⟨countRoom, sizeRoom⟩ := room current checkpoint rfl
      intro other found isOpen
      rw [place_checkpoints_some] at isOpen
      by_cases same : other = current
      · subst same
        rw [Function.update_self] at isOpen
        cases isOpen
        apply (counted _ _ opened).link countRoom sizeRoom ?_ (sizes opened)
        rw [MemoryState.sizeOf, place_blocks, Function.update_self]
        rfl
      · rw [Function.update_of_ne same] at isOpen
        exact (counted _ _ isOpen).of_sizes (sizes isOpen)

theorem hazardList_eq_nil {blocks : List Nat}
    (unprotected : ∀ block ∈ blocks,
      (state.blocks block).all (fun header => !header.hazardProtected) = true) :
    state.hazardList blocks = [] := by
  rw [hazardList, List.reverse_eq_nil_iff, List.filter_eq_nil_iff]
  intro block member
  have free := unprotected block member
  cases held : state.blocks block with
  | none => simp
  | some header => simpa [held] using free

theorem Counted.step {event : MemoryEvent} (counted : Counted state) (law : MemoryLaw state)
    (keeps : KeepsCounters state event) (taken : memoryStep state event = some after) :
    Counted after := by
  have afterLaw : MemoryLaw after := law.step taken
  cases event with
  | checkpointCreate allocated hasArena =>
      cases taken
      cases allocated with
      | false => exact counted
      | true =>
          intro other found isOpen
          by_cases new : other = state.next
          · subst new
            obtain rfl := Option.some.inj ((pushCheckpoint_self hasArena).symm.trans isOpen)
            exact ⟨rfl, rfl, Nat.two_pow_pos 64, Nat.two_pow_pos 64⟩
          · have before := (pushCheckpoint_of_ne new hasArena).symm.trans isOpen
            exact (counted _ _ before).of_sizes fun _ _ => rfl
  | alloc size answers =>
      rcases memoryAlloc_cases taken with rfl | ⟨allocator, tracking, plan, rfl⟩
      · exact counted
      · apply counted.place law (tracks_allocPlan plan)
        intro number checkpoint tracked
        apply keeps checkpoint
        simp [listingCheckpoint, plan, tracked]
  | free block =>
      have shrinks := memoryFree_shrinks law.tracking taken
      obtain ⟨header, held, -, ⟨-, rfl⟩ | ⟨-, names, rfl⟩ |
        ⟨number, checkpoint, names, opened, rfl⟩⟩ := memoryFree_cases law.tracking taken
      · exact counted
      · refine counted.of_shrinks shrinks afterLaw fun number checkpoint opened => ?_
        rw [freeBlock] at opened
        split at opened <;> exact opened
      · exact counted.unlink law shrinks afterLaw held names opened rfl
  | promote block =>
      have shrinks := memoryPromote_shrinks taken
      obtain ⟨header, held, ⟨-, rfl⟩ | ⟨number, checkpoint, -, names, opened, rfl⟩⟩ :=
        memoryPromote_cases taken
      · exact counted
      · exact counted.unlink law shrinks afterLaw held names opened rfl
  | markHazardProtected block =>
      have shrinks := memoryMarkHazardProtected_shrinks taken
      obtain ⟨header, held, ⟨-, rfl⟩ | ⟨-, -, rfl⟩⟩ := memoryMarkHazardProtected_cases taken
      · exact counted
      · exact counted.of_shrinks shrinks afterLaw fun _ _ opened => opened
  | clearHazardProtection block =>
      have shrinks := memoryClearHazardProtection_shrinks law.tracking taken
      obtain ⟨header, held, ⟨-, rfl⟩ | ⟨-, -, ⟨-, rfl⟩ | ⟨number, -, rfl⟩⟩⟩ :=
        memoryClearHazardProtection_cases law.tracking taken
      · exact counted
      · exact counted.of_shrinks shrinks afterLaw fun _ _ opened => opened
      · exact counted.of_shrinks shrinks afterLaw fun _ _ opened => opened
  | checkpointCommit number =>
      obtain ⟨checkpoint, -, closes, -⟩ := memoryCheckpointCommit_closes law.tracking taken
      refine counted.of_shrinks closes.shrinks afterLaw fun other found isOpen => ?_
      rw [closes.checkpoints] at isOpen
      by_cases same : other = number
      · subst same
        simp at isOpen
      · rwa [Function.update_of_ne same] at isOpen
  | checkpointRewind number =>
      rcases law.checkpointRewind_cases taken with ⟨-, rfl⟩ | ⟨checkpoint, opened, rewinds⟩
      · exact counted
      · rw [KeepsCounters, listOf_of_open opened] at keeps
        intro other found isOpen
        rcases Nat.lt_trichotomy other number with older | rfl | newer
        · have before := (rewinds.older other older).symm.trans isOpen
          exact (counted _ _ before).of_shrinks rewinds.shrinks afterLaw isOpen
        · obtain rfl := Option.some.inj (rewinds.target.symm.trans isOpen)
          rw [rewoundCheckpoint, hazardList_eq_nil keeps]
          exact ⟨rfl, rfl, Nat.two_pow_pos 64, Nat.two_pow_pos 64⟩
        · rw [rewinds.newer other newer] at isOpen
          cases isOpen
  | bypassCheckpoint bypass =>
      cases taken
      exact fun _ _ opened => (counted _ _ opened).of_sizes fun _ _ => rfl
  | write block contents =>
      have shrinks := writeContents_shrinks taken
      obtain ⟨header, held, rfl⟩ := Option.map_eq_some_iff.mp taken
      exact counted.of_shrinks shrinks afterLaw fun _ _ opened => opened

/-- The lists agree with their counters and headers in every state of a run whose steps
keep the counters. -/
theorem listsAgree_of_everyStep {events : List MemoryEvent}
    (meets : EveryStep memoryStep KeepsCounters .empty events)
    (reached : runFrom memoryStep .empty events = some state) : ListsAgree state := by
  have start : MemoryLaw .empty ∧ Counted .empty := ⟨memoryLaw_empty, fun _ _ => nofun⟩
  have keeps : Keeps memoryStep KeepsCounters fun state => MemoryLaw state ∧ Counted state :=
    fun _ _ _ holds keeps taken => ⟨holds.1.step taken, holds.2.step holds.1 keeps taken⟩
  obtain ⟨law, counted⟩ := invariant_runFrom keeps start meets reached
  exact counted.listsAgree law.tracking

def systemOnly : AllocAnswers where
  sslAllocation := false
  sslPool := false
  arenaEnabled := false
  arena := false
  tlsfEnabled := false
  tlsf := false
  system := true

/-- Two blocks under nested checkpoints; the first is promoted, and the outer checkpoint is
rewound to. -/
def promotedRun : List MemoryEvent :=
  [.checkpointCreate true false, .alloc 24 systemOnly, .checkpointCreate true false,
    .alloc 32 systemOnly, .promote 1, .checkpointRewind 0]

theorem listsAgree_of_everyStep_promotedRun :
    ∃ last, runFrom memoryStep .empty promotedRun = some last ∧ ListsAgree last := by
  have meets : EveryStep memoryStep KeepsCounters .empty promotedRun := by decide +kernel
  have runs : (runFrom memoryStep .empty promotedRun).isSome := by decide +kernel
  obtain ⟨last, reached⟩ := Option.isSome_iff_exists.mp runs
  exact ⟨last, reached, listsAgree_of_everyStep meets reached⟩

def protectedRun : List MemoryEvent :=
  [.checkpointCreate true false, .alloc 24 systemOnly, .markHazardProtected 1, .checkpointRewind 0]

theorem not_listsAgree_protectedRun :
    ∃ last, runFrom memoryStep .empty protectedRun = some last ∧ ¬ ListsAgree last := by
  have counters : ((runFrom memoryStep .empty protectedRun).bind (·.checkpoints 0)).map
      (fun checkpoint => (checkpoint.allocationCount, checkpoint.allocations)) = some (0, [1]) := by
    decide +kernel
  obtain ⟨checkpoint, found, same⟩ := Option.map_eq_some_iff.mp counters
  obtain ⟨last, reached, opened⟩ := Option.bind_eq_some_iff.mp found
  obtain ⟨count, list⟩ := Prod.mk.inj same
  refine ⟨last, reached, fun agree => ?_⟩
  have counted := agree.count opened
  rw [count, list] at counted
  cases counted

end Jdbx
