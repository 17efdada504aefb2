import Jdbx.Utils.CheckpointSteps

/-!
# Clearing a hazard protection

`memory_clear_hazard_protection` takes a block that names no checkpoint for one that has
been rewound, and calls `free` on it.
-/

namespace Jdbx

open Library MemoryState

variable {state after : MemoryState} {block : Nat} {header : MemoryHeader}

def rewindsProtected (state : MemoryState) (block : Nat) : MemoryEvent → Bool
  | .checkpointRewind number =>
      (state.checkpoints number).isSome &&
        (state.blocks block).any fun header =>
          header.hazardProtected && header.checkpoint.any (number ≤ ·)
  | _ => false

/-- In some step of the run the checkpoint of the block was rewound while the block was
protected. -/
def rewoundWhileProtected (block : Nat) : MemoryState → List MemoryEvent → Bool
  | _, [] => false
  | state, event :: events =>
      rewindsProtected state block event ||
        (memoryStep state event).any fun next => rewoundWhileProtected block next events

/-- The block is released just if it was rewound while it was protected, once for good and
through its own allocator.  If not, it lives on as it was. -/
structure ClearedRightly (rewound : Bool) (block : Nat) (header : MemoryHeader)
    (after : MemoryState) : Prop where
  released : after.blocks block = none ↔ rewound = true
  once : after.blocks block = none → ∀ events last, runFrom memoryStep after events = some last →
    last.blocks block = none ∧ last.releases block = [header.allocator]
  lives : ∀ left, after.blocks block = some left →
    left.markedFree = header.markedFree ∧ left.contents = header.contents

/-- A block that can be cleared and is on no list has been rewound while it was protected,
and comes from the system.  Any other block has not. -/
def ClearsRightly (rewound : Bool) (header : MemoryHeader) : Prop :=
  if header.checkpoint = none ∧ header.valid = true ∧ header.markedFree = false then
    rewound = true ∧ header.allocator = .system
  else rewound = false

theorem MemoryLaw.gone_run (law : MemoryLaw state) {events : List MemoryEvent} {last : MemoryState}
    (reached : runFrom memoryStep state events = some last) (old : block < state.next)
    (gone : state.blocks block = none) :
    last.blocks block = none ∧ last.releases block = state.releases block := by
  have keeps : ∀ (middle : MemoryState) (event : MemoryEvent) (next : MemoryState),
      (MemoryLaw middle ∧ block < middle.next ∧ middle.blocks block = none ∧
        middle.releases block = state.releases block) → next ∈ memoryStep middle event →
          MemoryLaw next ∧ block < next.next ∧ next.blocks block = none ∧
            next.releases block = state.releases block := by
    intro middle event next holds taken
    obtain ⟨middleLaw, old, gone, same⟩ := holds
    obtain ⟨oldStill, goneStill, sameStill⟩ := middleLaw.gone_step taken old gone
    exact ⟨middleLaw.step taken, oldStill, goneStill, sameStill.trans same⟩
  exact (invariant_reached keeps ⟨law, old, gone, rfl⟩ reached).2.2

/-- What the list of a checkpoint holds lives and names the checkpoint, what lives has never been
released, and what is gone stays gone and is not released again. -/
theorem releases_settled {events later : List MemoryEvent} {last : MemoryState}
    (reached : runFrom memoryStep .empty events = some state)
    (goesOn : runFrom memoryStep state later = some last) :
    (∀ number checkpoint, state.checkpoints number = some checkpoint →
      checkpoint.allocations.Nodup ∧ ∀ block ∈ checkpoint.allocations, ∃ header,
        state.blocks block = some header ∧ header.checkpoint = some number ∧
          header.markedFree = false) ∧
      ∀ block, (state.blocks block ≠ none → state.releases block = []) ∧
        (block < state.next → state.blocks block = none →
          last.blocks block = none ∧ last.releases block = state.releases block) := by
  have law := memoryLaw_reached reached
  refine ⟨fun number checkpoint opened => ⟨?_, fun block listed => ?_⟩, fun block =>
    ⟨law.numbering.held block, law.gone_run goesOn⟩⟩
  · rw [← listOf_of_open opened]
    exact law.tracking.owns.nodup number
  · obtain ⟨header, held, names, unmarked, -⟩ := law.tracking.listed opened listed
    exact ⟨header, held, names, unmarked⟩

/-- A block from the system, under the inner of two checkpoints, is protected while the outer
one is rewound to. -/
def deferredRun : List MemoryEvent :=
  [.checkpointCreate true false, .checkpointCreate true false,
    .alloc 24 ⟨false, false, false, false, false, false, true⟩, .markHazardProtected 2,
    .checkpointRewind 0]

theorem releases_settled_deferredRun :
    ∃ state last : MemoryState, runFrom memoryStep .empty deferredRun = some state ∧
      (state.blocks 2 ≠ none → state.releases 2 = []) ∧
        (2 < state.next → state.blocks 2 = none → last.blocks 2 = none) := by
  have runs : ((runFrom memoryStep .empty deferredRun).bind fun state =>
      runFrom memoryStep state [.clearHazardProtection 2]).isSome := by decide +kernel
  obtain ⟨last, found⟩ := Option.isSome_iff_exists.mp runs
  obtain ⟨state, reached, goesOn⟩ := Option.bind_eq_some_iff.mp found
  obtain ⟨held, gone⟩ := (releases_settled reached goesOn).2 2
  exact ⟨state, last, reached, held, fun old absent => (gone old absent).1⟩

def heldAndCleared (events : List MemoryEvent) (block : Nat) :
    Option (MemoryHeader × Option MemoryHeader) :=
  (runFrom memoryStep .empty events).bind fun state =>
    (state.blocks block).bind fun header =>
      (memoryStep state (.clearHazardProtection block)).map fun after =>
        (header, after.blocks block)

theorem heldAndCleared_eq_some {events : List MemoryEvent} {left : Option MemoryHeader}
    (found : heldAndCleared events block = some (header, left)) :
    ∃ state after, runFrom memoryStep .empty events = some state ∧
      state.blocks block = some header ∧
        memoryStep state (.clearHazardProtection block) = some after ∧
          after.blocks block = left := by
  obtain ⟨state, reached, found⟩ := Option.bind_eq_some_iff.mp found
  obtain ⟨held, isHeld, found⟩ := Option.bind_eq_some_iff.mp found
  obtain ⟨after, taken, same⟩ := Option.map_eq_some_iff.mp found
  cases same
  exact ⟨state, after, reached, isHeld, taken, rfl⟩

def promotedProtectedRun : List MemoryEvent :=
  [.checkpointCreate true false, .alloc 24 ⟨false, false, false, false, false, false, true⟩,
    .markHazardProtected 1, .promote 1]

end Jdbx
