import Mathlib.Algebra.Group.Nat.Defs
import Mathlib.Logic.Function.Basic
import Jdbx.Library.GuardedRun

/-!
# The memory manager of a thread

Blocks with a header in front, and nested checkpoints that list the blocks made under
them.  Blocks and checkpoints get their numbers in the order in which they are made, and
no number is given out twice: a number whose memory has been released is a dangling
pointer, and a step that reads through it has no next state.  The allocators are known
by their answers, and each block is memory of its own.

The list of a checkpoint stands for the headers from `first_alloc` on.
-/

namespace Jdbx

/-- Which allocator a block is from: the flags of its header.  The flag of an arena does
not say which arena. -/
inductive Allocator where
  | system
  | tlsf
  | sslPool
  | arena (checkpoint : Nat)
  deriving DecidableEq

def Allocator.isArena : Allocator → Bool
  | .arena _ => true
  | .system | .tlsf | .sslPool => false

structure MemoryHeader where
  size : Nat
  checkpoint : Option Nat
  /-- The magic number is `MEMORY_MAGIC_FREE`. -/
  markedFree : Bool
  hazardProtected : Bool
  allocator : Allocator
  /-- The checkpoint that listed the block when it was made.  No function reads it. -/
  madeUnder : Option Nat
  /-- What the owner of the block has written behind the header. -/
  contents : List UInt8

/-- What `get_memory_header` asks of the magic number and the size. -/
def MemoryHeader.valid (header : MemoryHeader) : Bool :=
  header.markedFree || decide (0 < header.size ∧ header.size < 2 ^ 32)

structure MemoryCheckpoint where
  parent : Option Nat
  allocations : List Nat
  allocationCount : Nat
  totalSize : Nat
  committed : Bool
  hasArena : Bool

structure MemoryState where
  checkpoints : Nat → Option MemoryCheckpoint
  currentCheckpoint : Option Nat
  bypassCheckpoint : Bool
  blocks : Nat → Option MemoryHeader
  /-- The number of the next block or checkpoint. -/
  next : Nat
  /-- Through which allocators a block has been released.  No function reads it. -/
  releases : Nat → List Allocator

/-- What a call of `memory_alloc` gets for an answer from its surroundings. -/
structure AllocAnswers where
  sslAllocation : Bool
  sslPool : Bool
  arenaEnabled : Bool
  arena : Bool
  tlsfEnabled : Bool
  tlsf : Bool
  system : Bool
  deriving DecidableEq

namespace MemoryCheckpoint

def link (checkpoint : MemoryCheckpoint) (block size : Nat) : MemoryCheckpoint :=
  { checkpoint with
    allocations := checkpoint.allocations ++ [block]
    allocationCount := (checkpoint.allocationCount + 1) % 2 ^ 64
    totalSize := (checkpoint.totalSize + size) % 2 ^ 64 }

def unlink (checkpoint : MemoryCheckpoint) (block size : Nat) : MemoryCheckpoint :=
  { checkpoint with
    allocations := checkpoint.allocations.erase block
    allocationCount := (checkpoint.allocationCount + (2 ^ 64 - 1)) % 2 ^ 64
    totalSize := (checkpoint.totalSize + (2 ^ 64 - size % 2 ^ 64)) % 2 ^ 64 }

end MemoryCheckpoint

namespace MemoryState

/-- A thread that has made nothing yet. -/
def empty : MemoryState where
  checkpoints := fun _ => none
  currentCheckpoint := none
  bypassCheckpoint := false
  blocks := fun _ => none
  next := 0
  releases := fun _ => []

def setHeader (state : MemoryState) (block : Nat) (header : MemoryHeader) : MemoryState :=
  { state with blocks := Function.update state.blocks block (some header) }

def setCheckpoint (state : MemoryState) (number : Nat) (checkpoint : MemoryCheckpoint) :
    MemoryState :=
  { state with checkpoints := Function.update state.checkpoints number (some checkpoint) }

def release (state : MemoryState) (block : Nat) (through : Allocator) : MemoryState :=
  { state with
    blocks := Function.update state.blocks block none
    releases := Function.update state.releases block (state.releases block ++ [through]) }

/-- `arena_destroy`: every block of the arena goes with it. -/
def destroyArena (state : MemoryState) (number : Nat) : MemoryState :=
  let inArena block := (state.blocks block).any (·.allocator = .arena number)
  { state with
    blocks := fun block => if inArena block then none else state.blocks block
    releases := fun block =>
      if inArena block then state.releases block ++ [.arena number] else state.releases block }

def freeCheckpoint (state : MemoryState) (number : Nat) (checkpoint : MemoryCheckpoint) :
    MemoryState :=
  let state := if checkpoint.hasArena then state.destroyArena number else state
  { state with checkpoints := Function.update state.checkpoints number none }

def current (state : MemoryState) : Option (Option (Nat × MemoryCheckpoint)) :=
  match state.currentCheckpoint with
  | none => some none
  | some number => (state.checkpoints number).map fun checkpoint => some (number, checkpoint)

end MemoryState

/-- `get_memory_header`.  The outer `none` is a header that has been released. -/
def getMemoryHeader (state : MemoryState) (block : Nat) : Option (Option MemoryHeader) :=
  (state.blocks block).map fun header => if header.valid then some header else none

def MemoryState.pushCheckpoint (state : MemoryState) (hasArena : Bool) : MemoryState :=
  { state.setCheckpoint state.next
      { parent := state.currentCheckpoint
        allocations := []
        allocationCount := 0
        totalSize := 0
        committed := false
        hasArena := hasArena } with
    currentCheckpoint := some state.next
    next := state.next + 1 }

/-- `memory_checkpoint_create`: `allocated` says whether there is memory for the structure,
and `hasArena` whether an arena has been created for it. -/
def memoryCheckpointCreate (state : MemoryState) (allocated hasArena : Bool) : MemoryState :=
  if allocated then state.pushCheckpoint hasArena else state

def shouldUseArenaAllocator (state : MemoryState) (current : Option (Nat × MemoryCheckpoint))
    (size : Nat) (answers : AllocAnswers) : Bool :=
  match current with
  | none => false
  | some (_, checkpoint) =>
      answers.arenaEnabled && !checkpoint.committed && !state.bypassCheckpoint &&
        decide (size < 64 * 1024) && checkpoint.hasArena

def shouldUseTlsfAllocator (size : Nat) (answers : AllocAnswers) : Bool :=
  answers.tlsfEnabled && decide (16 ≤ size) && decide (size ≤ 1024 * 1024)

/-- The allocator of `ssl_semantic_alloc`: a pool, or the system for all else. -/
def sslSemanticAlloc (answers : AllocAnswers) : Option Allocator :=
  if answers.sslPool then some .sslPool
  else if answers.system then some .system
  else none

/-- The three decision paths of `memory_alloc`. -/
def decideAllocator (state : MemoryState) (current : Option (Nat × MemoryCheckpoint))
    (size : Nat) (answers : AllocAnswers) : Option Allocator :=
  if shouldUseArenaAllocator state current size answers && answers.arena then
    current.map fun holder => .arena holder.1
  else if shouldUseTlsfAllocator size answers && answers.tlsf then some .tlsf
  else if answers.system then some .system
  else none

def trackingCheckpoint (state : MemoryState) (current : Option (Nat × MemoryCheckpoint))
    (allocator : Allocator) : Option (Nat × MemoryCheckpoint) :=
  current.filter fun holder =>
    !holder.2.committed && !state.bypassCheckpoint && !allocator.isArena

/-- A block with a new header, which a checkpoint may link into its list. -/
def MemoryState.place (state : MemoryState) (size : Nat) (allocator : Allocator)
    (tracking : Option (Nat × MemoryCheckpoint)) : MemoryState :=
  let placed :=
    { state.setHeader state.next
        { size := size
          checkpoint := tracking.map Prod.fst
          markedFree := false
          hazardProtected := false
          allocator := allocator
          madeUnder := tracking.map Prod.fst
          contents := [] } with
      next := state.next + 1 }
  match tracking with
  | none => placed
  | some (number, checkpoint) => placed.setCheckpoint number (checkpoint.link state.next size)

/-- Which allocator serves a call of `memory_alloc`, and which checkpoint tracks the block.
The inner `none` is a call that returns `NULL`. -/
def allocPlan (state : MemoryState) (size : Nat) (answers : AllocAnswers) :
    Option (Option (Allocator × Option (Nat × MemoryCheckpoint))) :=
  if size = 0 then some none
  else if answers.sslAllocation then
    some ((sslSemanticAlloc answers).map fun allocator => (allocator, none))
  else
    state.current.map fun current =>
      (decideAllocator state current size answers).map fun allocator =>
        (allocator, trackingCheckpoint state current allocator)

/-- `memory_alloc`.  The block it returns, if any, has the number `state.next`. -/
def memoryAlloc (state : MemoryState) (size : Nat) (answers : AllocAnswers) :
    Option MemoryState :=
  (allocPlan state size answers).map fun plan =>
    match plan with
    | some (allocator, tracking) => state.place size allocator tracking
    | none => state

/-- The header leaves the list of its checkpoint, unless that is committed. -/
def unlinkOpen (state : MemoryState) (block : Nat) (header : MemoryHeader) :
    Option MemoryState :=
  match header.checkpoint with
  | none => some state
  | some number =>
      (state.checkpoints number).map fun checkpoint =>
        if checkpoint.committed then state
        else state.setCheckpoint number (checkpoint.unlink block header.size)

/-- The end of `memory_free`: a block of an arena stays, and only its magic number changes. -/
def MemoryState.freeBlock (state : MemoryState) (block : Nat) (header : MemoryHeader) :
    MemoryState :=
  if header.allocator.isArena then state.setHeader block { header with markedFree := true }
  else state.release block header.allocator

/-- `memory_free`.  Without a valid header it calls `free` on an address inside the block. -/
def memoryFree (state : MemoryState) (block : Nat) : Option MemoryState :=
  match getMemoryHeader state block with
  | none | some none => none
  | some (some header) =>
      if header.markedFree then some state
      else (unlinkOpen state block header).map fun unlinked => unlinked.freeBlock block header

def memoryPromote (state : MemoryState) (block : Nat) : Option MemoryState :=
  match getMemoryHeader state block with
  | none => none
  | some none => some state
  | some (some header) =>
      let promoted := { header with checkpoint := none }
      match header.checkpoint with
      | none => some (state.setHeader block promoted)
      | some number =>
          (state.checkpoints number).map fun checkpoint =>
            (state.setCheckpoint number (checkpoint.unlink block header.size)).setHeader block
              promoted

def memoryMarkHazardProtected (state : MemoryState) (block : Nat) : Option MemoryState :=
  match getMemoryHeader state block with
  | none => none
  | some none => some state
  | some (some header) =>
      if header.markedFree then some state
      else some (state.setHeader block { header with hazardProtected := true })

/-- `memory_clear_hazard_protection`.  A header that names a checkpoint has neither a
neighbour nor its place as the first one just where the list lacks it. -/
def memoryClearHazardProtection (state : MemoryState) (block : Nat) : Option MemoryState :=
  match getMemoryHeader state block with
  | none => none
  | some none => some state
  | some (some header) =>
      if header.markedFree then some state
      else
        let cleared := state.setHeader block { header with hazardProtected := false }
        match header.checkpoint with
        | none => some (cleared.release block .system)
        | some number =>
            (state.checkpoints number).map fun checkpoint =>
              if checkpoint.committed then cleared
              else if block ∈ checkpoint.allocations then cleared
              else cleared.release block .system

/-- The headers of a list forget their checkpoint.  The loop of a commit ends at a header
without its magic number, the loop of a rewind does not. -/
def clearCheckpoints (stopsAtFree : Bool) (state : MemoryState) : List Nat → Option MemoryState
  | [] => some state
  | block :: blocks =>
      (state.blocks block).bind fun header =>
        if stopsAtFree && header.markedFree then some state
        else
          clearCheckpoints stopsAtFree
            (state.setHeader block { header with checkpoint := none }) blocks

/-- `memory_checkpoint_commit`.  It sets `committed` in the structure that it frees. -/
def memoryCheckpointCommit (state : MemoryState) (number : Nat) : Option MemoryState :=
  (state.checkpoints number).bind fun checkpoint =>
    (clearCheckpoints true state checkpoint.allocations).map fun cleared =>
      let popped :=
        if state.currentCheckpoint = some number then
          { cleared with currentCheckpoint := checkpoint.parent }
        else cleared
      popped.freeCheckpoint number checkpoint

/-- The loop of `memory_checkpoint_rewind` over a list: protected headers are put in front
of `hazardList`, and the blocks of an arena are passed over. -/
def rewindAllocations (state : MemoryState) (hazardList : List Nat) :
    List Nat → Option (MemoryState × List Nat)
  | [] => some (state, hazardList)
  | block :: blocks =>
      (state.blocks block).bind fun header =>
        if header.hazardProtected then rewindAllocations state (block :: hazardList) blocks
        else if header.allocator.isArena then rewindAllocations state hazardList blocks
        else rewindAllocations (state.release block header.allocator) hazardList blocks

def rewindNested (state : MemoryState) (number : Nat) : Option MemoryState :=
  (state.checkpoints number).bind fun checkpoint =>
    (rewindAllocations state [] checkpoint.allocations).bind fun (rewound, hazardList) =>
      (clearCheckpoints false rewound hazardList).map fun cleared =>
        cleared.freeCheckpoint number checkpoint

def rewindTarget (state : MemoryState) (number : Nat) : Option MemoryState :=
  (state.checkpoints number).bind fun checkpoint =>
    (rewindAllocations state [] checkpoint.allocations).map fun (rewound, hazardList) =>
      rewound.setCheckpoint number
        { checkpoint with allocations := hazardList, allocationCount := 0, totalSize := 0 }

/-- The checkpoints from `from` on that stand above `number`, newest first.  The inner
`none` is a stack without `number`. -/
def checkpointsAbove (state : MemoryState) (number : Nat) :
    Nat → Option Nat → Option (Option (List Nat))
  | _, none => some none
  | 0, some _ => none
  | fuel + 1, some found =>
      if found = number then some (some [])
      else
        (state.checkpoints found).bind fun checkpoint =>
          (checkpointsAbove state number fuel checkpoint.parent).map (·.map (found :: ·))

/-- `memory_checkpoint_rewind`.  A parent has a smaller number, so the walk needs no more
steps than there are numbers. -/
def memoryCheckpointRewind (state : MemoryState) (number : Nat) : Option MemoryState :=
  match checkpointsAbove state number state.next state.currentCheckpoint with
  | none => none
  | some none => some state
  | some (some nested) =>
      (nested.foldlM rewindNested state).bind fun rewound =>
        rewindTarget { rewound with currentCheckpoint := some number } number

inductive MemoryEvent where
  | checkpointCreate (allocated hasArena : Bool)
  | alloc (size : Nat) (answers : AllocAnswers)
  | free (block : Nat)
  | promote (block : Nat)
  | markHazardProtected (block : Nat)
  | clearHazardProtection (block : Nat)
  | checkpointCommit (number : Nat)
  | checkpointRewind (number : Nat)
  | bypassCheckpoint (bypass : Bool)
  /-- The owner of a block writes into it. -/
  | write (block : Nat) (contents : List UInt8)
  deriving DecidableEq

def writeContents (state : MemoryState) (block : Nat) (contents : List UInt8) :
    Option MemoryState :=
  (state.blocks block).map fun header =>
    state.setHeader block { header with contents := contents }

def memoryStep (state : MemoryState) : MemoryEvent → Option MemoryState
  | .checkpointCreate allocated hasArena => some (memoryCheckpointCreate state allocated hasArena)
  | .alloc size answers => memoryAlloc state size answers
  | .free block => memoryFree state block
  | .promote block => memoryPromote state block
  | .markHazardProtected block => memoryMarkHazardProtected state block
  | .clearHazardProtection block => memoryClearHazardProtection state block
  | .checkpointCommit number => memoryCheckpointCommit state number
  | .checkpointRewind number => memoryCheckpointRewind state number
  | .bypassCheckpoint bypass => some { state with bypassCheckpoint := bypass }
  | .write block contents => writeContents state block contents

end Jdbx
