import Jdbx.Library.OwnedLists
import Jdbx.Utils.MemoryManager

/-!
# What every step of the memory manager keeps

The lists of the open checkpoints share out the tracked blocks, the current checkpoint
and the parents point to the newest open checkpoint below, and numbers are given out
once.  All but the two steps that make something only take away from the state.
-/

namespace Jdbx

open Library

variable {state after : MemoryState} {block number size : Nat} {header : MemoryHeader}
  {checkpoint : MemoryCheckpoint}

namespace MemoryState

def owner (state : MemoryState) (block : Nat) : Option Nat :=
  (state.blocks block).bind (·.checkpoint)

/-- The headers from `first_alloc` on. -/
def listOf (state : MemoryState) (number : Nat) : List Nat :=
  ((state.checkpoints number).map (·.allocations)).getD []

/-- No open checkpoint below `limit` is newer than the one pointed to. -/
def NewestBelow (state : MemoryState) (pointer : Option Nat) (limit : Nat) : Prop :=
  ∀ number, state.checkpoints number ≠ none → number < limit → ∃ newest ∈ pointer, number ≤ newest

end MemoryState

open MemoryState

/-- The lists share out the blocks that name a checkpoint. -/
structure Tracking (state : MemoryState) : Prop where
  owns : Owns state.listOf state.owner
  uncommitted : ∀ {number checkpoint}, state.checkpoints number = some checkpoint →
    checkpoint.committed = false
  tracked : ∀ {block header number}, state.blocks block = some header →
    header.checkpoint = some number →
      header.markedFree = false ∧ header.allocator.isArena = false ∧
        header.madeUnder = some number

structure Nesting (state : MemoryState) : Prop where
  current : state.NewestBelow state.currentCheckpoint state.next
  currentNumber : ∀ number ∈ state.currentCheckpoint, number < state.next
  parent : ∀ {number checkpoint}, state.checkpoints number = some checkpoint →
    state.NewestBelow checkpoint.parent number
  parentNumber : ∀ {number checkpoint}, state.checkpoints number = some checkpoint →
    ∀ parent ∈ checkpoint.parent, parent < number
  made : ∀ {block number}, state.owner block = some number → state.NewestBelow (some number) block
  madeNumber : ∀ {block number}, state.owner block = some number → number < block

structure Numbering (state : MemoryState) : Prop where
  checkpoint : ∀ number, state.next ≤ number → state.checkpoints number = none
  block : ∀ number, state.next ≤ number → state.blocks number = none
  unreleased : ∀ number, state.next ≤ number → state.releases number = []
  held : ∀ block, state.blocks block ≠ none → state.releases block = []

structure MemoryLaw (state : MemoryState) : Prop where
  tracking : Tracking state
  nesting : Nesting state
  numbering : Numbering state

theorem memoryLaw_empty : MemoryLaw .empty where
  tracking := ⟨owns_empty, nofun, nofun⟩
  nesting := ⟨fun _ opened => absurd rfl opened, nofun, nofun, nofun, nofun, nofun⟩
  numbering := ⟨fun _ _ => rfl, fun _ _ => rfl, fun _ _ => rfl, fun _ _ => rfl⟩

/-- A block or a checkpoint may go, and a block may forget its checkpoint. -/
structure Shrinks (state after : MemoryState) : Prop where
  sameNext : after.next = state.next
  fromCheckpoint : ∀ {number left}, after.checkpoints number = some left →
    ∃ checkpoint, state.checkpoints number = some checkpoint ∧
      left.parent = checkpoint.parent ∧ left.committed = checkpoint.committed
  fromBlock : ∀ {block left}, after.blocks block = some left →
    ∃ header, state.blocks block = some header ∧ left.size = header.size ∧
      left.allocator = header.allocator ∧ left.madeUnder = header.madeUnder ∧
        (left.checkpoint = header.checkpoint ∨ left.checkpoint = none) ∧
          (left.markedFree = header.markedFree ∨ left.checkpoint = none)
  released : ∀ block, after.releases block = state.releases block ∨
    state.blocks block ≠ none ∧ after.blocks block = none

theorem Shrinks.refl (state : MemoryState) : Shrinks state state where
  sameNext := rfl
  fromCheckpoint := fun found => ⟨_, found, rfl, rfl⟩
  fromBlock := fun found => ⟨_, found, rfl, rfl, rfl, Or.inl rfl, Or.inl rfl⟩
  released := fun _ => Or.inl rfl

theorem Shrinks.gone (shrinks : Shrinks state after) (absent : state.blocks block = none) :
    after.blocks block = none := by
  by_contra left
  obtain ⟨header, found⟩ := Option.ne_none_iff_exists'.mp left
  obtain ⟨before, held, -⟩ := shrinks.fromBlock found
  rw [absent] at held
  cases held

theorem Shrinks.trans {last : MemoryState} (first : Shrinks state after)
    (second : Shrinks after last) : Shrinks state last where
  sameNext := second.sameNext.trans first.sameNext
  fromCheckpoint := by
    intro number left found
    obtain ⟨middle, foundMiddle, parent, committed⟩ := second.fromCheckpoint found
    obtain ⟨start, foundStart, parentStart, committedStart⟩ := first.fromCheckpoint foundMiddle
    exact ⟨start, foundStart, parent.trans parentStart, committed.trans committedStart⟩
  fromBlock := by
    intro block left found
    obtain ⟨middle, foundMiddle, size, allocator, made, names, marked⟩ := second.fromBlock found
    obtain ⟨start, foundStart, sizeStart, allocatorStart, madeStart, namesStart, markedStart⟩ :=
      first.fromBlock foundMiddle
    refine ⟨start, foundStart, size.trans sizeStart, allocator.trans allocatorStart,
      made.trans madeStart, ?_, ?_⟩
    · rcases names with same | cleared
      · rw [same]
        exact namesStart
      · exact Or.inr cleared
    · rcases marked with same | cleared
      · rcases markedStart with sameStart | clearedStart
        · exact Or.inl (same.trans sameStart)
        · rcases names with sameName | cleared
          · exact Or.inr (sameName.trans clearedStart)
          · exact Or.inr cleared
      · exact Or.inr cleared
  released := by
    intro block
    rcases second.released block with same | ⟨held, gone⟩
    · rcases first.released block with sameStart | ⟨heldStart, goneStart⟩
      · exact Or.inl (same.trans sameStart)
      · exact Or.inr ⟨heldStart, second.gone goneStart⟩
    · refine Or.inr ⟨fun absent => held (first.gone absent), gone⟩

theorem Shrinks.newestBelow (shrinks : Shrinks state after) {pointer : Option Nat} {limit : Nat}
    (newest : state.NewestBelow pointer limit) : after.NewestBelow pointer limit := by
  intro number opened below
  obtain ⟨left, found⟩ := Option.ne_none_iff_exists'.mp opened
  obtain ⟨checkpoint, foundBefore, -⟩ := shrinks.fromCheckpoint found
  exact newest number (by simp [foundBefore]) below

theorem Shrinks.owner_eq_some (shrinks : Shrinks state after)
    (named : after.owner block = some number) : state.owner block = some number := by
  obtain ⟨left, found, name⟩ := Option.bind_eq_some_iff.mp named
  obtain ⟨header, held, -, -, -, same | cleared, -⟩ := shrinks.fromBlock found
  · exact Option.bind_eq_some_iff.mpr ⟨header, held, same ▸ name⟩
  · rw [cleared] at name
    cases name

theorem Shrinks.nesting (shrinks : Shrinks state after) (nesting : Nesting state)
    (current : after.NewestBelow after.currentCheckpoint state.next)
    (currentNumber : ∀ number ∈ after.currentCheckpoint, number < state.next) :
    Nesting after where
  current := shrinks.sameNext ▸ current
  currentNumber := shrinks.sameNext ▸ currentNumber
  parent := fun found => by
    obtain ⟨checkpoint, before, parent, -⟩ := shrinks.fromCheckpoint found
    rw [parent]
    exact shrinks.newestBelow (nesting.parent before)
  parentNumber := fun found => by
    obtain ⟨checkpoint, before, parent, -⟩ := shrinks.fromCheckpoint found
    rw [parent]
    exact nesting.parentNumber before
  made := fun named => shrinks.newestBelow (nesting.made (shrinks.owner_eq_some named))
  madeNumber := fun named => nesting.madeNumber (shrinks.owner_eq_some named)

theorem Shrinks.nesting_of_current (shrinks : Shrinks state after) (nesting : Nesting state)
    (same : after.currentCheckpoint = state.currentCheckpoint) : Nesting after := by
  apply shrinks.nesting nesting
  · rw [same]
    exact shrinks.newestBelow nesting.current
  · rw [same]
    exact nesting.currentNumber

theorem Shrinks.numbering (shrinks : Shrinks state after) (numbering : Numbering state) :
    Numbering after where
  checkpoint := by
    intro number outside
    by_contra left
    obtain ⟨checkpoint, found⟩ := Option.ne_none_iff_exists'.mp left
    obtain ⟨before, held, -⟩ := shrinks.fromCheckpoint found
    rw [numbering.checkpoint number (shrinks.sameNext ▸ outside)] at held
    cases held
  block := fun number outside =>
    shrinks.gone (numbering.block number (shrinks.sameNext ▸ outside))
  unreleased := by
    intro number outside
    rw [shrinks.sameNext] at outside
    rcases shrinks.released number with same | ⟨held, -⟩
    · rw [same]
      exact numbering.unreleased number outside
    · exact absurd (numbering.block number outside) held
  held := by
    intro block left
    rcases shrinks.released block with same | ⟨-, gone⟩
    · rw [same]
      exact numbering.held block fun absent => left (shrinks.gone absent)
    · exact absurd gone left

theorem Shrinks.tracking (shrinks : Shrinks state after) (tracking : Tracking state)
    (owns : Owns after.listOf after.owner) : Tracking after where
  owns := owns
  uncommitted := fun found => by
    obtain ⟨checkpoint, before, -, committed⟩ := shrinks.fromCheckpoint found
    exact committed.trans (tracking.uncommitted before)
  tracked := by
    intro block left number found named
    obtain ⟨header, held, -, allocator, made, names, marked⟩ := shrinks.fromBlock found
    have notNone : left.checkpoint ≠ none := by simp [named]
    have before := tracking.tracked held ((names.resolve_right notNone).symm.trans named)
    rw [marked.resolve_right notNone, allocator, made]
    exact before

end Jdbx
