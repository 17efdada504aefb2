import Jdbx.Utils.MemoryLaws

/-!
# The steps of the memory manager

Each function comes down to a few changes of the state, and each of these keeps the
laws.
-/

namespace Jdbx

open Library MemoryState

variable {state after : MemoryState} {block number : Nat} {header changed : MemoryHeader}
  {checkpoint : MemoryCheckpoint} {answers : AllocAnswers}

/-! ## Single changes -/

theorem owner_of_held (held : state.blocks block = some header) :
    state.owner block = header.checkpoint := by
  rw [owner, held, Option.bind_some]

theorem listOf_of_open (opened : state.checkpoints number = some checkpoint) :
    state.listOf number = checkpoint.allocations := by
  rw [listOf, opened, Option.map_some, Option.getD_some]

theorem owner_setHeader :
    (state.setHeader block changed).owner =
      Function.update state.owner block changed.checkpoint := by
  funext tested
  by_cases same : tested = block
  · subst same
    simp [owner, setHeader]
  · simp [owner, setHeader, same]

theorem owner_release (through : Allocator) :
    (state.release block through).owner = Function.update state.owner block none := by
  funext tested
  by_cases same : tested = block
  · subst same
    simp [owner, release]
  · simp [owner, release, same]

theorem listOf_setCheckpoint :
    (state.setCheckpoint number checkpoint).listOf =
      Function.update state.listOf number checkpoint.allocations := by
  funext tested
  by_cases same : tested = number
  · subst same
    simp [listOf, setCheckpoint]
  · simp [listOf, setCheckpoint, same]

theorem setHeader_shrinks (held : state.blocks block = some header)
    (size : changed.size = header.size) (allocator : changed.allocator = header.allocator)
    (made : changed.madeUnder = header.madeUnder)
    (names : changed.checkpoint = header.checkpoint ∨ changed.checkpoint = none)
    (marked : changed.markedFree = header.markedFree ∨ changed.checkpoint = none) :
    Shrinks state (state.setHeader block changed) where
  sameNext := rfl
  fromCheckpoint := fun found => ⟨_, found, rfl, rfl⟩
  fromBlock := by
    intro tested left found
    by_cases same : tested = block
    · subst same
      obtain rfl : changed = left := by simpa [setHeader] using found
      exact ⟨header, held, size, allocator, made, names, marked⟩
    · have before : state.blocks tested = some left := by simpa [setHeader, same] using found
      exact ⟨left, before, rfl, rfl, rfl, Or.inl rfl, Or.inl rfl⟩
  released := fun _ => Or.inl rfl

theorem setCheckpoint_shrinks {left : MemoryCheckpoint}
    (opened : state.checkpoints number = some checkpoint)
    (parent : left.parent = checkpoint.parent) (committed : left.committed = checkpoint.committed) :
    Shrinks state (state.setCheckpoint number left) where
  sameNext := rfl
  fromCheckpoint := by
    intro tested found same
    by_cases sameNumber : tested = number
    · subst sameNumber
      obtain rfl : left = found := by simpa [setCheckpoint] using same
      exact ⟨checkpoint, opened, parent, committed⟩
    · exact ⟨found, by simpa [setCheckpoint, sameNumber] using same, rfl, rfl⟩
  fromBlock := fun found => ⟨_, found, rfl, rfl, rfl, Or.inl rfl, Or.inl rfl⟩
  released := fun _ => Or.inl rfl

theorem unlink_shrinks (opened : state.checkpoints number = some checkpoint) (size : Nat) :
    Shrinks state (state.setCheckpoint number (checkpoint.unlink block size)) :=
  setCheckpoint_shrinks opened rfl rfl

theorem release_shrinks (held : state.blocks block = some header) (through : Allocator) :
    Shrinks state (state.release block through) where
  sameNext := rfl
  fromCheckpoint := fun found => ⟨_, found, rfl, rfl⟩
  fromBlock := by
    intro tested left found
    by_cases same : tested = block
    · subst same
      simp [release] at found
    · have before : state.blocks tested = some left := by simpa [release, same] using found
      exact ⟨left, before, rfl, rfl, rfl, Or.inl rfl, Or.inl rfl⟩
  released := by
    intro tested
    by_cases same : tested = block
    · subst same
      exact Or.inr ⟨by simp [held], by simp [release]⟩
    · exact Or.inl (by simp [release, same])

theorem destroyArena_shrinks : Shrinks state (state.destroyArena number) where
  sameNext := rfl
  fromCheckpoint := fun found => ⟨_, found, rfl, rfl⟩
  fromBlock := by
    intro tested left found
    have before : state.blocks tested = some left := by
      rw [destroyArena] at found
      exact (Option.ite_none_left_eq_some.mp found).2
    exact ⟨left, before, rfl, rfl, rfl, Or.inl rfl, Or.inl rfl⟩
  released := by
    intro tested
    rw [destroyArena]
    by_cases inArena : (state.blocks tested).any (·.allocator = .arena number)
    · obtain ⟨header, held, -⟩ := (Option.any_eq_true _ _).mp inArena
      exact Or.inr ⟨by simp [held], if_pos inArena⟩
    · exact Or.inl (if_neg inArena)

theorem freeCheckpoint_shrinks (opened : state.checkpoints number = some checkpoint) :
    Shrinks state (state.freeCheckpoint number checkpoint) := by
  have left : ∀ other : MemoryState,
      Shrinks other { other with checkpoints := Function.update other.checkpoints number none } := by
    intro other
    constructor
    · rfl
    · intro tested found same
      by_cases sameNumber : tested = number
      · subst sameNumber
        simp at same
      · exact ⟨found, by simpa [sameNumber] using same, rfl, rfl⟩
    · exact fun found => ⟨_, found, rfl, rfl, rfl, Or.inl rfl, Or.inl rfl⟩
    · exact fun _ => Or.inl rfl
  rw [freeCheckpoint]
  split
  · exact destroyArena_shrinks.trans (left _)
  · exact left _

theorem MemoryLaw.of_shrinks (law : MemoryLaw state) (shrinks : Shrinks state after)
    (owns : Owns after.listOf after.owner)
    (same : after.currentCheckpoint = state.currentCheckpoint) : MemoryLaw after where
  tracking := shrinks.tracking law.tracking owns
  nesting := shrinks.nesting_of_current law.nesting same
  numbering := shrinks.numbering law.numbering

/-! ## Functions on one block -/

theorem getMemoryHeader_cases (state : MemoryState) (block : Nat) :
    getMemoryHeader state block = none ∨
      ∃ header, state.blocks block = some header ∧
        (header.valid = false ∧ getMemoryHeader state block = some none ∨
          header.valid = true ∧ getMemoryHeader state block = some (some header)) := by
  rw [getMemoryHeader]
  cases held : state.blocks block with
  | none => exact Or.inl rfl
  | some header =>
      refine Or.inr ⟨header, rfl, ?_⟩
      cases valid : header.valid with
      | false => exact Or.inl ⟨rfl, by simp [valid]⟩
      | true => exact Or.inr ⟨rfl, by simp [valid]⟩

theorem Tracking.named (tracking : Tracking state) (held : state.blocks block = some header)
    (names : header.checkpoint = some number) :
    ∃ checkpoint, state.checkpoints number = some checkpoint ∧
      checkpoint.committed = false ∧ block ∈ checkpoint.allocations := by
  have listed : block ∈ state.listOf number :=
    (tracking.owns.agree number block).mpr ((owner_of_held held).trans names)
  cases opened : state.checkpoints number with
  | none => simp [listOf, opened] at listed
  | some checkpoint =>
      rw [listOf_of_open opened] at listed
      exact ⟨checkpoint, rfl, tracking.uncommitted opened, listed⟩

theorem memoryFree_cases (tracking : Tracking state) (taken : memoryFree state block = some after) :
    ∃ header, state.blocks block = some header ∧ header.valid = true ∧
      ((header.markedFree = true ∧ after = state) ∨
        (header.markedFree = false ∧ header.checkpoint = none ∧
          after = state.freeBlock block header) ∨
        ∃ number checkpoint, header.checkpoint = some number ∧
          state.checkpoints number = some checkpoint ∧
            after = (state.setCheckpoint number
              (checkpoint.unlink block header.size)).release block header.allocator) := by
  rw [memoryFree] at taken
  rcases getMemoryHeader_cases state block with got | ⟨header, held, ⟨-, got⟩ | ⟨valid, got⟩⟩
  · simp [got] at taken
  · simp [got] at taken
  · refine ⟨header, held, valid, ?_⟩
    simp only [got] at taken
    cases marked : header.markedFree with
    | true =>
        simp only [marked, if_true, Option.some.injEq] at taken
        exact Or.inl ⟨rfl, taken.symm⟩
    | false =>
        simp only [marked, Bool.false_eq_true, if_false, unlinkOpen] at taken
        cases names : header.checkpoint with
        | none =>
            simp only [names, Option.map_some, Option.some.injEq] at taken
            exact Or.inr (Or.inl ⟨rfl, rfl, taken.symm⟩)
        | some number =>
            obtain ⟨checkpoint, opened, uncommitted, -⟩ := tracking.named held names
            have notArena := (tracking.tracked held names).2.1
            simp only [names, opened, uncommitted, Option.map_some, Bool.false_eq_true, if_false,
              Option.some.injEq, freeBlock, notArena] at taken
            exact Or.inr (Or.inr ⟨number, checkpoint, rfl, opened, taken.symm⟩)

theorem memoryPromote_cases (taken : memoryPromote state block = some after) :
    ∃ header, state.blocks block = some header ∧
      ((header.valid = false ∨ header.checkpoint = none) ∧ after = state ∨
        ∃ number checkpoint, header.valid = true ∧ header.checkpoint = some number ∧
          state.checkpoints number = some checkpoint ∧
            after = (state.setCheckpoint number (checkpoint.unlink block header.size)).setHeader
              block { header with checkpoint := none }) := by
  rw [memoryPromote] at taken
  rcases getMemoryHeader_cases state block with got | ⟨header, held, ⟨valid, got⟩ | ⟨valid, got⟩⟩
  · simp [got] at taken
  · simp only [got, Option.some.injEq] at taken
    exact ⟨header, held, Or.inl ⟨Or.inl valid, taken.symm⟩⟩
  · refine ⟨header, held, ?_⟩
    simp only [got] at taken
    cases names : header.checkpoint with
    | none =>
        have unchanged : state.setHeader block { header with checkpoint := none } = state := by
          rw [← names, setHeader, ← held, Function.update_eq_self]
        simp only [names, unchanged, Option.some.injEq] at taken
        exact Or.inl ⟨Or.inr rfl, taken.symm⟩
    | some number =>
        simp only [names] at taken
        obtain ⟨checkpoint, opened, rfl⟩ := Option.map_eq_some_iff.mp taken
        exact Or.inr ⟨number, checkpoint, valid, rfl, opened, rfl⟩

theorem memoryMarkHazardProtected_cases
    (taken : memoryMarkHazardProtected state block = some after) :
    ∃ header, state.blocks block = some header ∧
      ((header.valid = false ∨ header.markedFree = true) ∧ after = state ∨
        header.valid = true ∧ header.markedFree = false ∧
          after = state.setHeader block { header with hazardProtected := true }) := by
  rw [memoryMarkHazardProtected] at taken
  rcases getMemoryHeader_cases state block with got | ⟨header, held, ⟨valid, got⟩ | ⟨valid, got⟩⟩
  · simp [got] at taken
  · simp only [got, Option.some.injEq] at taken
    exact ⟨header, held, Or.inl ⟨Or.inl valid, taken.symm⟩⟩
  · refine ⟨header, held, ?_⟩
    simp only [got] at taken
    cases marked : header.markedFree with
    | true =>
        simp only [marked, if_true, Option.some.injEq] at taken
        exact Or.inl ⟨Or.inr rfl, taken.symm⟩
    | false =>
        simp only [marked, Bool.false_eq_true, if_false, Option.some.injEq] at taken
        exact Or.inr ⟨valid, rfl, taken.symm⟩

theorem memoryClearHazardProtection_cases (tracking : Tracking state)
    (taken : memoryClearHazardProtection state block = some after) :
    ∃ header, state.blocks block = some header ∧
      ((header.valid = false ∨ header.markedFree = true) ∧ after = state ∨
        header.valid = true ∧ header.markedFree = false ∧
          (header.checkpoint = none ∧ after = state.release block .system ∨
            ∃ number, header.checkpoint = some number ∧
              after = state.setHeader block { header with hazardProtected := false })) := by
  rw [memoryClearHazardProtection] at taken
  rcases getMemoryHeader_cases state block with got | ⟨header, held, ⟨valid, got⟩ | ⟨valid, got⟩⟩
  · simp [got] at taken
  · simp only [got, Option.some.injEq] at taken
    exact ⟨header, held, Or.inl ⟨Or.inl valid, taken.symm⟩⟩
  · refine ⟨header, held, ?_⟩
    simp only [got] at taken
    cases marked : header.markedFree with
    | true =>
        simp only [marked, if_true, Option.some.injEq] at taken
        exact Or.inl ⟨Or.inr rfl, taken.symm⟩
    | false =>
        simp only [marked, Bool.false_eq_true, if_false] at taken
        refine Or.inr ⟨valid, rfl, ?_⟩
        cases names : header.checkpoint with
        | none =>
            simp only [names, Option.some.injEq] at taken
            refine Or.inl ⟨rfl, ?_⟩
            rw [← taken]
            simp [release, setHeader]
        | some number =>
            obtain ⟨checkpoint, opened, uncommitted, listed⟩ := tracking.named held names
            simp only [names, opened, uncommitted, listed, Option.map_some, Bool.false_eq_true,
              if_false, if_true, Option.some.injEq] at taken
            exact Or.inr ⟨number, rfl, taken.symm⟩

theorem Tracking.owns_unlink (tracking : Tracking state) (held : state.blocks block = some header)
    (names : header.checkpoint = some number)
    (opened : state.checkpoints number = some checkpoint) :
    Owns (Function.update state.listOf number
        (checkpoint.unlink block header.size).allocations)
      (Function.update state.owner block none) := by
  have named : state.owner block = some number := (owner_of_held held).trans names
  have owns := tracking.owns.erase named
  rw [listOf_of_open opened] at owns
  exact owns

theorem memoryFree_shrinks (tracking : Tracking state)
    (taken : memoryFree state block = some after) : Shrinks state after := by
  obtain ⟨header, held, -, ⟨-, rfl⟩ | ⟨-, names, rfl⟩ | ⟨number, checkpoint, names, opened, rfl⟩⟩ :=
    memoryFree_cases tracking taken
  · exact Shrinks.refl _
  · rw [freeBlock]
    split
    · exact setHeader_shrinks held rfl rfl rfl (Or.inl rfl) (Or.inr names)
    · exact release_shrinks held header.allocator
  · have heldStill : (state.setCheckpoint number
        (checkpoint.unlink block header.size)).blocks block = some header := held
    exact (unlink_shrinks opened header.size).trans (release_shrinks heldStill header.allocator)

theorem MemoryLaw.free (law : MemoryLaw state) (taken : memoryFree state block = some after) :
    MemoryLaw after := by
  have shrinks := memoryFree_shrinks law.tracking taken
  obtain ⟨header, held, -, ⟨-, rfl⟩ | ⟨-, names, rfl⟩ | ⟨number, checkpoint, names, opened, rfl⟩⟩ :=
    memoryFree_cases law.tracking taken
  · exact law
  · have unowned : state.owner block = none := (owner_of_held held).trans names
    rw [freeBlock] at shrinks ⊢
    split at shrinks
    · rw [if_pos ‹_›]
      refine law.of_shrinks shrinks ?_ rfl
      rw [owner_setHeader, names, ← unowned, Function.update_eq_self]
      exact law.tracking.owns
    · rw [if_neg ‹_›]
      refine law.of_shrinks shrinks ?_ rfl
      rw [owner_release, ← unowned, Function.update_eq_self]
      exact law.tracking.owns
  · refine law.of_shrinks shrinks ?_ rfl
    rw [owner_release]
    have owns := law.tracking.owns_unlink held names opened
    rw [← listOf_setCheckpoint] at owns
    exact owns

theorem memoryPromote_shrinks (taken : memoryPromote state block = some after) :
    Shrinks state after := by
  obtain ⟨header, held, ⟨-, rfl⟩ | ⟨number, checkpoint, -, -, opened, rfl⟩⟩ :=
    memoryPromote_cases taken
  · exact Shrinks.refl _
  · have heldStill : (state.setCheckpoint number
        (checkpoint.unlink block header.size)).blocks block = some header := held
    exact (unlink_shrinks opened header.size).trans
      (setHeader_shrinks heldStill rfl rfl rfl (Or.inr rfl) (Or.inr rfl))

theorem MemoryLaw.promote (law : MemoryLaw state)
    (taken : memoryPromote state block = some after) : MemoryLaw after := by
  have shrinks := memoryPromote_shrinks taken
  obtain ⟨header, held, ⟨-, rfl⟩ | ⟨number, checkpoint, -, names, opened, rfl⟩⟩ :=
    memoryPromote_cases taken
  · exact law
  · refine law.of_shrinks shrinks ?_ rfl
    rw [owner_setHeader]
    have owns := law.tracking.owns_unlink held names opened
    rw [← listOf_setCheckpoint] at owns
    exact owns

theorem MemoryLaw.setHeader (law : MemoryLaw state) (held : state.blocks block = some header)
    (shrinks : Shrinks state (state.setHeader block changed))
    (names : changed.checkpoint = header.checkpoint) :
    MemoryLaw (state.setHeader block changed) := by
  refine law.of_shrinks shrinks ?_ rfl
  rw [owner_setHeader, names, ← owner_of_held held, Function.update_eq_self]
  exact law.tracking.owns

theorem memoryMarkHazardProtected_shrinks
    (taken : memoryMarkHazardProtected state block = some after) : Shrinks state after := by
  obtain ⟨header, held, ⟨-, rfl⟩ | ⟨-, -, rfl⟩⟩ := memoryMarkHazardProtected_cases taken
  · exact Shrinks.refl _
  · exact setHeader_shrinks held rfl rfl rfl (Or.inl rfl) (Or.inl rfl)

theorem MemoryLaw.markHazardProtected (law : MemoryLaw state)
    (taken : memoryMarkHazardProtected state block = some after) : MemoryLaw after := by
  have shrinks := memoryMarkHazardProtected_shrinks taken
  obtain ⟨header, held, ⟨-, rfl⟩ | ⟨-, -, rfl⟩⟩ := memoryMarkHazardProtected_cases taken
  · exact law
  · exact law.setHeader held shrinks rfl

theorem memoryClearHazardProtection_shrinks (tracking : Tracking state)
    (taken : memoryClearHazardProtection state block = some after) : Shrinks state after := by
  obtain ⟨header, held, ⟨-, rfl⟩ | ⟨-, -, ⟨-, rfl⟩ | ⟨number, -, rfl⟩⟩⟩ :=
    memoryClearHazardProtection_cases tracking taken
  · exact Shrinks.refl _
  · exact release_shrinks held .system
  · exact setHeader_shrinks held rfl rfl rfl (Or.inl rfl) (Or.inl rfl)

theorem MemoryLaw.clearHazardProtection (law : MemoryLaw state)
    (taken : memoryClearHazardProtection state block = some after) : MemoryLaw after := by
  have shrinks := memoryClearHazardProtection_shrinks law.tracking taken
  obtain ⟨header, held, ⟨-, rfl⟩ | ⟨-, -, ⟨names, rfl⟩ | ⟨number, names, rfl⟩⟩⟩ :=
    memoryClearHazardProtection_cases law.tracking taken
  · exact law
  · refine law.of_shrinks shrinks ?_ rfl
    rw [owner_release, ← names, ← owner_of_held held, Function.update_eq_self]
    exact law.tracking.owns
  · exact law.setHeader held shrinks rfl

theorem writeContents_shrinks {contents : List UInt8}
    (taken : writeContents state block contents = some after) : Shrinks state after := by
  obtain ⟨header, held, rfl⟩ := Option.map_eq_some_iff.mp taken
  exact setHeader_shrinks held rfl rfl rfl (Or.inl rfl) (Or.inl rfl)

theorem MemoryLaw.writeContents {contents : List UInt8} (law : MemoryLaw state)
    (taken : Jdbx.writeContents state block contents = some after) : MemoryLaw after := by
  have shrinks := writeContents_shrinks taken
  obtain ⟨header, held, rfl⟩ := Option.map_eq_some_iff.mp taken
  exact law.setHeader held shrinks rfl

theorem bypass_shrinks (state : MemoryState) (bypass : Bool) :
    Shrinks state { state with bypassCheckpoint := bypass } :=
  ⟨rfl, fun found => ⟨_, found, rfl, rfl⟩,
    fun found => ⟨_, found, rfl, rfl, rfl, Or.inl rfl, Or.inl rfl⟩, fun _ => Or.inl rfl⟩

theorem MemoryLaw.bypass (law : MemoryLaw state) (bypass : Bool) :
    MemoryLaw { state with bypassCheckpoint := bypass } :=
  law.of_shrinks (bypass_shrinks state bypass) law.tracking.owns rfl

theorem pushCheckpoint_self (hasArena : Bool) :
    (state.pushCheckpoint hasArena).checkpoints state.next =
      some ⟨state.currentCheckpoint, [], 0, 0, false, hasArena⟩ :=
  Function.update_self ..

theorem pushCheckpoint_of_ne (different : number ≠ state.next) (hasArena : Bool) :
    (state.pushCheckpoint hasArena).checkpoints number = state.checkpoints number :=
  Function.update_of_ne different ..

theorem Numbering.open_lt (numbering : Numbering state)
    (opened : state.checkpoints number = some checkpoint) : number < state.next := by
  by_contra above
  rw [numbering.checkpoint number (Nat.le_of_not_lt above)] at opened
  cases opened

theorem Numbering.held_lt (numbering : Numbering state)
    (held : state.blocks block = some header) : block < state.next := by
  by_contra above
  rw [numbering.block block (Nat.le_of_not_lt above)] at held
  cases held

theorem Numbering.owned_lt (numbering : Numbering state)
    (named : state.owner block = some number) : block < state.next := by
  obtain ⟨header, held, -⟩ := Option.bind_eq_some_iff.mp named
  exact numbering.held_lt held

theorem pushCheckpoint_newestBelow {pointer : Option Nat} {limit : Nat}
    (newest : state.NewestBelow pointer limit) (old : limit ≤ state.next) (hasArena : Bool) :
    (state.pushCheckpoint hasArena).NewestBelow pointer limit := by
  intro number opened below
  have notNew : number ≠ state.next := Nat.ne_of_lt (Nat.lt_of_lt_of_le below old)
  rw [pushCheckpoint_of_ne notNew] at opened
  exact newest number opened below

theorem MemoryLaw.pushCheckpoint (law : MemoryLaw state) (hasArena : Bool) :
    MemoryLaw (state.pushCheckpoint hasArena) := by
  have sameLists : (state.pushCheckpoint hasArena).listOf = state.listOf := by
    funext number
    rw [listOf, listOf]
    by_cases new : number = state.next
    · subst new
      rw [pushCheckpoint_self, law.numbering.checkpoint state.next (Nat.le_refl _)]
      rfl
    · rw [pushCheckpoint_of_ne new]
  constructor
  · constructor
    · rw [sameLists]
      exact law.tracking.owns
    · intro number found same
      by_cases new : number = state.next
      · subst new
        obtain rfl := Option.some.inj ((pushCheckpoint_self hasArena).symm.trans same)
        rfl
      · exact law.tracking.uncommitted ((pushCheckpoint_of_ne new hasArena).symm.trans same)
    · exact law.tracking.tracked
  · constructor
    · exact fun number _ below => ⟨state.next, rfl, Nat.le_of_lt_succ below⟩
    · intro number same
      cases same
      exact Nat.lt_succ_self _
    · intro number found same
      by_cases new : number = state.next
      · subst new
        obtain rfl := Option.some.inj ((pushCheckpoint_self hasArena).symm.trans same)
        exact pushCheckpoint_newestBelow law.nesting.current (Nat.le_refl _) hasArena
      · have before := (pushCheckpoint_of_ne new hasArena).symm.trans same
        have old : number ≤ state.next := Nat.le_of_lt (law.numbering.open_lt before)
        exact pushCheckpoint_newestBelow (law.nesting.parent before) old hasArena
    · intro number found same
      by_cases new : number = state.next
      · subst new
        obtain rfl := Option.some.inj ((pushCheckpoint_self hasArena).symm.trans same)
        exact law.nesting.currentNumber
      · exact law.nesting.parentNumber ((pushCheckpoint_of_ne new hasArena).symm.trans same)
    · intro block number named
      have old : block ≤ state.next := Nat.le_of_lt (law.numbering.owned_lt named)
      exact pushCheckpoint_newestBelow (law.nesting.made named) old hasArena
    · exact law.nesting.madeNumber
  · constructor
    · intro number above
      rw [pushCheckpoint_of_ne (Nat.ne_of_gt above)]
      exact law.numbering.checkpoint number (Nat.le_of_succ_le above)
    · exact fun number above => law.numbering.block number (Nat.le_of_succ_le above)
    · exact fun number above => law.numbering.unreleased number (Nat.le_of_succ_le above)
    · exact law.numbering.held

/-! ## A new block -/

def Tracks (state : MemoryState) (allocator : Allocator)
    (tracking : Option (Nat × MemoryCheckpoint)) : Prop :=
  ∀ number checkpoint, tracking = some (number, checkpoint) →
    state.currentCheckpoint = some number ∧ state.checkpoints number = some checkpoint ∧
      allocator.isArena = false

theorem tracks_trackingCheckpoint {current : Option (Nat × MemoryCheckpoint)}
    (found : state.current = some current) (allocator : Allocator) :
    Tracks state allocator (trackingCheckpoint state current allocator) := by
  intro number checkpoint tracking
  obtain ⟨rfl, tracks⟩ := Option.filter_eq_some_iff.mp tracking
  rw [MemoryState.current] at found
  cases pointer : state.currentCheckpoint with
  | none => simp [pointer] at found
  | some other =>
      simp only [pointer, Option.map_eq_some_iff, Option.some.injEq, Prod.mk.injEq] at found
      obtain ⟨before, opened, rfl, rfl⟩ := found
      exact ⟨rfl, opened, by simp only [Bool.and_eq_true, Bool.not_eq_true'] at tracks; exact tracks.2⟩

theorem tracks_allocPlan {size : Nat} {allocator : Allocator}
    {tracking : Option (Nat × MemoryCheckpoint)}
    (plan : allocPlan state size answers = some (some (allocator, tracking))) :
    Tracks state allocator tracking := by
  rw [allocPlan] at plan
  split_ifs at plan
  · cases plan
  · obtain ⟨served, -, same⟩ := Option.map_eq_some_iff.mp (Option.some.inj plan)
    cases same
    exact nofun
  · obtain ⟨current, found, same⟩ := Option.map_eq_some_iff.mp plan
    obtain ⟨served, -, same⟩ := Option.map_eq_some_iff.mp same
    cases same
    exact tracks_trackingCheckpoint found _

theorem pos_of_allocPlan {size : Nat} {served : Allocator × Option (Nat × MemoryCheckpoint)}
    (plan : allocPlan state size answers = some (some served)) : 0 < size := by
  by_contra zero
  rw [allocPlan, if_pos (Nat.eq_zero_of_not_pos zero)] at plan
  cases plan

theorem memoryAlloc_cases {size : Nat} (taken : memoryAlloc state size answers = some after) :
    after = state ∨ ∃ allocator tracking,
      allocPlan state size answers = some (some (allocator, tracking)) ∧
        after = state.place size allocator tracking := by
  obtain ⟨plan, found, rfl⟩ := Option.map_eq_some_iff.mp taken
  cases plan with
  | none => exact Or.inl rfl
  | some served => exact Or.inr ⟨served.1, served.2, found, rfl⟩

section Place

variable {size : Nat} {allocator : Allocator} {tracking : Option (Nat × MemoryCheckpoint)}

def newHeader (size : Nat) (allocator : Allocator) (tracking : Option (Nat × MemoryCheckpoint)) :
    MemoryHeader where
  size := size
  checkpoint := tracking.map Prod.fst
  markedFree := false
  hazardProtected := false
  allocator := allocator
  madeUnder := tracking.map Prod.fst
  contents := []

theorem place_blocks : (state.place size allocator tracking).blocks =
    Function.update state.blocks state.next (some (newHeader size allocator tracking)) := by
  cases tracking <;> rfl

theorem place_next : (state.place size allocator tracking).next = state.next + 1 := by
  cases tracking <;> rfl

theorem place_releases : (state.place size allocator tracking).releases = state.releases := by
  cases tracking <;> rfl

theorem place_currentCheckpoint :
    (state.place size allocator tracking).currentCheckpoint = state.currentCheckpoint := by
  cases tracking <;> rfl

theorem place_checkpoints_some : (state.place size allocator (some (number, checkpoint))).checkpoints =
    Function.update state.checkpoints number (some (checkpoint.link state.next size)) :=
  rfl

theorem place_owner : (state.place size allocator tracking).owner =
    Function.update state.owner state.next (tracking.map Prod.fst) := by
  funext block
  rw [owner, place_blocks]
  by_cases same : block = state.next
  · subst same
    simp [newHeader]
  · simp [owner, same]

theorem place_open (tracks : Tracks state allocator tracking) {found : MemoryCheckpoint}
    (opened : (state.place size allocator tracking).checkpoints number = some found) :
    ∃ checkpoint, state.checkpoints number = some checkpoint ∧
      found.parent = checkpoint.parent ∧ found.committed = checkpoint.committed := by
  cases tracking with
  | none => exact ⟨found, opened, rfl, rfl⟩
  | some holder =>
      obtain ⟨current, checkpoint⟩ := holder
      obtain ⟨-, before, -⟩ := tracks current checkpoint rfl
      rw [place_checkpoints_some] at opened
      by_cases same : number = current
      · subst same
        rw [Function.update_self] at opened
        cases opened
        exact ⟨checkpoint, before, rfl, rfl⟩
      · rw [Function.update_of_ne same] at opened
        exact ⟨found, opened, rfl, rfl⟩

theorem place_newestBelow (tracks : Tracks state allocator tracking) {pointer : Option Nat}
    {limit : Nat} (newest : state.NewestBelow pointer limit) :
    (state.place size allocator tracking).NewestBelow pointer limit := by
  intro number opened below
  obtain ⟨found, same⟩ := Option.ne_none_iff_exists'.mp opened
  obtain ⟨checkpoint, before, -⟩ := place_open tracks same
  exact newest number (by simp [before]) below

theorem MemoryLaw.place_owns (law : MemoryLaw state) (tracks : Tracks state allocator tracking) :
    Owns (state.place size allocator tracking).listOf
      (state.place size allocator tracking).owner := by
  have unowned : state.owner state.next = none := by
    rw [owner, law.numbering.block state.next (Nat.le_refl _), Option.bind_none]
  rw [place_owner]
  cases tracking with
  | none =>
      rw [Option.map_none, ← unowned, Function.update_eq_self]
      exact law.tracking.owns
  | some holder =>
      obtain ⟨number, checkpoint⟩ := holder
      obtain ⟨-, opened, -⟩ := tracks number checkpoint rfl
      have lists : (state.place size allocator (some (number, checkpoint))).listOf =
          Function.update state.listOf number (state.listOf number ++ [state.next]) := by
        rw [listOf_of_open opened]
        exact listOf_setCheckpoint
      rw [lists]
      exact law.tracking.owns.append unowned

theorem MemoryLaw.place (law : MemoryLaw state) (tracks : Tracks state allocator tracking) :
    MemoryLaw (state.place size allocator tracking) := by
  have old : ∀ {pointer : Option Nat} {limit : Nat}, state.NewestBelow pointer limit →
      (state.place size allocator tracking).NewestBelow pointer limit := place_newestBelow tracks
  constructor
  · refine ⟨law.place_owns tracks, ?_, ?_⟩
    · intro number found opened
      obtain ⟨checkpoint, before, -, committed⟩ := place_open tracks opened
      exact committed.trans (law.tracking.uncommitted before)
    · intro block header number held names
      rw [place_blocks] at held
      by_cases new : block = state.next
      · subst new
        rw [Function.update_self] at held
        cases held
        obtain ⟨⟨_, checkpoint⟩, tracking, rfl⟩ := Option.map_eq_some_iff.mp names
        exact ⟨rfl, (tracks _ checkpoint tracking).2.2, names⟩
      · rw [Function.update_of_ne new] at held
        exact law.tracking.tracked held names
  · constructor
    · intro number opened below
      rw [place_currentCheckpoint]
      obtain ⟨found, same⟩ := Option.ne_none_iff_exists'.mp opened
      obtain ⟨checkpoint, before, -⟩ := place_open tracks same
      exact law.nesting.current number (by simp [before]) (law.numbering.open_lt before)
    · intro number current
      rw [place_currentCheckpoint] at current
      rw [place_next]
      exact Nat.lt_succ_of_lt (law.nesting.currentNumber number current)
    · intro number found opened
      obtain ⟨checkpoint, before, parent, -⟩ := place_open tracks opened
      rw [parent]
      exact old (law.nesting.parent before)
    · intro number found opened
      obtain ⟨checkpoint, before, parent, -⟩ := place_open tracks opened
      rw [parent]
      exact law.nesting.parentNumber before
    · intro block number named
      rw [place_owner] at named
      by_cases new : block = state.next
      · subst new
        rw [Function.update_self] at named
        obtain ⟨⟨_, checkpoint⟩, tracking, rfl⟩ := Option.map_eq_some_iff.mp named
        rw [← (tracks _ checkpoint tracking).1]
        exact old law.nesting.current
      · rw [Function.update_of_ne new] at named
        exact old (law.nesting.made named)
    · intro block number named
      rw [place_owner] at named
      by_cases new : block = state.next
      · subst new
        rw [Function.update_self] at named
        obtain ⟨⟨_, checkpoint⟩, tracking, rfl⟩ := Option.map_eq_some_iff.mp named
        exact law.nesting.currentNumber _ (tracks _ checkpoint tracking).1
      · rw [Function.update_of_ne new] at named
        exact law.nesting.madeNumber named
  · constructor
    · intro number above
      rw [place_next] at above
      by_contra opened
      obtain ⟨found, same⟩ := Option.ne_none_iff_exists'.mp opened
      obtain ⟨checkpoint, before, -⟩ := place_open tracks same
      have below : number < state.next := law.numbering.open_lt before
      omega
    · intro number above
      rw [place_next] at above
      rw [place_blocks, Function.update_of_ne (Nat.ne_of_gt above)]
      exact law.numbering.block number (Nat.le_of_succ_le above)
    · intro number above
      rw [place_next] at above
      rw [place_releases]
      exact law.numbering.unreleased number (Nat.le_of_succ_le above)
    · intro block held
      rw [place_releases]
      by_cases new : block = state.next
      · exact law.numbering.unreleased block (Nat.le_of_eq new.symm)
      · rw [place_blocks, Function.update_of_ne new] at held
        exact law.numbering.held block held

end Place

end Jdbx
