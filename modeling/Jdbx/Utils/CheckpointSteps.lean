import Jdbx.Utils.MemorySteps

/-!
# Commit and rewind

The loops of a commit and of a rewind in closed form, and what a whole rewind makes of
each block: the checkpoints above the target are exactly the newer ones.
-/

namespace Jdbx

open Library MemoryState

variable {state after : MemoryState} {block number : Nat} {header : MemoryHeader}
  {checkpoint : MemoryCheckpoint} {blocks : List Nat} {event : MemoryEvent}
  {releases : MemoryHeader → Bool}

namespace MemoryState

def cleared (state : MemoryState) (blocks : List Nat) : MemoryState :=
  { state with
    blocks := fun block =>
      if block ∈ blocks then
        (state.blocks block).map fun header => { header with checkpoint := none }
      else state.blocks block }

def unprotected (state : MemoryState) (block : Nat) : Bool :=
  (state.blocks block).any fun header => !header.hazardProtected && !header.allocator.isArena

/-- The unprotected blocks of a list are released, each through its own allocator. -/
def swept (state : MemoryState) (blocks : List Nat) : MemoryState :=
  { state with
    blocks := fun block =>
      if block ∈ blocks ∧ state.unprotected block then none else state.blocks block
    releases := fun block =>
      if block ∈ blocks ∧ state.unprotected block then
        state.releases block ++ (state.blocks block).toList.map (·.allocator)
      else state.releases block }

def hazardList (state : MemoryState) (blocks : List Nat) : List Nat :=
  (blocks.filter fun block => (state.blocks block).any (·.hazardProtected)).reverse

end MemoryState

theorem clearCheckpoints_eq (stops : Bool) : ∀ (blocks : List Nat) {state : MemoryState},
    (∀ block ∈ blocks, ∃ header, state.blocks block = some header ∧ header.markedFree = false) →
      clearCheckpoints stops state blocks = some (state.cleared blocks) := by
  intro blocks
  induction blocks with
  | nil =>
    intro state _
    simp [clearCheckpoints, cleared]
  | cons block blocks ih =>
    intro state held
    obtain ⟨header, found, unmarked⟩ := held block List.mem_cons_self
    let first := state.setHeader block { header with checkpoint := none }
    have heldAfter : ∀ other ∈ blocks, ∃ header, first.blocks other = some header ∧
        header.markedFree = false := by
      intro other member
      by_cases same : other = block
      · subst same
        exact ⟨{ header with checkpoint := none }, by simp [first, setHeader], unmarked⟩
      · obtain ⟨left, before, rest⟩ := held other (List.mem_cons_of_mem _ member)
        exact ⟨left, by simpa [first, setHeader, same] using before, rest⟩
    have cleared_first : first.cleared blocks = state.cleared (block :: blocks) := by
      simp only [cleared, first, setHeader, MemoryState.mk.injEq, true_and, and_true]
      funext other
      by_cases same : other = block
      · subst same
        simp [found]
      · simp [same]
    have goesOn : (stops && header.markedFree) = false := by rw [unmarked, Bool.and_false]
    rw [clearCheckpoints, found, Option.bind_some, goesOn, if_neg Bool.false_ne_true,
      ih heldAfter, cleared_first]

theorem swept_cons_of_kept (kept : state.unprotected block = false) :
    state.swept (block :: blocks) = state.swept blocks := by
  simp only [swept, MemoryState.mk.injEq, true_and]
  constructor
  all_goals
    funext other
    by_cases same : other = block
    · subst same
      simp [kept]
    · simp [same]

theorem rewindAllocations_eq : ∀ (blocks : List Nat) {state : MemoryState} (found : List Nat),
    blocks.Nodup → (∀ block ∈ blocks, ∃ header, state.blocks block = some header) →
      rewindAllocations state found blocks =
        some (state.swept blocks, state.hazardList blocks ++ found) := by
  intro blocks
  induction blocks with
  | nil =>
    intro state found _ _
    simp [rewindAllocations, swept, hazardList]
  | cons block blocks ih =>
    intro state found nodup held
    obtain ⟨notLater, nodup⟩ := List.nodup_cons.mp nodup
    obtain ⟨header, foundHeader⟩ := held block List.mem_cons_self
    have heldLater : ∀ other ∈ blocks, ∃ header, state.blocks other = some header :=
      fun other member => held other (List.mem_cons_of_mem _ member)
    rw [rewindAllocations, foundHeader, Option.bind_some]
    by_cases protects : header.hazardProtected
    · have notSwept : state.unprotected block = false := by
        simp [unprotected, foundHeader, protects]
      rw [if_pos protects, ih _ nodup heldLater, swept_cons_of_kept notSwept]
      simp [hazardList, foundHeader, protects]
    · have noHazard : state.hazardList (block :: blocks) = state.hazardList blocks := by
        simp [hazardList, foundHeader, protects]
      rw [if_neg protects, noHazard]
      cases inArena : header.allocator.isArena with
      | true =>
        have notSwept : state.unprotected block = false := by
          simp [unprotected, foundHeader, inArena]
        rw [if_pos rfl, ih _ nodup heldLater, swept_cons_of_kept notSwept]
      | false =>
        have sweeps : state.unprotected block = true := by
          simp [unprotected, foundHeader, protects, inArena]
        have others : ∀ other ∈ blocks,
            (state.release block header.allocator).blocks other = state.blocks other := by
          intro other member
          have different : other ≠ block := fun same => notLater (same ▸ member)
          simp [release, different]
        have heldAfter : ∀ other ∈ blocks, ∃ left,
            (state.release block header.allocator).blocks other = some left := by
          intro other member
          rw [others other member]
          exact heldLater other member
        have sameHazard : (state.release block header.allocator).hazardList blocks =
            state.hazardList blocks := by
          rw [hazardList, hazardList]
          congr 1
          apply List.filter_congr
          intro other member
          rw [others other member]
        have sameSwept : (state.release block header.allocator).swept blocks =
            state.swept (block :: blocks) := by
          simp only [swept, release, MemoryState.mk.injEq, true_and]
          constructor
          all_goals
            funext other
            by_cases same : other = block
            · subst same
              simp [notLater, sweeps, foundHeader]
            · simp [same, unprotected]
        rw [if_neg Bool.false_ne_true, ih _ nodup heldAfter, sameHazard,
          sameSwept]

theorem cleared_shrinks (state : MemoryState) (blocks : List Nat) :
    Shrinks state (state.cleared blocks) where
  sameNext := rfl
  fromCheckpoint := fun found => ⟨_, found, rfl, rfl⟩
  fromBlock := by
    intro block left found
    by_cases member : block ∈ blocks
    · simp only [cleared, member, if_true, Option.map_eq_some_iff] at found
      obtain ⟨header, held, rfl⟩ := found
      exact ⟨header, held, rfl, rfl, rfl, Or.inr rfl, Or.inl rfl⟩
    · simp only [cleared, member, if_false] at found
      exact ⟨left, found, rfl, rfl, rfl, Or.inl rfl, Or.inl rfl⟩
  released := fun _ => Or.inl rfl

theorem swept_shrinks (state : MemoryState) (blocks : List Nat) :
    Shrinks state (state.swept blocks) where
  sameNext := rfl
  fromCheckpoint := fun found => ⟨_, found, rfl, rfl⟩
  fromBlock := fun found =>
    ⟨_, (Option.ite_none_left_eq_some.mp found).2, rfl, rfl, rfl, Or.inl rfl, Or.inl rfl⟩
  released := by
    intro block
    by_cases goes : block ∈ blocks ∧ state.unprotected block
    · obtain ⟨header, held, -⟩ := (Option.any_eq_true _ _).mp goes.2
      exact Or.inr ⟨by simp [held], if_pos goes⟩
    · exact Or.inl (if_neg goes)

def ReleasesThrough (state after : MemoryState) : Prop :=
  ∀ block header, state.blocks block = some header → after.blocks block = none →
    after.releases block = state.releases block ++ [header.allocator]

theorem ReleasesThrough.trans {middle : MemoryState} (first : ReleasesThrough state middle)
    (second : ReleasesThrough middle after) (shrinks : Shrinks state middle)
    (later : Shrinks middle after) : ReleasesThrough state after := by
  intro block header held gone
  cases inMiddle : middle.blocks block with
  | none =>
    rcases later.released block with same | ⟨stays, -⟩
    · rw [same, first block header held inMiddle]
    · exact absurd inMiddle stays
  | some found =>
    obtain ⟨before, heldBefore, -, sameAllocator, -⟩ := shrinks.fromBlock inMiddle
    obtain rfl := Option.some.inj (held.symm.trans heldBefore)
    rw [second block found inMiddle gone, sameAllocator]
    rcases shrinks.released block with same | ⟨-, goneBefore⟩
    · rw [same]
    · rw [inMiddle] at goneBefore
      cases goneBefore

/-! ## A checkpoint goes -/

def afterClosing (releases : MemoryHeader → Bool) (number : Nat) (hasArena : Bool)
    (header : MemoryHeader) : Option MemoryHeader :=
  if header.checkpoint = some number then
    if releases header then none else some { header with checkpoint := none }
  else if hasArena ∧ header.allocator = .arena number then none
  else some header

/-- A checkpoint is freed, and its list with it. -/
structure Closes (releases : MemoryHeader → Bool) (number : Nat) (checkpoint : MemoryCheckpoint)
    (state after : MemoryState) : Prop where
  shrinks : Shrinks state after
  blocks : ∀ block, after.blocks block =
    (state.blocks block).bind (afterClosing releases number checkpoint.hasArena)
  checkpoints : after.checkpoints = Function.update state.checkpoints number none
  through : ReleasesThrough state after

theorem Closes.owns (closes : Closes releases number checkpoint state after)
    (tracking : Tracking state) :
    Owns after.listOf after.owner := by
  have lists : after.listOf = Function.update state.listOf number [] := by
    funext tested
    rw [listOf, closes.checkpoints]
    by_cases same : tested = number
    · subst same
      simp
    · simp [same, listOf]
  have owners : after.owner = ownerAfterCut state.owner number [] := by
    funext block
    rw [owner, closes.blocks, ownerAfterCut]
    cases held : state.blocks block with
    | none => simp [owner, held]
    | some header =>
      simp only [owner, held, Option.bind_some, afterClosing, List.not_mem_nil, not_false_eq_true,
        and_true]
      by_cases named : header.checkpoint = some number
      · rw [if_pos named, if_pos named]
        split <;> rfl
      · rw [if_neg named, if_neg named]
        split_ifs with inArena
        · cases names : header.checkpoint with
          | none => rfl
          | some other =>
            have notArena := (tracking.tracked held names).2.1
            rw [inArena.2] at notArena
            cases notArena
        · rfl
  rw [lists, owners]
  exact tracking.owns.cut List.nodup_nil (by simp)

def afterUnlisting (releases : MemoryHeader → Bool) (number : Nat) (header : MemoryHeader) :
    Option MemoryHeader :=
  if header.checkpoint = some number then
    if releases header then none else some { header with checkpoint := none }
  else some header

theorem freeCheckpoint_block_of_held (held : state.blocks block = some header) :
    (checkpoint.hasArena = true ∧ header.allocator = .arena number ∧
        (state.freeCheckpoint number checkpoint).blocks block = none ∧
          (state.freeCheckpoint number checkpoint).releases block =
            state.releases block ++ [header.allocator]) ∨
      ¬ (checkpoint.hasArena = true ∧ header.allocator = .arena number) ∧
        (state.freeCheckpoint number checkpoint).blocks block = some header := by
  rw [freeCheckpoint]
  cases arena : checkpoint.hasArena with
  | false => exact Or.inr ⟨by simp, held⟩
  | true =>
    by_cases inArena : header.allocator = .arena number
    · exact Or.inl ⟨rfl, inArena, by simp [destroyArena, held, inArena],
        by simp [destroyArena, held, inArena]⟩
    · exact Or.inr ⟨by simp [inArena], by simp [destroyArena, held, inArena]⟩

theorem closes_freeCheckpoint {middle : MemoryState} (tracking : Tracking state)
    (opened : state.checkpoints number = some checkpoint) (shrinks : Shrinks state middle)
    (sameCheckpoints : middle.checkpoints = state.checkpoints)
    (blocks : ∀ block,
      middle.blocks block = (state.blocks block).bind (afterUnlisting releases number))
    (through : ReleasesThrough state middle)
    (untouched : ∀ {block}, middle.blocks block ≠ none →
      middle.releases block = state.releases block) :
    Closes releases number checkpoint state (middle.freeCheckpoint number checkpoint) := by
  have openedStill : middle.checkpoints number = some checkpoint := by
    rw [sameCheckpoints, opened]
  have freed := freeCheckpoint_shrinks openedStill
  have left : ∀ {block header found}, state.blocks block = some header →
      afterUnlisting releases number header = some found →
        found.allocator = header.allocator ∧
          afterClosing releases number checkpoint.hasArena header =
            if checkpoint.hasArena ∧ found.allocator = .arena number then none
            else some found := by
    intro block header found held unlisted
    rw [afterUnlisting] at unlisted
    rw [afterClosing]
    by_cases named : header.checkpoint = some number
    · rw [if_pos named] at unlisted ⊢
      have notArena := (tracking.tracked held named).2.1
      obtain ⟨kept, same⟩ := Option.ite_none_left_eq_some.mp unlisted
      cases same
      refine ⟨rfl, ?_⟩
      rw [if_neg kept, if_neg]
      intro inArena
      rw [inArena.2] at notArena
      cases notArena
    · rw [if_neg named] at unlisted ⊢
      cases unlisted
      exact ⟨rfl, rfl⟩
  constructor
  · exact shrinks.trans freed
  · intro block
    cases held : state.blocks block with
    | none => exact freed.gone (by rw [blocks, held, Option.bind_none])
    | some header =>
      rw [Option.bind_some]
      cases unlisted : afterUnlisting releases number header with
      | none =>
        have gone : middle.blocks block = none := by
          rw [blocks, held, Option.bind_some, unlisted]
        have closed : afterClosing releases number checkpoint.hasArena header = none := by
          rw [afterUnlisting] at unlisted
          rw [afterClosing]
          by_cases named : header.checkpoint = some number
          · rw [if_pos named] at unlisted ⊢
            exact unlisted
          · rw [if_neg named] at unlisted
            cases unlisted
        rw [freed.gone gone, closed]
      | some found =>
        have stays : middle.blocks block = some found := by
          rw [blocks, held, Option.bind_some, unlisted]
        rw [(left held unlisted).2]
        rcases freeCheckpoint_block_of_held stays with ⟨arena, inArena, gone, -⟩ | ⟨out, same⟩
        · rw [gone, if_pos ⟨arena, inArena⟩]
        · rw [same, if_neg out]
  · rw [freeCheckpoint]
    split <;> exact congrArg (fun checkpoints => Function.update checkpoints number none) sameCheckpoints
  · intro block header held gone
    have middleBlock : middle.blocks block = afterUnlisting releases number header := by
      rw [blocks, held, Option.bind_some]
    cases unlisted : afterUnlisting releases number header with
    | none =>
      rw [unlisted] at middleBlock
      rcases freed.released block with same | ⟨heldStill, -⟩
      · rw [same, through block header held middleBlock]
      · exact absurd middleBlock heldStill
    | some found =>
      rw [unlisted] at middleBlock
      rcases freeCheckpoint_block_of_held middleBlock with ⟨-, -, -, released⟩ | ⟨-, same⟩
      · rw [released, untouched (by simp [middleBlock]), (left held unlisted).1]
      · rw [same] at gone
        cases gone

theorem Tracking.listed (tracking : Tracking state)
    (opened : state.checkpoints number = some checkpoint) (listed : block ∈ checkpoint.allocations) :
    ∃ header, state.blocks block = some header ∧ header.checkpoint = some number ∧
      header.markedFree = false ∧ header.allocator.isArena = false := by
  rw [← listOf_of_open opened, tracking.owns.agree] at listed
  obtain ⟨header, held, names⟩ := Option.bind_eq_some_iff.mp listed
  have tracked := tracking.tracked held names
  exact ⟨header, held, names, tracked.1, tracked.2.1⟩

theorem Tracking.mem_iff (tracking : Tracking state)
    (opened : state.checkpoints number = some checkpoint) (held : state.blocks block = some header) :
    block ∈ checkpoint.allocations ↔ header.checkpoint = some number := by
  rw [← listOf_of_open opened, tracking.owns.agree, owner_of_held held]

theorem memoryCheckpointCommit_closes (tracking : Tracking state)
    (taken : memoryCheckpointCommit state number = some after) :
    ∃ checkpoint, state.checkpoints number = some checkpoint ∧
      Closes (fun _ => false) number checkpoint state after ∧
        after.currentCheckpoint =
          if state.currentCheckpoint = some number then checkpoint.parent
          else state.currentCheckpoint := by
  obtain ⟨checkpoint, opened, taken⟩ := Option.bind_eq_some_iff.mp taken
  have unmarked : ∀ block ∈ checkpoint.allocations,
      ∃ header, state.blocks block = some header ∧ header.markedFree = false := by
    intro block listed
    obtain ⟨header, held, -, unmarked, -⟩ := tracking.listed opened listed
    exact ⟨header, held, unmarked⟩
  rw [clearCheckpoints_eq true _ unmarked, Option.map_some] at taken
  refine ⟨checkpoint, opened, ?_⟩
  have blocks : ∀ block, (state.cleared checkpoint.allocations).blocks block =
      (state.blocks block).bind (afterUnlisting (fun _ => false) number) := by
    intro block
    cases held : state.blocks block with
    | none => simp [cleared, held]
    | some header =>
      by_cases names : header.checkpoint = some number <;>
        simp [cleared, held, afterUnlisting, tracking.mem_iff opened held, names]
  have kept : ∀ {block header}, state.blocks block = some header →
      (state.cleared checkpoint.allocations).blocks block = none → False := by
    intro block header held gone
    rw [blocks, held, Option.bind_some, afterUnlisting] at gone
    split at gone <;> simp at gone
  have shrinks := cleared_shrinks state checkpoint.allocations
  cases taken
  split
  · refine ⟨closes_freeCheckpoint tracking opened ?_ rfl blocks
      (fun _ _ held gone => (kept held gone).elim) fun _ => rfl, ?_⟩
    · exact ⟨shrinks.sameNext, shrinks.fromCheckpoint, shrinks.fromBlock, shrinks.released⟩
    · rw [freeCheckpoint]
      split <;> rfl
  · refine ⟨closes_freeCheckpoint tracking opened shrinks rfl blocks
      (fun _ _ held gone => (kept held gone).elim) fun _ => rfl, ?_⟩
    rw [freeCheckpoint]
    split <;> rfl

theorem MemoryLaw.checkpointCommit (law : MemoryLaw state)
    (taken : memoryCheckpointCommit state number = some after) : MemoryLaw after := by
  obtain ⟨checkpoint, opened, closes, current⟩ :=
    memoryCheckpointCommit_closes law.tracking taken
  refine ⟨closes.shrinks.tracking law.tracking (closes.owns law.tracking), ?_,
    closes.shrinks.numbering law.numbering⟩
  apply closes.shrinks.nesting law.nesting
  · rw [current]
    split_ifs with isCurrent
    · intro other opens below
      have notClosed : other ≠ number := by
        intro same
        subst same
        exact opens (by rw [closes.checkpoints, Function.update_self])
      rw [closes.checkpoints, Function.update_of_ne notClosed] at opens
      obtain ⟨newest, isNewest, atMost⟩ := law.nesting.current other opens below
      obtain rfl : number = newest := by simpa [isCurrent] using isNewest
      exact law.nesting.parent opened other opens (Nat.lt_of_le_of_ne atMost notClosed)
    · exact closes.shrinks.newestBelow law.nesting.current
  · rw [current]
    split_ifs with isCurrent
    · intro parent isParent
      exact Nat.lt_trans (law.nesting.parentNumber opened parent isParent)
        (law.numbering.open_lt opened)
    · exact law.nesting.currentNumber

theorem rewindNested_closes (tracking : Tracking state)
    (opened : state.checkpoints number = some checkpoint) :
    ∃ after, rewindNested state number = some after ∧
      Closes (!·.hazardProtected) number checkpoint state after ∧
        after.currentCheckpoint = state.currentCheckpoint := by
  have held : ∀ block ∈ checkpoint.allocations, ∃ header, state.blocks block = some header :=
    fun block listed => (tracking.listed opened listed).imp fun _ facts => facts.1
  have nodup : checkpoint.allocations.Nodup := by
    rw [← listOf_of_open opened]
    exact tracking.owns.nodup number
  have unmarked : ∀ block ∈ state.hazardList checkpoint.allocations, ∃ header,
      (state.swept checkpoint.allocations).blocks block = some header ∧
        header.markedFree = false := by
    intro block member
    obtain ⟨listed, protects⟩ := List.mem_filter.mp (List.mem_reverse.mp member)
    obtain ⟨header, held, -, unmarked, -⟩ := tracking.listed opened listed
    have notSwept : state.unprotected block = false := by
      simp only [held, Option.any_some] at protects
      simp [unprotected, held, protects]
    exact ⟨header, by simp [swept, notSwept, held], unmarked⟩
  have runs : rewindNested state number = some
      (((state.swept checkpoint.allocations).cleared
        (state.hazardList checkpoint.allocations)).freeCheckpoint number checkpoint) := by
    rw [rewindNested, opened, Option.bind_some, rewindAllocations_eq _ _ nodup held,
      Option.bind_some, List.append_nil]
    dsimp only
    rw [clearCheckpoints_eq false _ unmarked, Option.map_some]
  refine ⟨_, runs, ?_, ?_⟩
  · have shrinks := (swept_shrinks state checkpoint.allocations).trans
      (cleared_shrinks _ (state.hazardList checkpoint.allocations))
    apply closes_freeCheckpoint tracking opened shrinks rfl
    · intro block
      cases found : state.blocks block with
      | none => simp [cleared, swept, found]
      | some header =>
        by_cases names : header.checkpoint = some number
        · have listed := (tracking.mem_iff opened found).mpr names
          have notArena := (tracking.tracked found names).2.1
          cases protects : header.hazardProtected <;>
            simp [cleared, swept, found, hazardList, listed, unprotected, afterUnlisting, names,
              protects, notArena]
        · have notListed := mt (tracking.mem_iff opened found).mp names
          simp [cleared, swept, found, hazardList, notListed, afterUnlisting, names]
    · intro block header found gone
      by_cases sweeps : block ∈ checkpoint.allocations ∧ state.unprotected block
      · simp [cleared, swept, sweeps, found]
      · have stays : (state.swept checkpoint.allocations).blocks block = some header :=
          (if_neg sweeps).trans found
        simp only [cleared, stays, Option.map_some] at gone
        split at gone <;> cases gone
    · intro block stays
      by_cases sweeps : block ∈ checkpoint.allocations ∧ state.unprotected block
      · simp [cleared, swept, sweeps] at stays
      · exact if_neg sweeps
  · rw [freeCheckpoint]
    split <;> rfl

def rewoundCheckpoint (state : MemoryState) (checkpoint : MemoryCheckpoint) : MemoryCheckpoint :=
  { checkpoint with
    allocations := state.hazardList checkpoint.allocations
    allocationCount := 0
    totalSize := 0 }

/-- The list of one checkpoint is rewound, and the checkpoint stays. -/
structure EmptiesList (number : Nat) (checkpoint : MemoryCheckpoint) (state after : MemoryState) :
    Prop where
  shrinks : Shrinks state after
  blocks : ∀ block, after.blocks block = (state.blocks block).bind fun header =>
    if header.checkpoint = some number ∧ header.hazardProtected = false then none else some header
  checkpoints : after.checkpoints =
    Function.update state.checkpoints number (some (rewoundCheckpoint state checkpoint))
  through : ReleasesThrough state after
  current : after.currentCheckpoint = state.currentCheckpoint

theorem rewindTarget_empties (tracking : Tracking state)
    (opened : state.checkpoints number = some checkpoint) :
    ∃ after, rewindTarget state number = some after ∧
      EmptiesList number checkpoint state after := by
  have held : ∀ block ∈ checkpoint.allocations, ∃ header, state.blocks block = some header :=
    fun block listed => (tracking.listed opened listed).imp fun _ facts => facts.1
  have nodup : checkpoint.allocations.Nodup := by
    rw [← listOf_of_open opened]
    exact tracking.owns.nodup number
  have runs : rewindTarget state number = some
      ((state.swept checkpoint.allocations).setCheckpoint number
        (rewoundCheckpoint state checkpoint)) := by
    rw [rewindTarget, opened, Option.bind_some, rewindAllocations_eq _ _ nodup held,
      Option.map_some, List.append_nil]
    rfl
  refine ⟨_, runs, ?_, ?_, rfl, ?_, rfl⟩
  · have openedStill : (state.swept checkpoint.allocations).checkpoints number =
        some checkpoint := opened
    exact (swept_shrinks state _).trans (setCheckpoint_shrinks openedStill rfl rfl)
  · intro block
    cases found : state.blocks block with
    | none => simp [setCheckpoint, swept, found]
    | some header =>
      by_cases names : header.checkpoint = some number
      · have listed := (tracking.mem_iff opened found).mpr names
        have notArena := (tracking.tracked found names).2.1
        cases protects : header.hazardProtected <;>
          simp [setCheckpoint, swept, found, listed, unprotected, names, protects, notArena]
      · have notListed := mt (tracking.mem_iff opened found).mp names
        simp [setCheckpoint, swept, found, notListed, names]
  · intro block header found gone
    by_cases sweeps : block ∈ checkpoint.allocations ∧ state.unprotected block
    · simp [setCheckpoint, swept, sweeps, found]
    · have stays : (state.swept checkpoint.allocations).blocks block = some header :=
        (if_neg sweeps).trans found
      simp [setCheckpoint, stays] at gone

theorem EmptiesList.owns (empties : EmptiesList number checkpoint state after)
    (tracking : Tracking state) (opened : state.checkpoints number = some checkpoint) :
    Owns after.listOf after.owner := by
  have lists : after.listOf =
      Function.update state.listOf number (state.hazardList checkpoint.allocations) := by
    funext tested
    rw [listOf, empties.checkpoints]
    by_cases same : tested = number
    · subst same
      simp [rewoundCheckpoint]
    · simp [same, listOf]
  have owners : after.owner =
      ownerAfterCut state.owner number (state.hazardList checkpoint.allocations) := by
    funext block
    rw [owner, empties.blocks, ownerAfterCut]
    cases held : state.blocks block with
    | none => simp [owner, held]
    | some header =>
      have listed := tracking.mem_iff opened held
      by_cases names : header.checkpoint = some number
      · cases protects : header.hazardProtected <;>
          simp [owner, held, names, protects, hazardList, listed]
      · simp [owner, held, names]
  have nodup : checkpoint.allocations.Nodup := by
    rw [← listOf_of_open opened]
    exact tracking.owns.nodup number
  rw [lists, owners]
  refine tracking.owns.cut (List.nodup_reverse.mpr (nodup.filter _)) ?_
  intro block member
  rw [listOf_of_open opened]
  exact (List.mem_filter.mp (List.mem_reverse.mp member)).1

/-- The walk along the parents meets every open checkpoint that is newer than its target. -/
theorem checkpointsAbove_some (nesting : Nesting state) :
    ∀ {fuel : Nat} {pointer : Option Nat} {limit : Nat} {nested : List Nat},
      state.NewestBelow pointer limit →
        checkpointsAbove state number fuel pointer = some (some nested) →
          (∀ {newest}, pointer = some newest → number ≤ newest) ∧
            (∀ other, state.checkpoints other ≠ none → other < limit → number < other →
              other ∈ nested) ∧
            (∀ other ∈ nested, state.checkpoints other ≠ none ∧ number < other) ∧
            (∀ other ∈ nested, ∀ newest ∈ pointer, other ≤ newest) ∧ nested.Nodup := by
  intro fuel
  induction fuel with
  | zero =>
    intro pointer limit nested _ walked
    cases pointer <;> simp [checkpointsAbove] at walked
  | succ fuel ih =>
    intro pointer limit nested newest walked
    cases pointer with
    | none => simp [checkpointsAbove] at walked
    | some found =>
      rw [checkpointsAbove] at walked
      split_ifs at walked with reached
      · subst reached
        obtain rfl := Option.some.inj (Option.some.inj walked)
        refine ⟨fun same => Nat.le_of_eq (Option.some.inj same), ?_, by simp, by simp, List.nodup_nil⟩
        intro other opened below above
        obtain ⟨top, isTop, atMost⟩ := newest other opened below
        cases isTop
        omega
      · obtain ⟨checkpoint, opened, walked⟩ := Option.bind_eq_some_iff.mp walked
        obtain ⟨result, walkedOn, same⟩ := Option.map_eq_some_iff.mp walked
        obtain ⟨rest, rfl, rfl⟩ := Option.map_eq_some_iff.mp same
        obtain ⟨atLeast, all, only, atMost, nodup⟩ :=
          ih (nesting.parent opened) walkedOn
        have above : number < found := by
          cases parent : checkpoint.parent with
          | none => cases fuel <;> simp [checkpointsAbove, parent] at walkedOn
          | some above =>
            have lower := nesting.parentNumber opened above parent
            have := atLeast parent
            omega
        have lower : ∀ other ∈ rest, other < found := by
          intro other member
          cases parent : checkpoint.parent with
          | none => cases fuel <;> simp [checkpointsAbove, parent] at walkedOn
          | some above =>
            have := atMost other member above parent
            have := nesting.parentNumber opened above parent
            omega
        refine ⟨?_, ?_, ?_, ?_, ?_⟩
        · intro top same
          cases same
          exact Nat.le_of_lt above
        · intro other opens below newer
          obtain ⟨top, isTop, atMost⟩ := newest other opens below
          cases isTop
          by_cases same : other = found
          · exact same ▸ List.mem_cons_self
          · have isLower : other < found := Nat.lt_of_le_of_ne atMost same
            exact List.mem_cons_of_mem _ (all other opens isLower newer)
        · intro other member
          rcases List.mem_cons.mp member with rfl | member
          · exact ⟨by simp [opened], above⟩
          · exact only other member
        · intro other member top isTop
          cases isTop
          rcases List.mem_cons.mp member with rfl | member
          · exact Nat.le_refl _
          · exact Nat.le_of_lt (lower other member)
        · exact List.nodup_cons.mpr
            ⟨fun member => Nat.lt_irrefl _ (lower found member), nodup⟩

theorem checkpointsAbove_none (nesting : Nesting state) :
    ∀ {fuel : Nat} {pointer : Option Nat} {limit : Nat},
      state.NewestBelow pointer limit →
        checkpointsAbove state number fuel pointer = some none → number < limit →
          state.checkpoints number = none := by
  intro fuel
  induction fuel with
  | zero =>
    intro pointer limit newest walked below
    cases pointer with
    | none =>
      by_contra opened
      obtain ⟨top, isTop, -⟩ := newest number opened below
      cases isTop
    | some found => simp [checkpointsAbove] at walked
  | succ fuel ih =>
    intro pointer limit newest walked below
    by_contra opens
    obtain ⟨found, isTop, atMost⟩ := newest number opens below
    obtain rfl : pointer = some found := isTop
    rw [checkpointsAbove] at walked
    split_ifs at walked with reached
    · cases walked
    · obtain ⟨checkpoint, opened, walked⟩ := Option.bind_eq_some_iff.mp walked
      obtain ⟨result, walkedOn, same⟩ := Option.map_eq_some_iff.mp walked
      obtain rfl := Option.map_eq_none_iff.mp same
      have lower : number < found := Nat.lt_of_le_of_ne atMost (Ne.symm reached)
      exact opens (ih (nesting.parent opened) walkedOn lower)

/-! ## The whole rewind -/

def afterNested (nested : List Nat) (header : MemoryHeader) : Option MemoryHeader :=
  if header.checkpoint.any (· ∈ nested) then
    if header.hazardProtected then some { header with checkpoint := none } else none
  else some header

structure ClosesAll (nested : List Nat) (state after : MemoryState) : Prop where
  shrinks : Shrinks state after
  checkpoints : ∀ number, after.checkpoints number =
    if number ∈ nested then none else state.checkpoints number
  blocks : ∀ {block header}, state.blocks block = some header →
    header.allocator.isArena = false → after.blocks block = afterNested nested header
  through : ReleasesThrough state after
  current : after.currentCheckpoint = state.currentCheckpoint

theorem foldlM_rewindNested : ∀ (nested : List Nat) {state : MemoryState}, MemoryLaw state →
    nested.Nodup → (∀ number ∈ nested, state.checkpoints number ≠ none) →
      ∃ after, nested.foldlM rewindNested state = some after ∧ MemoryLaw after ∧
        ClosesAll nested state after := by
  intro nested
  induction nested with
  | nil =>
    intro state law _ _
    refine ⟨state, rfl, law, Shrinks.refl state, fun number => by simp, ?_, ?_, rfl⟩
    · intro block header held _
      cases names : header.checkpoint <;> simp [held, afterNested, names]
    · intro block header held gone
      rw [held] at gone
      cases gone
  | cons number nested ih =>
    intro state law nodup opened
    obtain ⟨notLater, nodup⟩ := List.nodup_cons.mp nodup
    obtain ⟨checkpoint, isOpen⟩ :=
      Option.ne_none_iff_exists'.mp (opened number List.mem_cons_self)
    obtain ⟨middle, runs, closes, sameCurrent⟩ := rewindNested_closes law.tracking isOpen
    have middleLaw : MemoryLaw middle :=
      law.of_shrinks closes.shrinks (closes.owns law.tracking) sameCurrent
    have openStill : ∀ other ∈ nested, middle.checkpoints other ≠ none := by
      intro other member
      have different : other ≠ number := fun same => notLater (same ▸ member)
      rw [closes.checkpoints, Function.update_of_ne different]
      exact opened other (List.mem_cons_of_mem _ member)
    obtain ⟨after, runsOn, afterLaw, rest⟩ := ih middleLaw nodup openStill
    refine ⟨after, ?_, afterLaw, closes.shrinks.trans rest.shrinks, ?_, ?_, ?_,
      rest.current.trans sameCurrent⟩
    · rw [List.foldlM_cons, runs]
      exact runsOn
    · intro other
      rw [rest.checkpoints, closes.checkpoints]
      by_cases same : other = number
      · subst same
        simp [notLater]
      · simp [same]
    · intro block header held notArena
      have inMiddle := closes.blocks block
      rw [held, Option.bind_some, afterClosing] at inMiddle
      by_cases names : header.checkpoint = some number
      · rw [if_pos names] at inMiddle
        cases protects : header.hazardProtected with
        | false =>
          have gone : middle.blocks block = none := by simpa [protects] using inMiddle
          rw [rest.shrinks.gone gone]
          simp [afterNested, names, protects]
        | true =>
          have stays : middle.blocks block = some { header with checkpoint := none } := by
            simpa [protects] using inMiddle
          rw [rest.blocks stays notArena]
          simp [afterNested, names, protects]
      · have out : ¬ (checkpoint.hasArena = true ∧ header.allocator = .arena number) := by
          intro inArena
          rw [inArena.2] at notArena
          cases notArena
        rw [if_neg names, if_neg out] at inMiddle
        rw [rest.blocks inMiddle notArena, afterNested, afterNested]
        cases name : header.checkpoint with
        | none => rfl
        | some other =>
          have different : other ≠ number := fun same => names (same ▸ name)
          simp [different]
    · exact closes.through.trans rest.through closes.shrinks rest.shrinks

/-- What a rewind to `number` leaves of a block that is not from an arena. -/
def afterRewind (number : Nat) (header : MemoryHeader) : Option MemoryHeader :=
  match header.checkpoint with
  | none => some header
  | some owner =>
    if owner < number then some header
    else if header.hazardProtected = false then none
    else if owner = number then some header
    else some { header with checkpoint := none }

structure Rewinds (number : Nat) (checkpoint : MemoryCheckpoint) (state after : MemoryState) :
    Prop where
  law : MemoryLaw after
  shrinks : Shrinks state after
  target : after.checkpoints number = some (rewoundCheckpoint state checkpoint)
  newer : ∀ other, number < other → after.checkpoints other = none
  older : ∀ other, other < number → after.checkpoints other = state.checkpoints other
  blocks : ∀ {block header}, state.blocks block = some header →
    header.allocator.isArena = false → after.blocks block = afterRewind number header
  through : ReleasesThrough state after
  current : after.currentCheckpoint = some number

theorem MemoryLaw.setCurrent (law : MemoryLaw state)
    (opened : state.checkpoints number = some checkpoint)
    (newest : ∀ other, number < other → state.checkpoints other = none) :
    MemoryLaw { state with currentCheckpoint := some number } where
  tracking := ⟨law.tracking.owns, law.tracking.uncommitted, law.tracking.tracked⟩
  nesting :=
    { current := fun other opens _ =>
        ⟨number, rfl, Nat.le_of_not_lt fun newer => opens (newest other newer)⟩
      currentNumber := fun other same => by
        cases same
        exact law.numbering.open_lt opened
      parent := law.nesting.parent
      parentNumber := law.nesting.parentNumber
      made := law.nesting.made
      madeNumber := law.nesting.madeNumber }
  numbering := ⟨law.numbering.checkpoint, law.numbering.block, law.numbering.unreleased,
    law.numbering.held⟩

section Parts

variable {middle : MemoryState} {nested : List Nat}

theorem afterNested_bind (different : number ∉ nested)
    (newer : ∀ owner, header.checkpoint = some owner → (owner ∈ nested ↔ number < owner)) :
    ((afterNested nested header).bind fun left =>
      if left.checkpoint = some number ∧ left.hazardProtected = false then none else some left) =
        afterRewind number header := by
  rw [afterNested, afterRewind]
  cases names : header.checkpoint with
  | none => simp [names]
  | some owner =>
    have isNewer := newer owner names
    rcases Nat.lt_trichotomy owner number with older | rfl | above
    · have notNested : owner ∉ nested := fun member => by
        have := isNewer.mp member
        omega
      simp [names, notNested, older, Nat.ne_of_lt older]
    · cases protects : header.hazardProtected <;> simp [names, different, protects]
    · have member : owner ∈ nested := isNewer.mpr above
      have notOlder : ¬ owner < number := by omega
      have notTarget : owner ≠ number := by omega
      cases protects : header.hazardProtected <;>
        simp [member, notOlder, notTarget]

theorem ClosesAll.hazardList_eq (closes : ClosesAll nested state middle)
    (tracking : Tracking state) (opened : state.checkpoints number = some checkpoint)
    (different : number ∉ nested) :
    middle.hazardList checkpoint.allocations = state.hazardList checkpoint.allocations := by
  rw [hazardList, hazardList]
  congr 1
  apply List.filter_congr
  intro block listed
  obtain ⟨header, held, names, -, notArena⟩ := tracking.listed opened listed
  rw [closes.blocks held notArena, held, afterNested]
  simp [names, different]

theorem Rewinds.of_parts (law : MemoryLaw state) (middleLaw : MemoryLaw middle)
    (closes : ClosesAll nested state middle) (opened : state.checkpoints number = some checkpoint)
    (newer : ∀ other, state.checkpoints other ≠ none → (other ∈ nested ↔ number < other))
    (taken : rewindTarget { middle with currentCheckpoint := some number } number = some after) :
    Rewinds number checkpoint state after := by
  have different : number ∉ nested := fun member =>
    Nat.lt_irrefl number ((newer number (by simp [opened])).mp member)
  have openedStill : middle.checkpoints number = some checkpoint := by
    rw [closes.checkpoints, if_neg different, opened]
  have newest : ∀ other, number < other → middle.checkpoints other = none := by
    intro other above
    rw [closes.checkpoints]
    split_ifs with member
    · rfl
    · by_contra opens
      exact member ((newer other opens).mpr above)
  have readyLaw := middleLaw.setCurrent openedStill newest
  obtain ⟨last, runs, empties⟩ := rewindTarget_empties readyLaw.tracking openedStill
  obtain rfl : last = after := Option.some.inj (runs.symm.trans taken)
  have sameHazard := closes.hazardList_eq law.tracking opened different
  have shrinks : Shrinks middle last :=
    ⟨empties.shrinks.sameNext, empties.shrinks.fromCheckpoint, empties.shrinks.fromBlock,
      empties.shrinks.released⟩
  constructor
  · exact readyLaw.of_shrinks empties.shrinks (empties.owns readyLaw.tracking openedStill)
      empties.current
  · exact closes.shrinks.trans shrinks
  · rw [empties.checkpoints, Function.update_self, rewoundCheckpoint, rewoundCheckpoint, ← sameHazard]
    rfl
  · intro other above
    rw [empties.checkpoints, Function.update_of_ne (Nat.ne_of_gt above)]
    exact newest other above
  · intro other below
    rw [empties.checkpoints, Function.update_of_ne (Nat.ne_of_lt below)]
    refine (closes.checkpoints other).trans ?_
    split_ifs with member
    · by_contra opens
      have above := (newer other (Ne.symm opens)).mp member
      omega
    · rfl
  · intro block header held notArena
    rw [empties.blocks]
    refine (congrArg (Option.bind · _) (closes.blocks held notArena)).trans ?_
    refine afterNested_bind different fun owner names => ?_
    obtain ⟨other, isOpen, -⟩ := law.tracking.named held names
    exact newer owner (by simp [isOpen])
  · have through : ReleasesThrough middle last := empties.through
    exact closes.through.trans through closes.shrinks shrinks
  · exact empties.current

end Parts

theorem MemoryLaw.checkpointRewind_cases (law : MemoryLaw state)
    (taken : memoryCheckpointRewind state number = some after) :
    (state.checkpoints number = none ∧ after = state) ∨
      ∃ checkpoint, state.checkpoints number = some checkpoint ∧
        Rewinds number checkpoint state after := by
  rw [memoryCheckpointRewind] at taken
  cases walked : checkpointsAbove state number state.next state.currentCheckpoint with
  | none => simp [walked] at taken
  | some found =>
    cases found with
    | none =>
      simp only [walked, Option.some.injEq] at taken
      refine Or.inl ⟨?_, taken.symm⟩
      by_cases below : number < state.next
      · exact checkpointsAbove_none law.nesting law.nesting.current walked below
      · exact law.numbering.checkpoint number (Nat.le_of_not_lt below)
    | some nested =>
      simp only [walked] at taken
      obtain ⟨-, all, only, -, nodup⟩ :=
        checkpointsAbove_some law.nesting law.nesting.current walked
      obtain ⟨middle, runs, middleLaw, closes⟩ :=
        foldlM_rewindNested nested law nodup fun other member => (only other member).1
      rw [runs, Option.bind_some] at taken
      have newer : ∀ other, state.checkpoints other ≠ none →
          (other ∈ nested ↔ number < other) := by
        intro other opens
        obtain ⟨found, isOpen⟩ := Option.ne_none_iff_exists'.mp opens
        exact ⟨fun member => (only other member).2,
          all other opens (law.numbering.open_lt isOpen)⟩
      have notNested : number ∉ nested := fun member =>
        Nat.lt_irrefl _ (only number member).2
      cases opened : state.checkpoints number with
      | none =>
        have closed : middle.checkpoints number = none := by
          rw [closes.checkpoints, if_neg notNested, opened]
        simp [rewindTarget, closed] at taken
      | some checkpoint =>
        exact Or.inr ⟨checkpoint, rfl,
          Rewinds.of_parts law middleLaw closes opened newer taken⟩

theorem MemoryLaw.step (law : MemoryLaw state) (taken : memoryStep state event = some after) :
    MemoryLaw after := by
  cases event with
  | checkpointCreate allocated hasArena =>
    cases taken
    rw [memoryCheckpointCreate]
    split
    · exact law.pushCheckpoint hasArena
    · exact law
  | alloc size answers =>
    rcases memoryAlloc_cases taken with rfl | ⟨allocator, tracking, plan, rfl⟩
    · exact law
    · exact law.place (tracks_allocPlan plan)
  | free block => exact law.free taken
  | promote block => exact law.promote taken
  | markHazardProtected block => exact law.markHazardProtected taken
  | clearHazardProtection block => exact law.clearHazardProtection taken
  | checkpointCommit number => exact law.checkpointCommit taken
  | checkpointRewind number =>
    rcases law.checkpointRewind_cases taken with ⟨-, rfl⟩ | ⟨checkpoint, -, rewinds⟩
    · exact law
    · exact rewinds.law
  | bypassCheckpoint bypass =>
    cases taken
    exact law.bypass bypass
  | write block contents => exact law.writeContents taken

theorem MemoryLaw.step_cases (law : MemoryLaw state) (taken : memoryStep state event = some after) :
    Shrinks state after ∨ (∃ hasArena, after = state.pushCheckpoint hasArena) ∨
      ∃ size allocator tracking, 0 < size ∧ Tracks state allocator tracking ∧
        after = state.place size allocator tracking := by
  cases event with
  | checkpointCreate allocated hasArena =>
    cases taken
    cases allocated with
    | false => exact Or.inl (Shrinks.refl state)
    | true => exact Or.inr (Or.inl ⟨hasArena, rfl⟩)
  | alloc size answers =>
    rcases memoryAlloc_cases taken with rfl | ⟨allocator, tracking, plan, rfl⟩
    · exact Or.inl (Shrinks.refl _)
    · exact Or.inr (Or.inr ⟨size, allocator, tracking, pos_of_allocPlan plan,
        tracks_allocPlan plan, rfl⟩)
  | free block => exact Or.inl (memoryFree_shrinks law.tracking taken)
  | promote block => exact Or.inl (memoryPromote_shrinks taken)
  | markHazardProtected block => exact Or.inl (memoryMarkHazardProtected_shrinks taken)
  | clearHazardProtection block =>
    exact Or.inl (memoryClearHazardProtection_shrinks law.tracking taken)
  | checkpointCommit number =>
    obtain ⟨checkpoint, -, closes, -⟩ := memoryCheckpointCommit_closes law.tracking taken
    exact Or.inl closes.shrinks
  | checkpointRewind number =>
    rcases law.checkpointRewind_cases taken with ⟨-, rfl⟩ | ⟨checkpoint, -, rewinds⟩
    · exact Or.inl (Shrinks.refl _)
    · exact Or.inl rewinds.shrinks
  | bypassCheckpoint bypass =>
    cases taken
    exact Or.inl (bypass_shrinks state bypass)
  | write block contents => exact Or.inl (writeContents_shrinks taken)

theorem MemoryLaw.gone_step (law : MemoryLaw state) (taken : memoryStep state event = some after)
    (old : block < state.next) (gone : state.blocks block = none) :
    block < after.next ∧ after.blocks block = none ∧
      after.releases block = state.releases block := by
  rcases law.step_cases taken with shrinks | ⟨hasArena, rfl⟩ | ⟨size, allocator, tracking, -, -, rfl⟩
  · refine ⟨shrinks.sameNext ▸ old, shrinks.gone gone, ?_⟩
    exact (shrinks.released block).resolve_right fun held => held.1 gone
  · exact ⟨Nat.lt_succ_of_lt old, gone, rfl⟩
  · rw [place_next, place_blocks, place_releases, Function.update_of_ne (Nat.ne_of_lt old)]
    exact ⟨Nat.lt_succ_of_lt old, gone, rfl⟩

theorem memoryLaw_reached {events : List MemoryEvent}
    (reached : runFrom memoryStep .empty events = some state) : MemoryLaw state :=
  invariant_reached (fun _ _ _ law taken => law.step taken) memoryLaw_empty reached

end Jdbx
