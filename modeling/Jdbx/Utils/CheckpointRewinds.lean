import Jdbx.Utils.CheckpointSteps

/-!
# What a rewind releases and what outlives it

A step does to each block that is not from an arena what the header of the block says.
Blocks that are promoted, or whose checkpoint is committed, name no checkpoint, and so no
later commit or rewind reaches them.
-/

namespace Jdbx

open Library MemoryState

variable {state after : MemoryState} {block number : Nat} {header : MemoryHeader}
  {event : MemoryEvent} {events : List MemoryEvent} {left : MemoryHeader}

def headerAfter (state : MemoryState) (block : Nat) (header : MemoryHeader) :
    MemoryEvent → Option MemoryHeader
  | .free freed => if freed = block then none else some header
  | .promote promoted =>
    if promoted = block ∧ header.valid then some { header with checkpoint := none }
    else some header
  | .markHazardProtected marked =>
    if marked = block ∧ header.valid then some { header with hazardProtected := true }
    else some header
  | .clearHazardProtection cleared =>
    if cleared = block ∧ header.valid then
      if header.checkpoint = none then none else some { header with hazardProtected := false }
    else some header
  | .checkpointCommit committed =>
    if header.checkpoint = some committed then some { header with checkpoint := none }
    else some header
  | .checkpointRewind target =>
    if state.checkpoints target = none then some header else afterRewind target header
  | .write written contents =>
    if written = block then some { header with contents := contents } else some header
  | .checkpointCreate .. | .alloc .. | .bypassCheckpoint _ => some header

theorem setHeader_block_self {changed : MemoryHeader} :
    (state.setHeader block changed).blocks block = some changed :=
  Function.update_self ..

theorem release_block_self {through : Allocator} :
    (state.release block through).blocks block = none :=
  Function.update_self ..

theorem setHeader_block_of_ne {other : Nat} {changed : MemoryHeader} (different : other ≠ block) :
    (state.setHeader other changed).blocks block = state.blocks block :=
  Function.update_of_ne (Ne.symm different) ..

theorem release_block_of_ne {other : Nat} {through : Allocator} (different : other ≠ block) :
    (state.release other through).blocks block = state.blocks block :=
  Function.update_of_ne (Ne.symm different) ..

theorem MemoryLaw.header_step (law : MemoryLaw state)
    (taken : memoryStep state event = some after) (held : state.blocks block = some header)
    (notArena : header.allocator.isArena = false) (unmarked : header.markedFree = false) :
    after.blocks block = headerAfter state block header event := by
  cases event with
  | checkpointCreate allocated hasArena =>
    cases taken
    cases allocated <;> exact held
  | alloc size answers =>
    rcases memoryAlloc_cases taken with rfl | ⟨allocator, tracking, plan, rfl⟩
    · exact held
    · have old : block ≠ state.next := Nat.ne_of_lt (law.numbering.held_lt held)
      rw [place_blocks, Function.update_of_ne old, held, headerAfter]
  | free freed =>
    obtain ⟨found, foundHeld, -, cases⟩ := memoryFree_cases law.tracking taken
    rw [headerAfter]
    by_cases same : freed = block
    · subst same
      obtain rfl := Option.some.inj (held.symm.trans foundHeld)
      rw [if_pos rfl]
      rcases cases with ⟨marked, -⟩ | ⟨-, -, rfl⟩ | ⟨owner, checkpoint, -, -, rfl⟩
      · rw [unmarked] at marked
        cases marked
      · rw [freeBlock, if_neg (by simp [notArena])]
        exact release_block_self
      · exact release_block_self
    · rw [if_neg same, ← held]
      rcases cases with ⟨-, rfl⟩ | ⟨-, -, rfl⟩ | ⟨owner, checkpoint, -, -, rfl⟩
      · rfl
      · rw [freeBlock]
        split
        · exact setHeader_block_of_ne same
        · exact release_block_of_ne same
      · exact release_block_of_ne same
  | promote promoted =>
    obtain ⟨found, foundHeld, cases⟩ := memoryPromote_cases taken
    rw [headerAfter]
    by_cases same : promoted = block
    · subst same
      obtain rfl := Option.some.inj (held.symm.trans foundHeld)
      rcases cases with ⟨invalid | names, rfl⟩ | ⟨owner, checkpoint, valid, -, -, rfl⟩
      · simp [invalid, held]
      · cases valid : header.valid with
        | false => simp [held]
        | true => rw [if_pos ⟨rfl, rfl⟩, held, ← names]
      · rw [if_pos ⟨rfl, valid⟩]
        exact setHeader_block_self
    · rw [if_neg fun both => same both.1, ← held]
      rcases cases with ⟨-, rfl⟩ | ⟨owner, checkpoint, -, -, -, rfl⟩
      · rfl
      · exact setHeader_block_of_ne same
  | markHazardProtected marked =>
    obtain ⟨found, foundHeld, cases⟩ := memoryMarkHazardProtected_cases taken
    rw [headerAfter]
    by_cases same : marked = block
    · subst same
      obtain rfl := Option.some.inj (held.symm.trans foundHeld)
      rcases cases with ⟨invalid | isMarked, rfl⟩ | ⟨valid, -, rfl⟩
      · simp [invalid, held]
      · rw [unmarked] at isMarked
        cases isMarked
      · rw [if_pos ⟨rfl, valid⟩]
        exact setHeader_block_self
    · rw [if_neg fun both => same both.1, ← held]
      rcases cases with ⟨-, rfl⟩ | ⟨-, -, rfl⟩
      · rfl
      · exact setHeader_block_of_ne same
  | clearHazardProtection cleared =>
    obtain ⟨found, foundHeld, cases⟩ := memoryClearHazardProtection_cases law.tracking taken
    rw [headerAfter]
    by_cases same : cleared = block
    · subst same
      obtain rfl := Option.some.inj (held.symm.trans foundHeld)
      rcases cases with ⟨invalid | isMarked, rfl⟩ |
        ⟨valid, -, ⟨names, rfl⟩ | ⟨owner, names, rfl⟩⟩
      · simp [invalid, held]
      · rw [unmarked] at isMarked
        cases isMarked
      · rw [if_pos ⟨rfl, valid⟩, if_pos names]
        exact release_block_self
      · rw [if_pos ⟨rfl, valid⟩, if_neg (by simp [names])]
        exact setHeader_block_self
    · rw [if_neg fun both => same both.1, ← held]
      rcases cases with ⟨-, rfl⟩ | ⟨-, -, ⟨-, rfl⟩ | ⟨owner, -, rfl⟩⟩
      · rfl
      · exact release_block_of_ne same
      · exact setHeader_block_of_ne same
  | checkpointCommit committed =>
    obtain ⟨checkpoint, -, closes, -⟩ := memoryCheckpointCommit_closes law.tracking taken
    have out : ¬ (checkpoint.hasArena = true ∧ header.allocator = .arena committed) := by
      intro inArena
      rw [inArena.2] at notArena
      cases notArena
    rw [closes.blocks, held, Option.bind_some, afterClosing, if_neg out, headerAfter]
    rfl
  | checkpointRewind target =>
    rw [headerAfter]
    rcases law.checkpointRewind_cases taken with ⟨closed, rfl⟩ | ⟨checkpoint, opened, rewinds⟩
    · rw [if_pos closed, held]
    · rw [rewinds.blocks held notArena, if_neg (by simp [opened])]
  | bypassCheckpoint bypass =>
    cases taken
    exact held
  | write written contents =>
    obtain ⟨found, foundHeld, rfl⟩ := Option.map_eq_some_iff.mp taken
    rw [headerAfter]
    by_cases same : written = block
    · subst same
      obtain rfl := Option.some.inj (held.symm.trans foundHeld)
      rw [if_pos rfl]
      exact setHeader_block_self
    · rw [if_neg same, ← held]
      exact setHeader_block_of_ne same

/-- A block that names a checkpoint loses it to a promotion, to the commit of the checkpoint,
or to a rewind under protection. -/
structure HeaderChange (event : MemoryEvent) (block : Nat) (header left : MemoryHeader) :
    Prop where
  size : left.size = header.size
  markedFree : left.markedFree = header.markedFree
  madeUnder : left.madeUnder = header.madeUnder
  listed : header.checkpoint ≠ none → left.checkpoint = header.checkpoint ∨
    left.checkpoint = none ∧ (left.hazardProtected = true ∨ event = .promote block ∨
      ∃ owner, header.checkpoint = some owner ∧ event = .checkpointCommit owner)
  unlisted : header.checkpoint = none → left.checkpoint = none ∧
    (header.hazardProtected = true → left.hazardProtected = true)

theorem HeaderChange.refl (event : MemoryEvent) (block : Nat) (header : MemoryHeader) :
    HeaderChange event block header header :=
  ⟨rfl, rfl, rfl, fun _ => Or.inl rfl, fun names => ⟨names, fun protects => protects⟩⟩

theorem afterRewind_change (rewound : afterRewind number header = some left) :
    HeaderChange event block header left := by
  rw [afterRewind] at rewound
  cases names : header.checkpoint with
  | none =>
    rw [names] at rewound
    cases rewound
    exact HeaderChange.refl event block header
  | some owner =>
    rw [names] at rewound
    dsimp only at rewound
    split_ifs at rewound with older unprotected isTarget
    · cases rewound
      exact HeaderChange.refl event block header
    · cases rewound
      exact HeaderChange.refl event block header
    · cases rewound
      have protects : header.hazardProtected = true := by simpa using unprotected
      exact ⟨rfl, rfl, rfl, fun _ => Or.inr ⟨rfl, Or.inl protects⟩, fun _ => ⟨rfl, fun _ => protects⟩⟩

theorem headerAfter_change (changes : headerAfter state block header event = some left) :
    HeaderChange event block header left := by
  have unchanged : some header = some left → HeaderChange event block header left := by
    intro same
    cases same
    exact HeaderChange.refl event block header
  cases event with
  | checkpointCreate | alloc | bypassCheckpoint => exact unchanged changes
  | free freed =>
    rw [headerAfter] at changes
    split_ifs at changes
    exact unchanged changes
  | promote promoted =>
    rw [headerAfter] at changes
    split_ifs at changes with promotes
    · cases changes
      obtain rfl := promotes.1
      exact ⟨rfl, rfl, rfl, fun _ => Or.inr ⟨rfl, Or.inr (Or.inl rfl)⟩,
        fun _ => ⟨rfl, fun protects => protects⟩⟩
    · exact unchanged changes
  | markHazardProtected marked =>
    rw [headerAfter] at changes
    split_ifs at changes
    · cases changes
      exact ⟨rfl, rfl, rfl, fun _ => Or.inl rfl, fun names => ⟨names, fun _ => rfl⟩⟩
    · exact unchanged changes
  | clearHazardProtection cleared =>
    rw [headerAfter] at changes
    split_ifs at changes with clears names
    · cases changes
      exact ⟨rfl, rfl, rfl, fun _ => Or.inl rfl, fun absent => absurd absent names⟩
    · exact unchanged changes
  | checkpointCommit committed =>
    rw [headerAfter] at changes
    split_ifs at changes with names
    · cases changes
      exact ⟨rfl, rfl, rfl, fun _ => Or.inr ⟨rfl, Or.inr (Or.inr ⟨committed, names, rfl⟩)⟩,
        fun _ => ⟨rfl, fun protects => protects⟩⟩
    · exact unchanged changes
  | checkpointRewind target =>
    rw [headerAfter] at changes
    split_ifs at changes
    · exact unchanged changes
    · exact afterRewind_change changes
  | write written contents =>
    rw [headerAfter] at changes
    split_ifs at changes
    · cases changes
      exact ⟨rfl, rfl, rfl, fun _ => Or.inl rfl, fun names => ⟨names, fun protects => protects⟩⟩
    · exact unchanged changes

theorem MemoryLaw.block_origin (law : MemoryLaw state)
    (taken : memoryStep state event = some after) (found : after.blocks block = some left) :
    (∃ header, state.blocks block = some header ∧ left.allocator = header.allocator) ∨
      block = state.next ∧ ∃ size allocator tracking, 0 < size ∧
        left = newHeader size allocator tracking := by
  rcases law.step_cases taken with shrinks | ⟨hasArena, rfl⟩ |
    ⟨size, allocator, tracking, positive, -, rfl⟩
  · obtain ⟨header, held, -, same, -⟩ := shrinks.fromBlock found
    exact Or.inl ⟨header, held, same⟩
  · exact Or.inl ⟨left, found, rfl⟩
  · rw [place_blocks] at found
    by_cases new : block = state.next
    · subst new
      rw [Function.update_self] at found
      exact Or.inr ⟨rfl, size, allocator, tracking, positive, (Option.some.inj found).symm⟩
    · rw [Function.update_of_ne new] at found
      exact Or.inl ⟨left, found, rfl⟩

theorem MemoryLaw.closed_step (law : MemoryLaw state)
    (taken : memoryStep state event = some after) (old : number < state.next)
    (closed : state.checkpoints number = none) :
    number < after.next ∧ after.checkpoints number = none := by
  rcases law.step_cases taken with shrinks | ⟨hasArena, rfl⟩ |
    ⟨size, allocator, tracking, -, tracks, rfl⟩
  · refine ⟨shrinks.sameNext ▸ old, ?_⟩
    by_contra opens
    obtain ⟨left, found⟩ := Option.ne_none_iff_exists'.mp opens
    obtain ⟨checkpoint, before, -⟩ := shrinks.fromCheckpoint found
    rw [closed] at before
    cases before
  · rw [pushCheckpoint_of_ne (Nat.ne_of_lt old)]
    exact ⟨Nat.lt_succ_of_lt old, closed⟩
  · rw [place_next]
    refine ⟨Nat.lt_succ_of_lt old, ?_⟩
    by_contra opens
    obtain ⟨left, found⟩ := Option.ne_none_iff_exists'.mp opens
    obtain ⟨checkpoint, before, -⟩ := place_open tracks found
    rw [closed] at before
    cases before

/-- Why a block that was listed when it was made is on no list any more. -/
structure BlockHistory (events : List MemoryEvent) (state : MemoryState) (block : Nat)
    (header : MemoryHeader) : Prop where
  unmarked : header.markedFree = false
  positive : 0 < header.size
  kept : ∀ owner, header.madeUnder = some owner → header.checkpoint = some owner ∨
    header.hazardProtected = true ∨ .promote block ∈ events ∨ .checkpointCommit owner ∈ events
  promoted : header.size < 2 ^ 32 → .promote block ∈ events → header.checkpoint = none

structure MemoryHistory (events : List MemoryEvent) (state : MemoryState) : Prop where
  law : MemoryLaw state
  blocks : ∀ block header, state.blocks block = some header → header.allocator.isArena = false →
    BlockHistory events state block header
  promoted : ∀ block, .promote block ∈ events → block < state.next
  committed : ∀ owner, .checkpointCommit owner ∈ events →
    owner < state.next ∧ state.checkpoints owner = none

theorem memoryHistory_empty : MemoryHistory [] .empty :=
  ⟨memoryLaw_empty, nofun, nofun, nofun⟩

theorem MemoryHeader.valid_of_size (positive : 0 < header.size) (small : header.size < 2 ^ 32) :
    header.valid = true := by
  rw [MemoryHeader.valid, decide_eq_true ⟨positive, small⟩, Bool.or_true]

theorem mem_append_event {other : MemoryEvent} :
    other ∈ events ++ [event] ↔ other ∈ events ∨ other = event := by
  rw [List.mem_append, List.mem_singleton]

theorem BlockHistory.step (law : MemoryLaw state) (held : state.blocks block = some header)
    (past : BlockHistory events state block header)
    (changes : headerAfter state block header event = some left) :
    BlockHistory (events ++ [event]) after block left := by
  have change := headerAfter_change changes
  constructor
  · exact change.markedFree.trans past.unmarked
  · exact change.size ▸ past.positive
  · intro owner made
    simp only [mem_append_event]
    have madeBefore : header.madeUnder = some owner := change.madeUnder ▸ made
    cases names : header.checkpoint with
    | none =>
      obtain ⟨-, protects⟩ := change.unlisted names
      rcases past.kept owner madeBefore with named | protectedBefore | promoted | committed
      · rw [names] at named
        cases named
      · exact Or.inr (Or.inl (protects protectedBefore))
      · exact Or.inr (Or.inr (Or.inl (Or.inl promoted)))
      · exact Or.inr (Or.inr (Or.inr (Or.inl committed)))
    | some number =>
      obtain rfl : number = owner :=
        Option.some.inj ((law.tracking.tracked held names).2.2.symm.trans madeBefore)
      rcases change.listed (by simp [names]) with same | ⟨-, protects | promoted | committed⟩
      · exact Or.inl (same.trans names)
      · exact Or.inr (Or.inl protects)
      · exact Or.inr (Or.inr (Or.inl (Or.inr promoted.symm)))
      · obtain ⟨other, namesOther, isCommit⟩ := committed
        obtain rfl := Option.some.inj (names.symm.trans namesOther)
        exact Or.inr (Or.inr (Or.inr (Or.inr isCommit.symm)))
  · intro small promotes
    have smallBefore : header.size < 2 ^ 32 := change.size ▸ small
    rcases mem_append_event.mp promotes with before | rfl
    · exact (change.unlisted (past.promoted smallBefore before)).1
    · have valid := MemoryHeader.valid_of_size past.positive smallBefore
      rw [headerAfter, if_pos ⟨rfl, valid⟩] at changes
      cases changes
      rfl

theorem MemoryHistory.step (past : MemoryHistory events state)
    (taken : memoryStep state event = some after) : MemoryHistory (events ++ [event]) after := by
  have law := past.law
  have grows : state.next ≤ after.next := by
    rcases law.step_cases taken with shrinks | ⟨hasArena, rfl⟩ |
      ⟨size, allocator, tracking, -, -, rfl⟩
    · exact Nat.le_of_eq shrinks.sameNext.symm
    · exact Nat.le_succ _
    · rw [place_next]
      exact Nat.le_succ _
  constructor
  · exact law.step taken
  · intro block left found notArena
    rcases law.block_origin taken found with ⟨header, held, sameAllocator⟩ |
      ⟨rfl, size, allocator, tracking, positive, rfl⟩
    · have notArenaBefore : header.allocator.isArena = false := sameAllocator ▸ notArena
      have before := past.blocks block header held notArenaBefore
      have changes := law.header_step taken held notArenaBefore before.unmarked
      rw [found] at changes
      exact before.step law held changes.symm
    · refine ⟨rfl, positive, fun owner made => Or.inl made, fun _ promotes => ?_⟩
      rcases mem_append_event.mp promotes with before | rfl
      · exact absurd (past.promoted state.next before) (Nat.lt_irrefl _)
      · obtain ⟨header, held, -⟩ := memoryPromote_cases taken
        rw [law.numbering.block state.next (Nat.le_refl _)] at held
        cases held
  · intro block promotes
    rcases mem_append_event.mp promotes with before | rfl
    · exact Nat.lt_of_lt_of_le (past.promoted block before) grows
    · obtain ⟨header, held, -⟩ := memoryPromote_cases taken
      exact Nat.lt_of_lt_of_le (law.numbering.held_lt held) grows
  · intro owner commits
    rcases mem_append_event.mp commits with before | rfl
    · obtain ⟨old, closed⟩ := past.committed owner before
      exact law.closed_step taken old closed
    · obtain ⟨checkpoint, opened, closes, -⟩ := memoryCheckpointCommit_closes law.tracking taken
      exact ⟨Nat.lt_of_lt_of_le (law.numbering.open_lt opened) grows,
        by rw [closes.checkpoints, Function.update_self]⟩

theorem memoryHistory_reached (reached : runFrom memoryStep .empty events = some state) :
    MemoryHistory events state :=
  invariant_history (fun _ _ _ _ past taken => past.step taken) memoryHistory_empty reached

theorem MemoryHistory.released_iff {owner : Nat} (past : MemoryHistory events state)
    (opened : state.checkpoints number ≠ none)
    (taken : memoryStep state (.checkpointRewind number) = some after)
    (held : state.blocks block = some header) (notArena : header.allocator.isArena = false)
    (small : header.size < 2 ^ 32) (made : header.madeUnder = some owner) :
    after.blocks block = none ↔ number < block ∧ .promote block ∉ events ∧
      .checkpointCommit owner ∉ events ∧ header.hazardProtected = false := by
  have law := past.law
  have before := past.blocks block header held notArena
  rw [law.header_step taken held notArena before.unmarked, headerAfter, if_neg opened, afterRewind]
  cases names : header.checkpoint with
  | none =>
    simp only [reduceCtorEq, false_iff, not_and, Bool.not_eq_false]
    intro _ notPromoted notCommitted
    rcases before.kept owner made with named | protects | promoted | committed
    · rw [names] at named
      cases named
    · exact protects
    · exact absurd promoted notPromoted
    · exact absurd committed notCommitted
  | some listing =>
    obtain rfl : listing = owner :=
      Option.some.inj ((law.tracking.tracked held names).2.2.symm.trans made)
    have notPromoted : .promote block ∉ events := fun promotes => by
      have absent := before.promoted small promotes
      rw [names] at absent
      cases absent
    have notCommitted : .checkpointCommit listing ∉ events := fun commits => by
      obtain ⟨checkpoint, isOpen, -⟩ := law.tracking.named held names
      rw [(past.committed listing commits).2] at isOpen
      cases isOpen
    have owned : state.owner block = some listing := (owner_of_held held).trans names
    have newer : number < block ↔ ¬ listing < number := by
      constructor
      · intro below older
        obtain ⟨newest, isListing, atMost⟩ := law.nesting.made owned number opened below
        cases isListing
        omega
      · intro notOlder
        have lower := law.nesting.madeNumber owned
        omega
    simp only [newer, notPromoted, notCommitted, not_false_eq_true, true_and]
    split_ifs with older unprotected isTarget
    · simp [older]
    · simp [older, unprotected]
    · simp [unprotected]
    · simp [unprotected]

/-- The step is neither a `memory_free` of the block, nor a clearing of its protection, nor a
write into it. -/
def leavesBlock (block : Nat) : MemoryEvent → Bool
  | .free other | .clearHazardProtection other | .write other _ => decide (other ≠ block)
  | _ => true

theorem headerAfter_of_unlisted (leaves : leavesBlock block event = true)
    (names : header.checkpoint = none) :
    ∃ left, headerAfter state block header event = some left ∧ left.checkpoint = none ∧
      left.contents = header.contents ∧ left.allocator = header.allocator ∧
        left.markedFree = header.markedFree := by
  cases event with
  | checkpointCreate | alloc | bypassCheckpoint => exact ⟨header, rfl, names, rfl, rfl, rfl⟩
  | free other => exact ⟨header, if_neg (by simpa [leavesBlock] using leaves), names, rfl, rfl, rfl⟩
  | promote promoted =>
    rw [headerAfter]
    split_ifs
    · exact ⟨_, rfl, rfl, rfl, rfl, rfl⟩
    · exact ⟨header, rfl, names, rfl, rfl, rfl⟩
  | markHazardProtected marked =>
    rw [headerAfter]
    split_ifs
    · exact ⟨_, rfl, names, rfl, rfl, rfl⟩
    · exact ⟨header, rfl, names, rfl, rfl, rfl⟩
  | clearHazardProtection cleared =>
    have different : cleared ≠ block := by simpa [leavesBlock] using leaves
    exact ⟨header, if_neg fun both => different both.1, names, rfl, rfl, rfl⟩
  | checkpointCommit committed => exact ⟨header, if_neg (by simp [names]), names, rfl, rfl, rfl⟩
  | checkpointRewind target =>
    refine ⟨header, ?_, names, rfl, rfl, rfl⟩
    rw [headerAfter, afterRewind, names]
    exact ite_self _
  | write written contents =>
    exact ⟨header, if_neg (by simpa [leavesBlock] using leaves), names, rfl, rfl, rfl⟩

theorem MemoryLaw.outlives :
    ∀ {state last : MemoryState} {header : MemoryHeader}, MemoryLaw state →
      runFrom memoryStep state events = some last → state.blocks block = some header →
        header.allocator.isArena = false → header.markedFree = false →
          header.checkpoint = none → (∀ event ∈ events, leavesBlock block event = true) →
            ∃ left, last.blocks block = some left ∧ left.markedFree = false ∧
              left.contents = header.contents := by
  induction events with
  | nil =>
    intro state last header _ reached held _ unmarked _ _
    cases reached
    exact ⟨header, held, unmarked, rfl⟩
  | cons event events ih =>
    intro state last header law reached held notArena unmarked names leaves
    obtain ⟨next, taken, rest⟩ := Option.bind_eq_some_iff.mp reached
    obtain ⟨left, changes, namesLeft, contents, allocator, marked⟩ :=
      headerAfter_of_unlisted (leaves event List.mem_cons_self) names
    have heldNext : next.blocks block = some left :=
      (law.header_step taken held notArena unmarked).trans changes
    obtain ⟨final, heldLast, unmarkedLast, contentsLast⟩ :=
      ih (law.step taken) rest heldNext (allocator ▸ notArena)
        (marked.trans unmarked) namesLeft
        fun other member => leaves other (List.mem_cons_of_mem _ member)
    exact ⟨final, heldLast, unmarkedLast, contentsLast.trans contents⟩

def Outlasting (events : List MemoryEvent) (block : Nat) (header : MemoryHeader) : Prop :=
  .promote block ∈ events ∨
    ∃ owner, header.madeUnder = some owner ∧ .checkpointCommit owner ∈ events

theorem MemoryHistory.unlisted (past : MemoryHistory events state)
    (held : state.blocks block = some header) (notArena : header.allocator.isArena = false)
    (small : header.size < 2 ^ 32) (outlasting : Outlasting events block header) :
    header.checkpoint = none := by
  rcases outlasting with promotes | ⟨owner, made, commits⟩
  · exact (past.blocks block header held notArena).promoted small promotes
  · cases names : header.checkpoint with
    | none => rfl
    | some listing =>
      obtain rfl : listing = owner :=
        Option.some.inj ((past.law.tracking.tracked held names).2.2.symm.trans made)
      obtain ⟨checkpoint, isOpen, -⟩ := past.law.tracking.named held names
      rw [(past.committed listing commits).2] at isOpen
      cases isOpen

/-! ## Nested runs -/

def CommitsCurrent (state : MemoryState) : MemoryEvent → Prop
  | .checkpointCommit number => state.currentCheckpoint = some number
  | _ => True

instance (state : MemoryState) : (event : MemoryEvent) → Decidable (CommitsCurrent state event)
  | .checkpointCommit number => inferInstanceAs (Decidable (state.currentCheckpoint = some number))
  | .checkpointCreate .. | .alloc .. | .free _ | .promote _ | .markHazardProtected _
  | .clearHazardProtection _ | .checkpointRewind _ | .bypassCheckpoint _ | .write .. =>
    inferInstanceAs (Decidable True)

/-- The current checkpoint and every parent is open. -/
structure Unbroken (state : MemoryState) : Prop where
  current : ∀ number ∈ state.currentCheckpoint, state.checkpoints number ≠ none
  parent : ∀ number checkpoint, state.checkpoints number = some checkpoint →
    ∀ parent ∈ checkpoint.parent, state.checkpoints parent ≠ none

theorem Unbroken.of_open (unbroken : Unbroken state) (shrinks : Shrinks state after)
    (opens : ∀ number, state.checkpoints number ≠ none → after.checkpoints number ≠ none)
    (same : after.currentCheckpoint = state.currentCheckpoint) : Unbroken after where
  current := fun number isCurrent => opens number (unbroken.current number (same ▸ isCurrent))
  parent := by
    intro number left found parent isParent
    obtain ⟨checkpoint, before, sameParent, -⟩ := shrinks.fromCheckpoint found
    exact opens parent (unbroken.parent number checkpoint before parent (sameParent ▸ isParent))

theorem setCheckpoint_open {other : Nat} (checkpoint : MemoryCheckpoint)
    (opened : state.checkpoints other ≠ none) :
    (state.setCheckpoint number checkpoint).checkpoints other ≠ none := by
  rw [setCheckpoint]
  by_cases same : other = number
  · subst same
    simp
  · simpa [same] using opened

theorem Unbroken.commit (unbroken : Unbroken state) (law : MemoryLaw state)
    (taken : memoryStep state (.checkpointCommit number) = some after)
    (isCurrent : state.currentCheckpoint = some number) : Unbroken after := by
  obtain ⟨checkpoint, opened, closes, current⟩ := memoryCheckpointCommit_closes law.tracking taken
  have lower : ∀ {other found}, after.checkpoints other = some found →
      other < number ∧ state.checkpoints other = some found := by
    intro other found isOpen
    rw [closes.checkpoints] at isOpen
    by_cases same : other = number
    · subst same
      simp at isOpen
    · rw [Function.update_of_ne same] at isOpen
      obtain ⟨newest, isNewest, atMost⟩ :=
        law.nesting.current other (by simp [isOpen]) (law.numbering.open_lt isOpen)
      obtain rfl : number = newest := by simpa [isCurrent] using isNewest
      exact ⟨Nat.lt_of_le_of_ne atMost same, isOpen⟩
  have stays : ∀ {other}, other < number → state.checkpoints other ≠ none →
      after.checkpoints other ≠ none := by
    intro other below opens
    rwa [closes.checkpoints, Function.update_of_ne (Nat.ne_of_lt below)]
  constructor
  · intro parent isParent
    rw [current, if_pos isCurrent] at isParent
    exact stays (law.nesting.parentNumber opened parent isParent)
      (unbroken.parent number checkpoint opened parent isParent)
  · intro other found isOpen parent isParent
    obtain ⟨below, before⟩ := lower isOpen
    have parentBelow := law.nesting.parentNumber before parent isParent
    exact stays (Nat.lt_trans parentBelow below)
      (unbroken.parent other found before parent isParent)

theorem Unbroken.rewind (unbroken : Unbroken state) (law : MemoryLaw state)
    (taken : memoryStep state (.checkpointRewind number) = some after) : Unbroken after := by
  rcases law.checkpointRewind_cases taken with ⟨-, rfl⟩ | ⟨checkpoint, opened, rewinds⟩
  · exact unbroken
  · have stays : ∀ {other}, other ≤ number → state.checkpoints other ≠ none →
        after.checkpoints other ≠ none := by
      intro other atMost opens
      rcases Nat.lt_or_eq_of_le atMost with below | rfl
      · rwa [rewinds.older other below]
      · simp [rewinds.target]
    constructor
    · intro other isCurrent
      obtain rfl : number = other := by simpa [rewinds.current] using isCurrent
      exact stays (Nat.le_refl _) (by simp [opened])
    · intro other found isOpen parent isParent
      have atMost : other ≤ number := by
        by_contra newer
        rw [rewinds.newer other (Nat.lt_of_not_le newer)] at isOpen
        cases isOpen
      obtain ⟨before, isBefore, sameParent, -⟩ := rewinds.shrinks.fromCheckpoint isOpen
      rw [sameParent] at isParent
      have below := law.nesting.parentNumber isBefore parent isParent
      exact stays (Nat.le_trans (Nat.le_of_lt below) atMost)
        (unbroken.parent other before isBefore parent isParent)

theorem Unbroken.step (unbroken : Unbroken state) (law : MemoryLaw state)
    (nested : CommitsCurrent state event) (taken : memoryStep state event = some after) :
    Unbroken after := by
  cases event with
  | checkpointCreate allocated hasArena =>
    cases taken
    cases allocated with
    | false => exact unbroken
    | true =>
      have opens : ∀ other, other < state.next → state.checkpoints other ≠ none →
          (state.pushCheckpoint hasArena).checkpoints other ≠ none := by
        intro other old opens
        rwa [pushCheckpoint_of_ne (Nat.ne_of_lt old)]
      constructor
      · intro other isCurrent
        obtain rfl : state.next = other := Option.some.inj isCurrent
        exact (pushCheckpoint_self hasArena).trans_ne (by simp)
      · intro other found isOpen parent isParent
        by_cases new : other = state.next
        · subst new
          obtain rfl := Option.some.inj ((pushCheckpoint_self hasArena).symm.trans isOpen)
          exact opens parent (law.nesting.currentNumber parent isParent)
            (unbroken.current parent isParent)
        · have before := (pushCheckpoint_of_ne new hasArena).symm.trans isOpen
          have below := law.nesting.parentNumber before parent isParent
          exact opens parent (Nat.lt_trans below (law.numbering.open_lt before))
            (unbroken.parent other found before parent isParent)
  | alloc size answers =>
    rcases memoryAlloc_cases taken with rfl | ⟨allocator, tracking, plan, rfl⟩
    · exact unbroken
    · have opens : ∀ other, state.checkpoints other ≠ none →
          (state.place size allocator tracking).checkpoints other ≠ none := by
        intro other opens
        cases tracking with
        | none => exact opens
        | some holder => exact setCheckpoint_open _ opens
      constructor
      · intro other isCurrent
        rw [place_currentCheckpoint] at isCurrent
        exact opens other (unbroken.current other isCurrent)
      · intro other found isOpen parent isParent
        obtain ⟨before, isBefore, sameParent, -⟩ := place_open (tracks_allocPlan plan) isOpen
        exact opens parent (unbroken.parent other before isBefore parent (sameParent ▸ isParent))
  | free block =>
    have shrinks := memoryFree_shrinks law.tracking taken
    obtain ⟨header, held, -, ⟨-, rfl⟩ | ⟨-, names, rfl⟩ | ⟨number, checkpoint, names, opened, rfl⟩⟩ :=
      memoryFree_cases law.tracking taken
    · exact unbroken
    · rw [freeBlock] at shrinks ⊢
      split at shrinks
      · rw [if_pos ‹_›]
        exact unbroken.of_open shrinks (fun _ opens => opens) rfl
      · rw [if_neg ‹_›]
        exact unbroken.of_open shrinks (fun _ opens => opens) rfl
    · exact unbroken.of_open shrinks (fun _ opens => setCheckpoint_open _ opens) rfl
  | promote block =>
    have shrinks := memoryPromote_shrinks taken
    obtain ⟨header, held, ⟨-, rfl⟩ | ⟨number, checkpoint, -, names, opened, rfl⟩⟩ :=
      memoryPromote_cases taken
    · exact unbroken
    · exact unbroken.of_open shrinks (fun _ opens => setCheckpoint_open _ opens) rfl
  | markHazardProtected block =>
    have shrinks := memoryMarkHazardProtected_shrinks taken
    obtain ⟨header, held, ⟨-, rfl⟩ | ⟨-, -, rfl⟩⟩ := memoryMarkHazardProtected_cases taken
    · exact unbroken
    · exact unbroken.of_open shrinks (fun _ opens => opens) rfl
  | clearHazardProtection block =>
    have shrinks := memoryClearHazardProtection_shrinks law.tracking taken
    obtain ⟨header, held, ⟨-, rfl⟩ | ⟨-, -, ⟨-, rfl⟩ | ⟨number, -, rfl⟩⟩⟩ :=
      memoryClearHazardProtection_cases law.tracking taken
    · exact unbroken
    · exact unbroken.of_open shrinks (fun _ opens => opens) rfl
    · exact unbroken.of_open shrinks (fun _ opens => opens) rfl
  | checkpointCommit number => exact unbroken.commit law taken nested
  | checkpointRewind number => exact unbroken.rewind law taken
  | bypassCheckpoint bypass =>
    cases taken
    exact unbroken.of_open (bypass_shrinks state bypass) (fun _ opens => opens) rfl
  | write block contents =>
    have shrinks := writeContents_shrinks taken
    obtain ⟨header, held, rfl⟩ := Option.map_eq_some_iff.mp taken
    exact unbroken.of_open shrinks (fun _ opens => opens) rfl

theorem checkpointsAbove_isSome (law : MemoryLaw state) (unbroken : Unbroken state) :
    ∀ {fuel : Nat} {pointer : Option Nat},
      (∀ found ∈ pointer, found < fuel ∧ state.checkpoints found ≠ none) →
        (checkpointsAbove state number fuel pointer).isSome = true := by
  intro fuel
  induction fuel with
  | zero =>
    intro pointer inside
    cases pointer with
    | none => rfl
    | some found => exact absurd (inside found rfl).1 (Nat.not_lt_zero _)
  | succ fuel ih =>
    intro pointer inside
    cases pointer with
    | none => rfl
    | some found =>
      obtain ⟨below, opens⟩ := inside found rfl
      obtain ⟨checkpoint, opened⟩ := Option.ne_none_iff_exists'.mp opens
      rw [checkpointsAbove]
      split_ifs
      · rfl
      · rw [opened, Option.bind_some, Option.isSome_map]
        apply ih
        intro parent isParent
        have lower := law.nesting.parentNumber opened parent isParent
        exact ⟨by omega, unbroken.parent found checkpoint opened parent isParent⟩

theorem MemoryLaw.rewind_isSome (law : MemoryLaw state) (unbroken : Unbroken state)
    (opened : state.checkpoints number ≠ none) :
    ∃ after, memoryStep state (.checkpointRewind number) = some after := by
  have walks : (checkpointsAbove state number state.next state.currentCheckpoint).isSome = true :=
    checkpointsAbove_isSome law unbroken fun found isCurrent =>
      ⟨law.nesting.currentNumber found isCurrent, unbroken.current found isCurrent⟩
  obtain ⟨found, walked⟩ := Option.isSome_iff_exists.mp walks
  rw [memoryStep, memoryCheckpointRewind, walked]
  cases found with
  | none => exact ⟨state, rfl⟩
  | some nested =>
    obtain ⟨-, -, only, -, nodup⟩ :=
      checkpointsAbove_some law.nesting law.nesting.current walked
    obtain ⟨middle, runs, middleLaw, closes⟩ :=
      foldlM_rewindNested nested law nodup fun other member => (only other member).1
    have notNested : number ∉ nested := fun member =>
      Nat.lt_irrefl number (only number member).2
    obtain ⟨checkpoint, isOpen⟩ := Option.ne_none_iff_exists'.mp opened
    have openStill : middle.checkpoints number = some checkpoint := by
      rw [closes.checkpoints, if_neg notNested, isOpen]
    have tracking : Tracking { middle with currentCheckpoint := some number } :=
      ⟨middleLaw.tracking.owns, middleLaw.tracking.uncommitted, middleLaw.tracking.tracked⟩
    obtain ⟨last, runsOn, -⟩ := rewindTarget_empties tracking openStill
    refine ⟨last, ?_⟩
    dsimp only
    rw [runs, Option.bind_some]
    exact runsOn

theorem unbroken_of_everyStep (nested : EveryStep memoryStep CommitsCurrent .empty events)
    (reached : runFrom memoryStep .empty events = some state) : Unbroken state := by
  have start : MemoryLaw .empty ∧ Unbroken .empty := ⟨memoryLaw_empty, nofun, nofun⟩
  have keeps : Keeps memoryStep CommitsCurrent fun state => MemoryLaw state ∧ Unbroken state :=
    fun _ _ _ holds nested taken => ⟨holds.1.step taken, holds.2.step holds.1 nested taken⟩
  exact (invariant_runFrom keeps start nested reached).2

/-- A rewind releases exactly the tracked blocks made since its target that were neither
freed, promoted, committed nor protected.  What was promoted or committed lives on with its
contents.  Where only the current checkpoint is ever committed, each open checkpoint can be
rewound to. -/
theorem rewind_releases_and_outlasting_live {events : List MemoryEvent}
    (reached : runFrom memoryStep .empty events = some state) :
    (∀ number after, state.checkpoints number ≠ none →
      memoryStep state (.checkpointRewind number) = some after →
        ∀ block header owner, state.blocks block = some header →
          header.allocator.isArena = false → header.size < 2 ^ 32 →
            header.madeUnder = some owner →
              (after.blocks block = none ↔ number < block ∧ .promote block ∉ events ∧
                .checkpointCommit owner ∉ events ∧ header.hazardProtected = false)) ∧
      (∀ block header, state.blocks block = some header → header.allocator.isArena = false →
        header.size < 2 ^ 32 → Outlasting events block header →
          ∀ later last, runFrom memoryStep state later = some last →
            (∀ event ∈ later, leavesBlock block event = true) →
              ∃ left, last.blocks block = some left ∧ left.markedFree = false ∧
                left.contents = header.contents) ∧
        (EveryStep memoryStep CommitsCurrent .empty events →
          ∀ number, state.checkpoints number ≠ none →
            ∃ after, memoryStep state (.checkpointRewind number) = some after) := by
  have past := memoryHistory_reached reached
  refine ⟨?_, ?_, ?_⟩
  · intro number after opened taken block header owner held notArena small made
    exact past.released_iff opened taken held notArena small made
  · intro block header held notArena small outlasting later last reachedLast leaves
    have unmarked := (past.blocks block header held notArena).unmarked
    have names := past.unlisted held notArena small outlasting
    exact past.law.outlives reachedLast held notArena unmarked names leaves
  · intro nested number opened
    exact past.law.rewind_isSome (unbroken_of_everyStep nested reached) opened

def systemAnswers (ssl : Bool) : AllocAnswers :=
  ⟨ssl, false, false, false, false, false, true⟩

def nestedRun : List MemoryEvent :=
  [.checkpointCreate true false, .checkpointCreate true false, .alloc 24 (systemAnswers false),
    .alloc 32 (systemAnswers false), .promote 2]

/-- A rewind of the outer checkpoint releases the second block, and the first lives on. -/
theorem rewind_releases_nestedRun :
    ∃ after, runFrom memoryStep .empty (nestedRun ++ [.checkpointRewind 0]) = some after ∧
      after.blocks 3 = none ∧ after.blocks 2 ≠ none := by
  have nested : EveryStep memoryStep CommitsCurrent .empty nestedRun := by decide +kernel
  have opens : ((runFrom memoryStep .empty nestedRun).bind (·.checkpoints 0)).isSome = true := by
    decide +kernel
  have kept : ((runFrom memoryStep .empty nestedRun).bind (·.blocks 2)).map
      (fun header => (header.allocator.isArena, header.size)) = some (false, 24) := by
    decide +kernel
  have freed : ((runFrom memoryStep .empty nestedRun).bind (·.blocks 3)).map
      (fun header => (header.allocator.isArena, header.size, header.madeUnder,
        header.hazardProtected)) = some (false, 32, some 1, false) := by
    decide +kernel
  obtain ⟨checkpoint, found⟩ := Option.isSome_iff_exists.mp opens
  obtain ⟨state, reached, isOpen⟩ := Option.bind_eq_some_iff.mp found
  rw [reached, Option.bind_some] at kept freed
  obtain ⟨first, heldFirst, factsFirst⟩ := Option.map_eq_some_iff.mp kept
  obtain ⟨second, heldSecond, factsSecond⟩ := Option.map_eq_some_iff.mp freed
  simp only [Prod.mk.injEq] at factsFirst factsSecond
  obtain ⟨firstOutside, firstSize⟩ := factsFirst
  obtain ⟨secondOutside, secondSize, made, unprotected⟩ := factsSecond
  have opened : state.checkpoints 0 ≠ none := by simp [isOpen]
  obtain ⟨releases, outlasting, goesOn⟩ := rewind_releases_and_outlasting_live reached
  obtain ⟨after, taken⟩ := goesOn nested 0 opened
  have last : runFrom memoryStep state [.checkpointRewind 0] = some after := by
    rw [runFrom, taken]
    rfl
  refine ⟨after, by rw [runFrom_append, reached, Option.bind_some, last], ?_, ?_⟩
  · apply (releases 0 after opened taken 3 second 1 heldSecond secondOutside
      (by rw [secondSize]; decide) made).mpr
    exact ⟨by decide, by decide, by decide, unprotected⟩
  · obtain ⟨left, stays, -⟩ := outlasting 2 first heldFirst firstOutside
      (by rw [firstSize]; decide) (Or.inl (by decide)) _ after last (by decide)
    simp [stays]

def ReleasesExactly (events : List MemoryEvent) (number : Nat) : Prop :=
  ∀ state after, runFrom memoryStep .empty events = some state →
    memoryStep state (.checkpointRewind number) = some after →
      ∀ block header, state.blocks block = some header →
        (after.blocks block = none ↔ number < block ∧ .promote block ∉ events ∧
          header.hazardProtected = false)

def OutlivesPromotion (events later : List MemoryEvent) (block : Nat) : Prop :=
  .promote block ∈ events → ∀ last, runFrom memoryStep .empty (events ++ later) = some last →
    last.blocks block ≠ none

def innerCommitRun : List MemoryEvent :=
  [.checkpointCreate true false, .checkpointCreate true false, .alloc 24 (systemAnswers false),
    .checkpointCommit 1]

def sslRun : List MemoryEvent :=
  [.checkpointCreate true false, .alloc 24 (systemAnswers true)]

def arenaRun : List MemoryEvent :=
  [.checkpointCreate true true, .alloc 24 ⟨false, false, true, true, false, false, true⟩,
    .promote 1]

def largeRun : List MemoryEvent :=
  [.checkpointCreate true false, .alloc (2 ^ 32) (systemAnswers false), .promote 1]

theorem not_releasesExactly_of_kept {number block : Nat}
    (facts : (runFrom memoryStep .empty events).bind (fun state =>
      (memoryStep state (.checkpointRewind number)).map fun after =>
        ((state.blocks block).map (·.hazardProtected), (after.blocks block).isSome)) =
          some (some false, true)) (newer : number < block)
    (notPromoted : .promote block ∉ events) :
    ¬ ReleasesExactly events number := by
  intro exact
  obtain ⟨state, reached, found⟩ := Option.bind_eq_some_iff.mp facts
  obtain ⟨after, taken, same⟩ := Option.map_eq_some_iff.mp found
  obtain ⟨before, stays⟩ := Prod.mk.inj same
  obtain ⟨header, held, unprotected⟩ := Option.map_eq_some_iff.mp before
  have gone := (exact state after reached taken block header held).mpr
    ⟨newer, notPromoted, unprotected⟩
  rw [gone] at stays
  cases stays

theorem not_outlivesPromotion_of_gone {events later : List MemoryEvent} {block : Nat}
    (promoted : .promote block ∈ events)
    (facts : (runFrom memoryStep .empty (events ++ later)).map
      (fun last => (last.blocks block).isSome) = some false) :
    ¬ OutlivesPromotion events later block := by
  intro outlives
  obtain ⟨last, reached, gone⟩ := Option.map_eq_some_iff.mp facts
  have stays := outlives promoted last reached
  rw [← Option.isSome_iff_ne_none, gone] at stays
  cases stays

theorem not_releasesExactly_not_outlivesPromotion :
    ¬ ReleasesExactly innerCommitRun 0 ∧ ¬ ReleasesExactly sslRun 0 ∧
      ¬ OutlivesPromotion arenaRun [.checkpointCommit 0] 1 ∧
        ¬ OutlivesPromotion largeRun [.checkpointRewind 0] 1 := by
  have two : 0 < 2 := by decide
  have one : 0 < 1 := by decide
  refine ⟨not_releasesExactly_of_kept ?_ two (by decide),
    not_releasesExactly_of_kept ?_ one (by decide),
    not_outlivesPromotion_of_gone (by decide) ?_, not_outlivesPromotion_of_gone (by decide) ?_⟩
  · decide +kernel
  · decide +kernel
  · decide +kernel
  · decide +kernel

end Jdbx
