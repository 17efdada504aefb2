import Jdbx.Storage.WalRing

/-!
# Recovery that is interrupted or repeated

Recovery reads the WAL pages and writes data pages, so what it reads stays what
it was.  `replayPages` is the list of the writes that recovery makes of an image,
`crashPages` is recovery that ends before a write.
-/

namespace Jdbx

open Library

/-- Where the loop of `jdbx_wal_recover` finds an entry of a page. -/
def entryOffset (memory : Memory) (page : Nat) : Nat → Nat
  | 0 => walPageSize
  | index + 1 =>
    let offset := entryOffset memory page index
    offset + walEntrySize + readNat memory (pageAddress page + offset + 24) 4

/-- The entry lies inside its WAL page, and its data in a data page. -/
structure SoundEntry (manager : PageManager) (page index : Nat) : Prop where
  inside : entryOffset manager.memory page (index + 1) ≤ pageSize
  target : DataPage manager.header
    (readNat manager.memory (pageAddress page + entryOffset manager.memory page index + 16) 8)

/-- A file whose WAL entries target data pages. -/
structure WalImage (manager : PageManager) : Prop where
  checkpointInRing : InRing manager.header manager.header.walCheckpointPage
  currentInRing : InRing manager.header manager.header.walCurrentPage
  entries : ∀ page, InRing manager.header page →
    walPageType manager.memory page = pageTypeWal →
      ∀ index < entryCount manager.memory page, SoundEntry manager page index

def CurrentStamped (manager : PageManager) : Prop :=
  ∀ index < entryCount manager.memory manager.header.walCurrentPage,
    readNat manager.memory
        (pageAddress manager.header.walCurrentPage +
          entryOffset manager.memory manager.header.walCurrentPage index + 8) 8 ≤
      manager.header.transactionId.toNat

/-- `recoverEntries` that may apply `left` entries more: `none` where it is
stopped, and else what is left. -/
def crashEntries (header : Header) (page : Nat) :
    Nat → Nat → Nat → Nat → Memory → Option (Option Recovery × Nat) × Memory
  | 0, _, _, left, memory => (some (none, left), memory)
  | rounds + 1, i, offset, left, memory =>
    if i < entryCount memory page then
      let entry := pageAddress page + offset
      let size := readNat memory (entry + 24) 4
      if header.lastCheckpoint.toNat < readNat memory (entry + 8) 8 then
        let data := readBytes memory (entry + walEntrySize) size
        let target := readNat memory (entry + 16) 8
        if (crc32 data).toNat ≠ readNat memory (entry + 28) 4 then
          (some (some (.returned (-1)), left), memory)
        else if target < header.totalPages then
          match left with
          | 0 => (none, memory)
          | left + 1 =>
            crashEntries header page rounds (i + 1) (offset + walEntrySize + size) left
              (writeBytes memory (pageAddress target) data)
        else (some (some .assertionFailed, left), memory)
      else
        crashEntries header page rounds (i + 1) (offset + walEntrySize + size) left memory
    else (some (none, left), memory)

/-- The memory that `recoverPages` leaves when it may apply `left` entries. -/
def crashPages (header : Header) : Nat → Nat → Nat → Memory → Memory
  | 0, _, _, memory => memory
  | rounds + 1, page, left, memory =>
    if header.totalPages ≤ page then memory
    else if walPageType memory page ≠ pageTypeWal then memory
    else
      match crashEntries header page (2 ^ 32) 0 walPageSize left memory with
      | (some (none, left), memory) =>
        if page = header.walCurrentPage then memory
        else crashPages header rounds (nextWalPage header page) left memory
      | (_, memory) => memory

/-- The file that `jdbx_wal_recover` leaves when it is stopped before it applies
more than `applied` entries, or has not yet written the header. -/
def crashedRecovery (manager : PageManager) (applied : Nat) : PageManager :=
  { manager with
    memory :=
      crashPages manager.header walPages manager.header.walCheckpointPage applied manager.memory }

def SameDataPages (manager other : PageManager) : Prop :=
  ∀ page, DataPage manager.header page →
    pageContents manager.memory page = pageContents other.memory page

/-! ## The writes of a recovery -/

section Replay

variable (header : Header) (memory : Memory)

/-- The writes of the loop over a page, read from an image that stays. -/
def replayEntries (page : Nat) : Nat → Nat → Nat → Option Recovery × List (Nat × Bytes)
  | 0, _, _ => (none, [])
  | rounds + 1, i, offset =>
    if i < entryCount memory page then
      let entry := pageAddress page + offset
      let size := readNat memory (entry + 24) 4
      let rest := replayEntries page rounds (i + 1) (offset + walEntrySize + size)
      if header.lastCheckpoint.toNat < readNat memory (entry + 8) 8 then
        let data := readBytes memory (entry + walEntrySize) size
        let target := readNat memory (entry + 16) 8
        if (crc32 data).toNat ≠ readNat memory (entry + 28) 4 then
          (some (.returned (-1)), [])
        else if target < header.totalPages then (rest.1, (target, data) :: rest.2)
        else (some .assertionFailed, [])
      else rest
    else (none, [])

def replayPages : Nat → Nat → Option Recovery × List (Nat × Bytes)
  | 0, _ => (some .diverged, [])
  | rounds + 1, page =>
    if header.totalPages ≤ page then (some .assertionFailed, [])
    else if walPageType memory page ≠ pageTypeWal then (none, [])
    else
      let first := replayEntries header memory page (2 ^ 32) 0 walPageSize
      if first.1 = none ∧ page ≠ header.walCurrentPage then
        let rest := replayPages rounds (nextWalPage header page)
        (rest.1, first.2 ++ rest.2)
      else first

end Replay

section Recovered

variable {manager : PageManager} {other : Memory} {page index : Nat}

def AgreeOnRing (manager : PageManager) (other : Memory) : Prop :=
  ∀ page, InRing manager.header page → AgreeOn manager.memory other page

def DataWrite (header : Header) (write : Nat × Bytes) : Prop :=
  DataPage header write.1 ∧ write.2.length ≤ pageSize

theorem AgreeOnRing.write (agree : AgreeOnRing manager other) {target : Nat} {data : Bytes}
    (dataWrite : DataWrite manager.header (target, data)) :
    AgreeOnRing manager (writeBytes other (pageAddress target) data) := by
  intro tested inRing
  have inside : data.length ≤ pageSize := dataWrite.2
  have different : tested ≠ target := by
    rintro rfl
    exact dataWrite.1.2.2.1 inRing
  apply (agree tested inRing).trans
  exact (agreeOn_writeBytes different (le_refl _) (by omega)).symm

/-- What the loop reads of an entry that lies inside its page. -/
structure SameEntry (memory other : Memory) (entry : Nat) : Prop where
  transactionId : readNat other (entry + 8) 8 = readNat memory (entry + 8) 8
  pageId : readNat other (entry + 16) 8 = readNat memory (entry + 16) 8
  size : readNat other (entry + 24) 4 = readNat memory (entry + 24) 4
  checksum : readNat other (entry + 28) 4 = readNat memory (entry + 28) 4
  data : readBytes other (entry + walEntrySize) (readNat memory (entry + 24) 4) =
    readBytes memory (entry + walEntrySize) (readNat memory (entry + 24) 4)

theorem SoundEntry.same (sound : SoundEntry manager page index)
    (agree : AgreeOn manager.memory other page) :
    SameEntry manager.memory other
      (pageAddress page + entryOffset manager.memory page index) := by
  have inside := sound.inside
  simp only [entryOffset, walEntrySize] at inside
  have field (offset width : Nat) (small : offset + width ≤ 32) :
      readNat other (pageAddress page + entryOffset manager.memory page index + offset) width =
        readNat manager.memory
          (pageAddress page + entryOffset manager.memory page index + offset) width := by
    apply agree.symm.readNat <;> omega
  refine ⟨field 8 8 (by decide), field 16 8 (by decide), field 24 4 (by decide),
    field 28 4 (by decide), ?_⟩
  apply readBytes_congr
  intro tested above below
  simp only [walEntrySize] at above below
  apply agree.symm <;> omega

theorem entryCount_eq (inRing : InRing manager.header page) (agree : AgreeOnRing manager other) :
    entryCount other page = entryCount manager.memory page := by
  apply (agree page inRing).symm.readNat
  · exact Nat.le_add_right _ _
  · simp only [pageSize]
    omega

theorem SoundEntry.dataWrite (sound : SoundEntry manager page index) :
    DataWrite manager.header
      (readNat manager.memory (pageAddress page + entryOffset manager.memory page index + 16) 8,
        readBytes manager.memory
          (pageAddress page + entryOffset manager.memory page index + walEntrySize)
          (readNat manager.memory (pageAddress page + entryOffset manager.memory page index + 24)
            4)) := by
  refine ⟨sound.target, ?_⟩
  have inside := sound.inside
  simp only [entryOffset] at inside
  rw [length_readBytes]
  omega

/-- The first writes of a recovery: `none` where there are more than `left`. -/
def stopAfter (left : Nat) (replayed : Option Recovery × List (Nat × Bytes)) (memory : Memory) :
    Option (Option Recovery × Nat) × Memory :=
  (if replayed.2.length ≤ left then some (replayed.1, left - replayed.2.length) else none,
    applyWrites (replayed.2.take left) memory)

theorem stopAfter_nil (left : Nat) (outcome : Option Recovery) (memory : Memory) :
    stopAfter left (outcome, []) memory = (some (outcome, left), memory) := by
  simp [stopAfter]

theorem stopAfter_zero (outcome : Option Recovery) (write : Nat × Bytes)
    (writes : List (Nat × Bytes)) (memory : Memory) :
    stopAfter 0 (outcome, write :: writes) memory = (none, memory) := by
  simp [stopAfter]

theorem stopAfter_succ (left : Nat) (outcome : Option Recovery) (write : Nat × Bytes)
    (writes : List (Nat × Bytes)) (memory : Memory) :
    stopAfter (left + 1) (outcome, write :: writes) memory =
      stopAfter left (outcome, writes) (writeBytes memory (pageAddress write.1) write.2) := by
  simp [stopAfter]

theorem crashEntries_eq (inRing : InRing manager.header page)
    (sound : ∀ index < entryCount manager.memory page, SoundEntry manager page index)
    (rounds left : Nat) (agree : AgreeOnRing manager other) :
    crashEntries manager.header page rounds index (entryOffset manager.memory page index) left
        other =
      stopAfter left
        (replayEntries manager.header manager.memory page rounds index
          (entryOffset manager.memory page index)) other := by
  induction rounds generalizing index left other with
  | zero => rw [crashEntries, replayEntries, stopAfter_nil]
  | succ rounds ih =>
    rw [crashEntries, replayEntries, entryCount_eq inRing agree]
    by_cases more : index < entryCount manager.memory page
    · have same := (sound index more).same (agree page inRing)
      have next : entryOffset manager.memory page index + walEntrySize +
          readNat manager.memory
            (pageAddress page + entryOffset manager.memory page index + 24) 4 =
          entryOffset manager.memory page (index + 1) := rfl
      simp only [if_pos more, same.transactionId, same.pageId, same.size, same.checksum,
        same.data, next]
      by_cases above : manager.header.lastCheckpoint.toNat < readNat manager.memory
          (pageAddress page + entryOffset manager.memory page index + 8) 8
      · rw [if_pos above, if_pos above]
        split_ifs with mismatch inFile
        · rw [stopAfter_nil]
        · cases left with
          | zero => rw [stopAfter_zero]
          | succ left =>
            rw [stopAfter_succ]
            exact ih left (agree.write (sound index more).dataWrite)
        · rw [stopAfter_nil]
      · rw [if_neg above, if_neg above]
        exact ih left agree
    · rw [if_neg more, if_neg more, stopAfter_nil]

def applyReplay (replayed : Option Recovery × List (Nat × Bytes)) (memory : Memory) :
    Option Recovery × Memory :=
  (replayed.1, applyWrites replayed.2 memory)

theorem applyReplay_nil (outcome : Option Recovery) (memory : Memory) :
    applyReplay (outcome, []) memory = (outcome, memory) :=
  rfl

theorem applyReplay_cons (outcome : Option Recovery) (write : Nat × Bytes)
    (writes : List (Nat × Bytes)) (memory : Memory) :
    applyReplay (outcome, write :: writes) memory =
      applyReplay (outcome, writes) (writeBytes memory (pageAddress write.1) write.2) :=
  rfl

theorem recoverEntries_replay (inRing : InRing manager.header page)
    (sound : ∀ index < entryCount manager.memory page, SoundEntry manager page index)
    (rounds : Nat) (agree : AgreeOnRing manager other) :
    recoverEntries manager.header page rounds index (entryOffset manager.memory page index) other =
      applyReplay
        (replayEntries manager.header manager.memory page rounds index
          (entryOffset manager.memory page index)) other := by
  induction rounds generalizing index other with
  | zero => rw [recoverEntries, replayEntries, applyReplay_nil]
  | succ rounds ih =>
    rw [recoverEntries, replayEntries, entryCount_eq inRing agree]
    by_cases more : index < entryCount manager.memory page
    · have same := (sound index more).same (agree page inRing)
      have next : entryOffset manager.memory page index + walEntrySize +
          readNat manager.memory
            (pageAddress page + entryOffset manager.memory page index + 24) 4 =
          entryOffset manager.memory page (index + 1) := rfl
      simp only [if_pos more, same.transactionId, same.pageId, same.size, same.checksum,
        same.data, next]
      by_cases above : manager.header.lastCheckpoint.toNat < readNat manager.memory
          (pageAddress page + entryOffset manager.memory page index + 8) 8
      · rw [if_pos above, if_pos above]
        split_ifs with mismatch inFile
        · rw [applyReplay_nil]
        · rw [applyReplay_cons]
          exact ih (agree.write (sound index more).dataWrite)
        · rw [applyReplay_nil]
      · rw [if_neg above, if_neg above]
        exact ih agree
    · rw [if_neg more, if_neg more, applyReplay_nil]

theorem replayEntries_dataWrite
    (sound : ∀ index < entryCount manager.memory page, SoundEntry manager page index)
    (rounds : Nat) :
    ∀ write ∈ (replayEntries manager.header manager.memory page rounds index
      (entryOffset manager.memory page index)).2, DataWrite manager.header write := by
  induction rounds generalizing index with
  | zero =>
    intro write member
    cases member
  | succ rounds ih =>
    intro write member
    rw [replayEntries] at member
    by_cases more : index < entryCount manager.memory page
    · have rest : ∀ write ∈ (replayEntries manager.header manager.memory page rounds (index + 1)
          (entryOffset manager.memory page (index + 1))).2, DataWrite manager.header write :=
        ih
      rw [if_pos more] at member
      dsimp only at member
      split_ifs at member with above mismatch inFile
      · cases member
      · rcases List.mem_cons.mp member with rfl | later
        · exact (sound index more).dataWrite
        · exact rest write later
      · cases member
      · exact rest write member
    · rw [if_neg more] at member
      cases member

theorem AgreeOnRing.writes {writes : List (Nat × Bytes)} (agree : AgreeOnRing manager other)
    (dataWrites : ∀ write ∈ writes, DataWrite manager.header write) :
    AgreeOnRing manager (applyWrites writes other) := by
  induction writes generalizing other with
  | nil => exact agree
  | cons write writes ih =>
    rw [applyWrites_cons]
    apply ih (agree.write (dataWrites write List.mem_cons_self))
    exact fun later member => dataWrites later (List.mem_cons_of_mem write member)

def SoundRing (manager : PageManager) : Prop :=
  ∀ page, InRing manager.header page → walPageType manager.memory page = pageTypeWal →
    ∀ index < entryCount manager.memory page, SoundEntry manager page index

theorem recoverPages_replay (sound : SoundRing manager) (rounds : Nat)
    (inRing : InRing manager.header page) (agree : AgreeOnRing manager other) :
    recoverPages manager.header rounds page other =
      applyReplay (replayPages manager.header manager.memory rounds page) other := by
  induction rounds generalizing page other with
  | zero => rfl
  | succ rounds ih =>
    rw [recoverPages, replayPages, ← (agree page inRing).walPageType_eq]
    by_cases inFile : manager.header.totalPages ≤ page
    · rw [if_pos inFile, if_pos inFile, applyReplay_nil]
    · rw [if_neg inFile, if_neg inFile]
      by_cases typed : walPageType manager.memory page ≠ pageTypeWal
      · rw [if_pos typed, if_pos typed, applyReplay_nil]
      · have isWal : walPageType manager.memory page = pageTypeWal := not_not.mp typed
        have entries : recoverEntries manager.header page (2 ^ 32) 0 walPageSize other = _ :=
          recoverEntries_replay inRing (sound page inRing isWal) (2 ^ 32) agree
        have dataWrites : ∀ write ∈ (replayEntries manager.header manager.memory page (2 ^ 32) 0
            walPageSize).2, DataWrite manager.header write :=
          replayEntries_dataWrite (sound page inRing isWal) (2 ^ 32)
        rw [if_neg typed, if_neg typed, entries]
        simp only [entryOffset]
        generalize replayEntries manager.header manager.memory page (2 ^ 32) 0 walPageSize =
          first at *
        obtain ⟨outcome, writes⟩ := first
        cases outcome with
        | some failure => simp [applyReplay]
        | none =>
          by_cases last : page = manager.header.walCurrentPage
          · simp [applyReplay, last]
          · have rest := ih (nextWalPage_inRing inRing)
              (agree.writes dataWrites)
            simp [applyReplay, last, rest, applyWrites_append]

theorem crashPages_eq (sound : SoundRing manager) (rounds left : Nat)
    (inRing : InRing manager.header page) (agree : AgreeOnRing manager other) :
    crashPages manager.header rounds page left other =
      applyWrites ((replayPages manager.header manager.memory rounds page).2.take left) other := by
  induction rounds generalizing page left other with
  | zero => simp [crashPages, replayPages]
  | succ rounds ih =>
    rw [crashPages, replayPages, ← (agree page inRing).walPageType_eq]
    by_cases inFile : manager.header.totalPages ≤ page
    · simp [inFile]
    · rw [if_neg inFile, if_neg inFile]
      by_cases typed : walPageType manager.memory page ≠ pageTypeWal
      · simp [typed]
      · have isWal : walPageType manager.memory page = pageTypeWal := not_not.mp typed
        have entries : crashEntries manager.header page (2 ^ 32) 0 walPageSize left other = _ :=
          crashEntries_eq inRing (sound page inRing isWal) (2 ^ 32) left agree
        have dataWrites : ∀ write ∈ (replayEntries manager.header manager.memory page (2 ^ 32) 0
            walPageSize).2, DataWrite manager.header write :=
          replayEntries_dataWrite (sound page inRing isWal) (2 ^ 32)
        rw [if_neg typed, if_neg typed, entries]
        simp only [entryOffset]
        generalize replayEntries manager.header manager.memory page (2 ^ 32) 0 walPageSize =
          first at *
        obtain ⟨outcome, writes⟩ := first
        by_cases enough : writes.length ≤ left
        · have all : writes.take left = writes := List.take_of_length_le enough
          cases outcome with
          | some failure => simp [stopAfter, enough, all]
          | none =>
            by_cases last : page = manager.header.walCurrentPage
            · simp [stopAfter, enough, all, last]
            · have rest := ih (left - writes.length)
                (nextWalPage_inRing inRing) (agree.writes dataWrites)
              simp [stopAfter, enough, all, last, rest, List.take_append, applyWrites_append]
        · have fewer : left - writes.length = 0 := by omega
          cases outcome with
          | some failure => simp [stopAfter, enough]
          | none =>
            by_cases last : page = manager.header.walCurrentPage
            · simp [stopAfter, enough, last]
            · simp [stopAfter, enough, last, List.take_append, fewer]

theorem replayPages_dataWrite (sound : SoundRing manager) (rounds : Nat)
    (inRing : InRing manager.header page) :
    ∀ write ∈ (replayPages manager.header manager.memory rounds page).2,
      DataWrite manager.header write := by
  induction rounds generalizing page with
  | zero =>
    intro write member
    cases member
  | succ rounds ih =>
    intro write member
    rw [replayPages] at member
    dsimp only at member
    split_ifs at member with inFile typed last
    · cases member
    · cases member
    · have isWal : walPageType manager.memory page = pageTypeWal := not_not.mp typed
      rcases List.mem_append.mp member with inFirst | later
      · exact replayEntries_dataWrite (sound page inRing isWal) (2 ^ 32) write inFirst
      · exact ih (nextWalPage_inRing inRing) write later
    · have isWal : walPageType manager.memory page = pageTypeWal := not_not.mp typed
      exact replayEntries_dataWrite (sound page inRing isWal) (2 ^ 32) write member

/-! ## Repeated recovery -/

theorem applyWrites_eq_writeBlocks (writes : List (Nat × Bytes)) (memory : Memory) :
    applyWrites writes memory =
      writeBlocks (writes.map fun write => (pageAddress write.1, write.2)) memory := by
  rw [applyWrites, writeBlocks, List.foldl_map]

theorem applyWrites_of_subset {done writes : List (Nat × Bytes)} (subset : done ⊆ writes)
    (memory : Memory) :
    applyWrites writes (applyWrites done memory) = applyWrites writes memory := by
  simp only [applyWrites_eq_writeBlocks]
  exact writeBlocks_of_subset (List.map_subset _ subset)

def recoveryWrites (manager : PageManager) : Option Recovery × List (Nat × Bytes) :=
  replayPages manager.header manager.memory walPages manager.header.walCheckpointPage

theorem walRecover_replay {started : PageManager} (image : WalImage manager)
    (header : started.header = manager.header) (agree : AgreeOnRing manager started.memory) :
    walRecover started =
      match (recoveryWrites manager).1 with
      | some failure =>
        (failure,
          { started with memory := applyWrites (recoveryWrites manager).2 started.memory })
      | none =>
        (.returned 0,
          updateCheckpoint
            { started with memory := applyWrites (recoveryWrites manager).2 started.memory }) := by
  have walked := recoverPages_replay image.entries walPages image.checkpointInRing agree
  rw [← recoveryWrites] at walked
  rw [walRecover, header, walked]
  generalize recoveryWrites manager = replayed
  obtain ⟨outcome, writes⟩ := replayed
  cases outcome <;> rfl

theorem walRecover_memory {started : PageManager} (image : WalImage manager)
    (header : started.header = manager.header) (agree : AgreeOnRing manager started.memory) :
    (walRecover started).2.memory = applyWrites (recoveryWrites manager).2 started.memory := by
  rw [walRecover_replay image header agree]
  generalize recoveryWrites manager = replayed
  obtain ⟨outcome, writes⟩ := replayed
  cases outcome <;> rfl

theorem agreeOnRing_self (manager : PageManager) : AgreeOnRing manager manager.memory :=
  fun page _ => AgreeOn.refl manager.memory page

theorem recoveryWrites_dataWrite (image : WalImage manager) :
    ∀ write ∈ (recoveryWrites manager).2, DataWrite manager.header write :=
  replayPages_dataWrite image.entries walPages image.checkpointInRing

theorem walRecover_crashed (image : WalImage manager) (applied : Nat) :
    (walRecover (crashedRecovery manager applied)).2.memory = (walRecover manager).2.memory := by
  have stopped := crashPages_eq image.entries walPages applied image.checkpointInRing
    (agreeOnRing_self manager)
  rw [← recoveryWrites] at stopped
  have first : ∀ write ∈ (recoveryWrites manager).2.take applied,
      DataWrite manager.header write :=
    fun write member => recoveryWrites_dataWrite image write (List.mem_of_mem_take member)
  have agree := (agreeOnRing_self manager).writes first
  have whole := walRecover_memory image rfl (agreeOnRing_self manager)
  have memory : (crashedRecovery manager applied).memory =
      applyWrites ((recoveryWrites manager).2.take applied) manager.memory := stopped
  have header : (crashedRecovery manager applied).header = manager.header := rfl
  rw [← memory] at agree
  rw [walRecover_memory image header agree, whole, memory]
  exact applyWrites_of_subset (List.take_subset applied _) manager.memory

theorem replayEntries_eq_nil
    (below : ∀ index < entryCount manager.memory page,
      readNat manager.memory
          (pageAddress page + entryOffset manager.memory page index + 8) 8 ≤
        manager.header.lastCheckpoint.toNat) (rounds : Nat) :
    replayEntries manager.header manager.memory page rounds index
      (entryOffset manager.memory page index) = (none, []) := by
  induction rounds generalizing index with
  | zero => rfl
  | succ rounds ih =>
    rw [replayEntries]
    by_cases more : index < entryCount manager.memory page
    · have notAbove := Nat.not_lt.mpr (below index more)
      simp only [if_pos more, if_neg notAbove]
      exact ih
    · rw [if_neg more]

theorem recoveryWrites_updateCheckpoint (stamped : CurrentStamped manager) :
    (recoveryWrites (updateCheckpoint manager)).2 = [] := by
  have start : recoveryWrites (updateCheckpoint manager) =
      replayPages (updateCheckpoint manager).header (updateCheckpoint manager).memory (255 + 1)
        manager.header.walCurrentPage := rfl
  rw [start, replayPages]
  split_ifs with inFile typed
  · rfl
  · rfl
  · have below : ∀ index < entryCount (updateCheckpoint manager).memory
        manager.header.walCurrentPage,
        readNat (updateCheckpoint manager).memory
            (pageAddress manager.header.walCurrentPage +
              entryOffset (updateCheckpoint manager).memory manager.header.walCurrentPage index + 8)
            8 ≤
          (updateCheckpoint manager).header.lastCheckpoint.toNat := stamped
    have nothing : replayEntries (updateCheckpoint manager).header (updateCheckpoint manager).memory
        manager.header.walCurrentPage (2 ^ 32) 0 walPageSize = (none, []) :=
      replayEntries_eq_nil below (2 ^ 32)
    have last : ¬ manager.header.walCurrentPage ≠
        (updateCheckpoint manager).header.walCurrentPage := not_not.mpr rfl
    simp only [nothing, true_and, if_neg last]

theorem walRecover_twice (image : WalImage manager) (stamped : CurrentStamped manager) :
    (walRecover (walRecover manager).2).2.memory = (walRecover manager).2.memory := by
  have agree := (agreeOnRing_self manager).writes (recoveryWrites_dataWrite image)
  have once := walRecover_memory image rfl (agreeOnRing_self manager)
  have ends := walRecover_replay image rfl (agreeOnRing_self manager)
  rw [← once] at agree
  cases outcome : (recoveryWrites manager).1 with
  | some failure =>
    have header : (walRecover manager).2.header = manager.header := by
      rw [ends, outcome]
    rw [walRecover_memory image header agree, once]
    exact applyWrites_of_subset (List.Subset.refl _) manager.memory
  | none =>
    have header : (walRecover manager).2.header = (updateCheckpoint manager).header := by
      rw [ends, outcome]
      rfl
    have markedImage : WalImage (updateCheckpoint manager) :=
      ⟨image.currentInRing, image.currentInRing, fun page inRing typed index more =>
        ⟨(image.entries page inRing typed index more).inside,
          (image.entries page inRing typed index more).target⟩⟩
    have markedAgree : AgreeOnRing (updateCheckpoint manager) (walRecover manager).2.memory :=
      agree
    rw [walRecover_memory markedImage header markedAgree,
      recoveryWrites_updateCheckpoint stamped, applyWrites_nil]

end Recovered

/-! ## Files that are images -/

section Files

variable {manager : PageManager} {memory : Memory} {page : Nat} {entries : List WalEntry}

theorem PageHolds.fields (pageHolds : PageHolds memory page entries) {index : Nat}
    (inPage : index < entries.length) (pageBound : entries[index].pageId < 2 ^ 64) :
    EntryFields memory
      (pageAddress page + (walPageSize + (encodeEntries (entries.take index)).length))
      entries[index] := by
  have holds := pageHolds.holds
  have split : entries = entries.take index ++ entries[index] :: entries.drop (index + 1) := by
    rw [← List.drop_eq_getElem_cons inPage, List.take_append_drop]
  rw [split, encodeEntries_append, encodeEntries_cons, holds_append, holds_append,
    Nat.add_assoc] at holds
  have small := pageHolds.data_length_le (List.getElem_mem inPage)
  simp only [pageSize] at small
  exact entryFields_of_holds holds.2.1 pageBound (by omega)

theorem encodeEntries_take_succ {index : Nat} (inPage : index < entries.length) :
    (encodeEntries (entries.take (index + 1))).length =
      (encodeEntries (entries.take index)).length + walEntrySize +
        entries[index].data.length := by
  rw [List.take_succ_eq_append_getElem inPage, encodeEntries_append, encodeEntries_cons,
    encodeEntries_nil, List.append_nil, List.length_append, length_encodeEntry, Nat.add_assoc]

theorem PageHolds.entryOffset_eq (pageHolds : PageHolds memory page entries)
    (pageBounds : ∀ entry ∈ entries, entry.pageId < 2 ^ 64) :
    ∀ {index : Nat}, index ≤ entries.length →
      entryOffset memory page index =
        walPageSize + (encodeEntries (entries.take index)).length
  | 0, _ => by
    simp [entryOffset]
  | index + 1, inPage => by
    have before := pageHolds.entryOffset_eq pageBounds (Nat.le_of_succ_le inPage)
    have fields := pageHolds.fields inPage (pageBounds _ (List.getElem_mem inPage))
    rw [entryOffset, before, fields.size, encodeEntries_take_succ inPage]
    omega

/-- Each page of the ring holds entries for data pages. -/
structure SoundFile (manager : PageManager) : Prop where
  layout : LaidOut manager.header
  checkpointInRing : InRing manager.header manager.header.walCheckpointPage
  currentInRing : InRing manager.header manager.header.walCurrentPage
  holds : ∀ page, InRing manager.header page → ∃ entries,
    PageHolds manager.memory page entries ∧
      ∀ entry ∈ entries, DataPage manager.header entry.pageId

theorem SoundFile.walImage (sound : SoundFile manager) : WalImage manager where
  checkpointInRing := sound.checkpointInRing
  currentInRing := sound.currentInRing
  entries page inRing _ index more := by
    obtain ⟨entries, pageHolds, targets⟩ := sound.holds page inRing
    rw [pageHolds.counted] at more
    have pageBounds : ∀ entry ∈ entries, entry.pageId < 2 ^ 64 := fun entry member =>
      Nat.lt_trans (targets entry member).2.2.2 sound.layout.total
    have fields := pageHolds.fields more (pageBounds _ (List.getElem_mem more))
    constructor
    · have next : index + 1 ≤ entries.length := more
      rw [pageHolds.entryOffset_eq pageBounds next]
      have whole : (encodeEntries entries).length =
          (encodeEntries (entries.take (index + 1))).length +
            (encodeEntries (entries.drop (index + 1))).length := by
        rw [← List.length_append, ← encodeEntries_append, List.take_append_drop]
      have fits := pageHolds.fits
      omega
    · rw [pageHolds.entryOffset_eq pageBounds (Nat.le_of_lt more), fields.pageId]
      exact targets _ (List.getElem_mem more)

theorem soundFile_initNewFile (initialSize : UInt64) : SoundFile (initNewFile initialSize) := by
  have start := walInvariant_initNewFile initialSize
  have firstInRing := start.ring.inRing _ List.mem_cons_self
  refine ⟨start.layout, firstInRing, firstInRing, ?_⟩
  exact fun page inRing => ⟨[], pageHolds_initNewFile inRing, by simp⟩

theorem SoundFile.raiseTransaction (sound : SoundFile manager) (id : UInt64) :
    SoundFile { manager with header := { manager.header with transactionId := id } } := by
  obtain ⟨layout, checkpointInRing, currentInRing, holds⟩ := sound
  exact ⟨⟨layout.1, layout.2, layout.3, layout.4⟩, checkpointInRing, currentInRing, holds⟩

theorem SoundFile.updateCheckpoint (sound : SoundFile manager) :
    SoundFile (updateCheckpoint manager) := by
  obtain ⟨layout, _, currentInRing, holds⟩ := sound
  exact ⟨⟨layout.1, layout.2, layout.3, layout.4⟩, currentInRing, currentInRing, holds⟩

theorem SoundFile.append (sound : SoundFile manager) {pageId : Nat} {pageData : Bytes}
    (target : DataPage manager.header pageId)
    (fits : usedBytes manager.memory manager.header.walCurrentPage + walEntrySize +
      pageData.length ≤ pageSize) : SoundFile (appendEntry manager pageId pageData) := by
  obtain ⟨layout, checkpointInRing, currentInRing, holds⟩ := sound
  refine ⟨⟨layout.1, layout.2, layout.3, layout.4⟩, checkpointInRing, currentInRing, ?_⟩
  intro page inRing
  by_cases same : page = manager.header.walCurrentPage
  · subst same
    obtain ⟨entries, before, targets⟩ := holds _ inRing
    refine ⟨_, pageHolds_appendEntry pageId before fits, ?_⟩
    intro entry member
    rcases List.mem_append.mp member with old | new
    · exact targets entry old
    · rw [List.mem_singleton.mp new]
      exact target
  · obtain ⟨entries, before, targets⟩ := holds page inRing
    exact ⟨entries, before.congr (agreeOn_appendEntry same fits).symm, targets⟩

theorem currentStamped_of_pageHolds (sound : SoundFile manager)
    (pageHolds : PageHolds manager.memory manager.header.walCurrentPage entries)
    (targets : ∀ entry ∈ entries, DataPage manager.header entry.pageId)
    (stamped : ∀ entry ∈ entries, entry.transactionId ≤ manager.header.transactionId) :
    CurrentStamped manager := by
  intro index more
  rw [pageHolds.counted] at more
  have pageBounds : ∀ entry ∈ entries, entry.pageId < 2 ^ 64 := fun entry member =>
    Nat.lt_trans (targets entry member).2.2.2 sound.layout.total
  have member := List.getElem_mem more
  rw [pageHolds.entryOffset_eq pageBounds (Nat.le_of_lt more),
    (pageHolds.fields more (pageBounds _ member)).transactionId]
  exact UInt64.le_iff_toNat_le.mp (stamped _ member)

end Files

/-- Recovery of an image whose entries target data pages may be stopped anywhere
and started again, and may be repeated where no entry of the current page is of
a transaction behind the counter of the header. -/
theorem walRecover_repeatable (manager : PageManager) (image : WalImage manager) :
    (∀ applied, SameDataPages (walRecover (crashedRecovery manager applied)).2
      (walRecover manager).2) ∧
      (CurrentStamped manager →
        SameDataPages (walRecover (walRecover manager).2).2 (walRecover manager).2) := by
  constructor
  · intro applied page _
    rw [walRecover_crashed image applied]
  · intro stamped page _
    rw [walRecover_twice image stamped]

/-! ## A counter that fell back -/

section FallingCounter

def withTransaction (manager : PageManager) (id : UInt64) : PageManager :=
  { manager with header := { manager.header with transactionId := id } }

def entryOfTen (manager : PageManager) : PageManager :=
  appendEntry (withTransaction manager 10) 300 [1]

def counterFellBack (manager : PageManager) : PageManager :=
  appendEntry (withTransaction (entryOfTen manager) 5) 300 [2]

def entriesOfTen (manager : PageManager) : List WalEntry :=
  [nextEntry (withTransaction manager 10).header 300 [1]]

def fallenEntries (manager : PageManager) : List WalEntry :=
  entriesOfTen manager ++ [nextEntry (withTransaction (entryOfTen manager) 5).header 300 [2]]

/-- A file with an empty log and a data page 300. -/
structure EmptyLog (manager : PageManager) : Prop where
  sound : SoundFile manager
  empty : PageHolds manager.memory manager.header.walCurrentPage []
  target : DataPage manager.header 300
  atCurrent : manager.header.walCheckpointPage = manager.header.walCurrentPage
  marked : manager.header.lastCheckpoint = 1

variable {manager : PageManager}

theorem EmptyLog.fitsTen (emptyLog : EmptyLog manager) :
    usedBytes manager.memory manager.header.walCurrentPage + walEntrySize +
      [(1 : UInt8)].length ≤ pageSize := by
  rw [emptyLog.empty.used]
  decide

theorem EmptyLog.holdsTen (emptyLog : EmptyLog manager) :
    PageHolds (entryOfTen manager).memory (entryOfTen manager).header.walCurrentPage
      (entriesOfTen manager) := by
  have empty : PageHolds (withTransaction manager 10).memory
      (withTransaction manager 10).header.walCurrentPage [] := emptyLog.empty
  exact pageHolds_appendEntry 300 empty emptyLog.fitsTen

theorem EmptyLog.soundTen (emptyLog : EmptyLog manager) : SoundFile (entryOfTen manager) :=
  (emptyLog.sound.raiseTransaction 10).append emptyLog.target emptyLog.fitsTen

theorem EmptyLog.fitsFallen (emptyLog : EmptyLog manager) :
    usedBytes (entryOfTen manager).memory (entryOfTen manager).header.walCurrentPage +
      walEntrySize + [(2 : UInt8)].length ≤ pageSize := by
  rw [emptyLog.holdsTen.used, entriesOfTen, encodeEntries_cons, encodeEntries_nil,
    List.append_nil, length_encodeEntry]
  exact Nat.le_of_ble_eq_true rfl

theorem EmptyLog.holdsFallen (emptyLog : EmptyLog manager) :
    PageHolds (counterFellBack manager).memory (counterFellBack manager).header.walCurrentPage
      (fallenEntries manager) := by
  have holdsTen : PageHolds (withTransaction (entryOfTen manager) 5).memory
      (withTransaction (entryOfTen manager) 5).header.walCurrentPage (entriesOfTen manager) :=
    emptyLog.holdsTen
  exact pageHolds_appendEntry 300 holdsTen emptyLog.fitsFallen

theorem EmptyLog.soundFallen (emptyLog : EmptyLog manager) :
    SoundFile (counterFellBack manager) :=
  (emptyLog.soundTen.raiseTransaction 5).append emptyLog.target emptyLog.fitsFallen

theorem EmptyLog.stampedTen (emptyLog : EmptyLog manager) :
    CurrentStamped (entryOfTen manager) := by
  apply currentStamped_of_pageHolds emptyLog.soundTen emptyLog.holdsTen
  · intro entry member
    rw [List.mem_singleton.mp member]
    exact emptyLog.target
  · intro entry member
    rw [List.mem_singleton.mp member]
    exact UInt64.le_refl _

theorem EmptyLog.ringFallen (emptyLog : EmptyLog manager) :
    RingHolds (counterFellBack manager).header (counterFellBack manager).memory
      [((counterFellBack manager).header.walCurrentPage, fallenEntries manager)] := by
  refine ⟨?_, ?_, ?_⟩
  · intro page member
    rw [List.mem_singleton.mp member]
    exact emptyLog.soundFallen.currentInRing
  · intro page entries member
    cases List.mem_singleton.mp member
    exact emptyLog.holdsFallen
  · intro entry member
    have inPage : entry ∈ fallenEntries manager := by simpa [logEntries] using member
    rcases List.mem_cons.mp inPage with rfl | last
    · exact emptyLog.target
    · rw [List.mem_singleton.mp last]
      exact emptyLog.target

theorem walRecover_onePage {entries : List WalEntry} (layout : LaidOut manager.header)
    (atCurrent : manager.header.walCheckpointPage = manager.header.walCurrentPage)
    (ring : RingHolds manager.header manager.memory
      [(manager.header.walCurrentPage, entries)]) :
    walRecover manager =
      (.returned 0,
        updateCheckpoint
          { manager with
            memory :=
              applyWrites
                (pendingWrites manager.header.lastCheckpoint
                  [(manager.header.walCurrentPage, entries)]) manager.memory }) := by
  rw [walRecover, atCurrent, recoverPages_eq layout ring (ringPath_singleton _) rfl
    (List.nodup_singleton _) (by decide)]

theorem EmptyLog.recoverFallen (emptyLog : EmptyLog manager) :
    (walRecover (counterFellBack manager)).2 =
      updateCheckpoint
        { counterFellBack manager with
          memory := applyWrites [(300, [1]), (300, [2])] (counterFellBack manager).memory } := by
  have once := walRecover_onePage emptyLog.soundFallen.layout emptyLog.atCurrent
    emptyLog.ringFallen
  have mark : (counterFellBack manager).header.lastCheckpoint = 1 := emptyLog.marked
  rw [once, mark]
  rfl

theorem EmptyLog.recoverFallen_twice (emptyLog : EmptyLog manager) :
    (walRecover (walRecover (counterFellBack manager)).2).2.memory =
      applyWrites [(300, [1])] (walRecover (counterFellBack manager)).2.memory := by
  have agree : ∀ page ∈ logPages
      [((counterFellBack manager).header.walCurrentPage, fallenEntries manager)],
      AgreeOn (counterFellBack manager).memory
        (applyWrites [(300, [1]), (300, [2])] (counterFellBack manager).memory) page := by
    intro page member
    apply AgreeOn.symm
    apply agreeOn_applyWrites
    intro write isWrite
    have inRing := emptyLog.ringFallen.inRing page member
    have different : 300 ≠ page := by
      rintro rfl
      exact emptyLog.target.2.2.1 inRing
    rcases List.mem_cons.mp isWrite with rfl | last
    · exact ⟨different, by decide⟩
    · rw [List.mem_singleton.mp last]
      exact ⟨different, by decide⟩
  have ring := emptyLog.ringFallen.congr agree
  have layout := emptyLog.soundFallen.updateCheckpoint.layout
  rw [emptyLog.recoverFallen]
  generalize applyWrites [(300, [1]), (300, [2])] (counterFellBack manager).memory = recovered at *
  have markedRing : RingHolds (updateCheckpoint (counterFellBack manager)).header recovered
      [((counterFellBack manager).header.walCurrentPage, fallenEntries manager)] :=
    ⟨ring.inRing, ring.holds, ring.targets⟩
  have again : walRecover (updateCheckpoint { counterFellBack manager with memory := recovered }) =
      _ := walRecover_onePage layout rfl markedRing
  rw [again]
  rfl

theorem dataPage_walRecover (manager : PageManager) (page : Nat) :
    DataPage (walRecover manager).2.header page ↔ DataPage manager.header page := by
  rw [walRecover]
  split
  · rfl
  · rfl

theorem EmptyLog.not_sameDataPages (emptyLog : EmptyLog manager) :
    ¬ SameDataPages (walRecover (walRecover (counterFellBack manager)).2).2
      (walRecover (counterFellBack manager)).2 := by
  intro same
  have target : DataPage (walRecover (walRecover (counterFellBack manager)).2).2.header 300 := by
    rw [dataPage_walRecover, dataPage_walRecover]
    exact emptyLog.target
  have bytes := congrArg List.head? (same 300 target)
  have once : (walRecover (counterFellBack manager)).2.memory (pageAddress 300) = 2 := by
    rw [emptyLog.recoverFallen]
    simp [updateCheckpoint, writeBytes]
  have twice : applyWrites [(300, [1])] (walRecover (counterFellBack manager)).2.memory
      (pageAddress 300) = 1 := by
    simp [writeBytes]
  rw [head?_pageContents, head?_pageContents, emptyLog.recoverFallen_twice, once, twice] at bytes
  exact absurd bytes (by decide)

end FallingCounter

theorem emptyLog_initNewFile : EmptyLog (initNewFile 0) where
  sound := soundFile_initNewFile 0
  empty := (walInvariant_initNewFile 0).ring.holds _ [] List.mem_cons_self
  target := by decide
  atCurrent := rfl
  marked := rfl

theorem walRecover_repeatable_entryOfTen :
    (∀ applied, SameDataPages (walRecover (crashedRecovery (entryOfTen (initNewFile 0)) applied)).2
      (walRecover (entryOfTen (initNewFile 0))).2) ∧
      SameDataPages (walRecover (walRecover (entryOfTen (initNewFile 0))).2).2
        (walRecover (entryOfTen (initNewFile 0))).2 := by
  have repeatable := walRecover_repeatable (entryOfTen (initNewFile 0))
    emptyLog_initNewFile.soundTen.walImage
  exact ⟨repeatable.1, repeatable.2 emptyLog_initNewFile.stampedTen⟩

/-- The second recovery brings back the entry that another one has overwritten. -/
theorem not_repeatable_counterFellBack : WalImage (counterFellBack (initNewFile 0)) ∧
    ¬ SameDataPages (walRecover (walRecover (counterFellBack (initNewFile 0))).2).2
      (walRecover (counterFellBack (initNewFile 0))).2 :=
  ⟨emptyLog_initNewFile.soundFallen.walImage, emptyLog_initNewFile.not_sameDataPages⟩

end Jdbx
