import Jdbx.Library.GuardedRun
import Jdbx.Storage.WalRuns

/-!
# The ring of WAL pages

The pages from the checkpoint page to the current page are a path along the
ring.  The entries written after the last checkpoint stand on pages of the path,
below the used bytes.  A write that stays inside an empty page writes behind
them or opens a page that is not on the path.
-/

namespace Jdbx

open Library

/-- The bytes of an entry in the file. -/
structure EntryPlace where
  address : Nat
  length : Nat

/-- The state in which `jdbx_wal_write` adds its entry. -/
def selectWalPage (manager : PageManager) (size : Nat) : PageManager :=
  if entryFits manager size then manager else openNextWalPage manager

def entryAddress (manager : PageManager) : Nat :=
  pageAddress manager.header.walCurrentPage + usedBytes manager.memory manager.header.walCurrentPage

def entryPlace (manager : PageManager) (pageData : Bytes) : EntryPlace where
  address := entryAddress (selectWalPage manager pageData.length)
  length := walEntrySize + pageData.length

theorem walWrite_eq (manager : PageManager) (pageId : Nat) (pageData : Bytes) :
    walWrite manager pageId pageData =
      if pageSize < pageData.length ∨
          (entryFits manager pageData.length = false ∧ walFull manager = true) then
        (-1, manager)
      else (0, appendEntry (selectWalPage manager pageData.length) pageId pageData) := by
  by_cases large : pageSize < pageData.length
  · simp [walWrite, large]
  · cases fits : entryFits manager pageData.length <;> cases full : walFull manager <;>
      simp [walWrite, selectWalPage, large, fits, full]

section Frames

variable {manager : PageManager} {pageId address : Nat} {pageData : Bytes}

theorem appendEntry_memory : (appendEntry manager pageId pageData).memory =
    sealPage (appendedMemory manager pageId pageData) manager.header.walCurrentPage := by
  rw [appendEntry_eq]

theorem appendEntry_of_outside
    (header : address < pageAddress manager.header.walCurrentPage ∨
      pageAddress manager.header.walCurrentPage + walPageSize ≤ address)
    (entry : address < entryAddress manager ∨
      entryAddress manager + (walEntrySize + pageData.length) ≤ address) :
    (appendEntry manager pageId pageData).memory address = manager.memory address := by
  have behind : pageAddress manager.header.walCurrentPage + 80 ≤ address ∨
      address < pageAddress manager.header.walCurrentPage := header.symm
  rw [appendEntry_memory, sealPage, writeNat_of_outside (by omega), appendedMemory, setUsedBytes,
    writeNat_of_outside (by omega), setEntryCount, writeNat_of_outside (by omega), setSequenceEnd,
    writeNat_of_outside (by omega), writeBytes_of_outside]
  rw [length_encodeEntry]
  exact entry

theorem openNextWalPage_of_outside
    (header : address < pageAddress (openNextWalPage manager).header.walCurrentPage ∨
      pageAddress (openNextWalPage manager).header.walCurrentPage + walPageSize ≤ address) :
    (openNextWalPage manager).memory address = manager.memory address := by
  generalize opened : (openNextWalPage manager).header.walCurrentPage = page at header
  have opened : nextWalPage manager.header manager.header.walCurrentPage = page := opened
  have behind : pageAddress page + 80 ≤ address ∨ address < pageAddress page := header.symm
  have memory : (openNextWalPage manager).memory =
      setUsedBytes
        (setEntryCount
          (setSequenceEnd (setSequenceStart manager.memory page manager.header.walSequence) page
            manager.header.walSequence)
          page 0)
        page walPageSize := by
    rw [← opened]
    rfl
  rw [memory, setUsedBytes, writeNat_of_outside (by omega), setEntryCount,
    writeNat_of_outside (by omega), setSequenceEnd, writeNat_of_outside (by omega),
    setSequenceStart, writeNat_of_outside (by omega)]

theorem usedBytes_appendEntry
    (above : walPageSize ≤ usedBytes manager.memory manager.header.walCurrentPage)
    (small : usedBytes manager.memory manager.header.walCurrentPage + walEntrySize +
      pageData.length < 2 ^ 32) :
    usedBytes (appendEntry manager pageId pageData).memory manager.header.walCurrentPage =
      usedBytes manager.memory manager.header.walCurrentPage + walEntrySize + pageData.length := by
  have behind : pageAddress manager.header.walCurrentPage + 80 ≤ entryAddress manager :=
    Nat.add_le_add_left above _
  have before (count : Nat) : usedBytes
      (setEntryCount
        (setSequenceEnd
          (writeBytes manager.memory (entryAddress manager)
            (encodeEntry (nextEntry manager.header pageId pageData)))
          manager.header.walCurrentPage manager.header.walSequence)
        manager.header.walCurrentPage count)
      manager.header.walCurrentPage =
        usedBytes manager.memory manager.header.walCurrentPage := by
    rw [usedBytes, setEntryCount, readNat_writeNat_of_disjoint (by omega), setSequenceEnd,
      readNat_writeNat_of_disjoint (by omega), readNat_writeBytes_of_disjoint (by omega),
      usedBytes]
  rw [appendEntry_memory, usedBytes, sealPage, readNat_writeNat_of_disjoint (by omega),
    appendedMemory, setUsedBytes, readNat_writeNat_self]
  · rw [← entryAddress, before]
  · rw [← entryAddress, before]
    exact small

end Frames

/-- A run so far, with the entries written after the last checkpoint. -/
structure RingRun where
  manager : PageManager
  live : List EntryPlace

def ringStep (run : RingRun) : WalStep → Option RingRun
  | .raiseTransaction id =>
      some { run with
        manager :=
          { run.manager with header := { run.manager.header with transactionId := id } } }
  | .write pageId pageData =>
      let result := walWrite run.manager pageId pageData
      some
        { manager := result.2
          live :=
            if result.1 = 0 then run.live ++ [entryPlace run.manager pageData] else run.live }
  | .checkpoint =>
      let result := checkpoint run.manager
      some { manager := result.2, live := if result.1 = 0 then [] else run.live }

/-- What a step leaves: sound `used_bytes`, and the bytes outside the selected
page and of the entries after the last checkpoint. -/
structure LeavesRing (run next : RingRun) : Prop where
  used : ∀ page, InRing next.manager.header page →
    walPageSize ≤ usedBytes next.manager.memory page ∧
      usedBytes next.manager.memory page ≤ pageSize
  inside : ∀ address, next.manager.memory address ≠ run.manager.memory address →
    InRing next.manager.header next.manager.header.walCurrentPage ∧
      pageAddress next.manager.header.walCurrentPage ≤ address ∧
        address < pageAddress next.manager.header.walCurrentPage + pageSize
  live : ∀ place ∈ run.live, ∀ address, place.address ≤ address →
    address < place.address + place.length →
      next.manager.memory address = run.manager.memory address

/-- An entry does not fit in the current page, and the next one holds an entry
written after the last checkpoint. -/
def NeedsLivePage (run : RingRun) (size : Nat) : Prop :=
  entryFits run.manager size = false ∧
    ∃ place ∈ run.live,
      pageAddress (nextWalPage run.manager.header run.manager.header.walCurrentPage) ≤
          place.address ∧
        place.address <
          pageAddress (nextWalPage run.manager.header run.manager.header.walCurrentPage) + pageSize

/-- What a write does besides: it only moves the position of the WAL in the file
header, and is refused where it would overwrite a live page. -/
structure WriteGuarded (run : RingRun) (pageId : Nat) (pageData : Bytes) : Prop where
  header : (walWrite run.manager pageId pageData).2.header =
    { run.manager.header with
      walCurrentPage := (walWrite run.manager pageId pageData).2.header.walCurrentPage
      walSequence := (walWrite run.manager pageId pageData).2.header.walSequence }
  refused : NeedsLivePage run pageData.length →
    walWrite run.manager pageId pageData = (-1, run.manager)

def KeepsRing (run : RingRun) (step : WalStep) : Prop :=
  (∀ next ∈ ringStep run step, LeavesRing run next) ∧
    match step with
    | .write pageId pageData => WriteGuarded run pageId pageData
    | .raiseTransaction _ | .checkpoint => True

def StepInPage (run : RingRun) : WalStep → Prop
  | .write _ pageData =>
      pageData.length ≤ pageSize → walFull run.manager = false →
        walPageSize + walEntrySize + pageData.length ≤ pageSize
  | .raiseTransaction _ | .checkpoint => True

/-! ## The invariant -/

/-- The pages in use are a path along the ring, and the live entries stand on
them below the used bytes. -/
structure RingInvariant (run : RingRun) (pages : List Nat) : Prop where
  layout : LaidOut run.manager.header
  inRing : ∀ page ∈ pages, InRing run.manager.header page
  path : RingPath (nextWalPage run.manager.header) pages
  starts : pages.head? = some run.manager.header.walCheckpointPage
  ends : pages.getLast? = some run.manager.header.walCurrentPage
  nodup : pages.Nodup
  holds : ∀ page, InRing run.manager.header page →
    ∃ entries, PageHolds run.manager.memory page entries
  live : ∀ place ∈ run.live, ∃ page ∈ pages,
    pageAddress page + walPageSize ≤ place.address ∧
      place.address + place.length ≤ pageAddress page + usedBytes run.manager.memory page
  filled : ∀ place ∈ run.live, 0 < place.length

section Invariant

variable {run : RingRun} {pages : List Nat} {pageData : Bytes}

theorem PageHolds.used_bounds {memory : Memory} {page : Nat} {entries : List WalEntry}
    (pageHolds : PageHolds memory page entries) :
    walPageSize ≤ usedBytes memory page ∧ usedBytes memory page ≤ pageSize := by
  rw [pageHolds.used]
  exact ⟨Nat.le_add_right _ _, pageHolds.fits⟩

theorem RingInvariant.used_bounds (invariant : RingInvariant run pages) {page : Nat}
    (inRing : InRing run.manager.header page) :
    walPageSize ≤ usedBytes run.manager.memory page ∧
      usedBytes run.manager.memory page ≤ pageSize := by
  obtain ⟨entries, pageHolds⟩ := invariant.holds page inRing
  exact pageHolds.used_bounds

theorem RingInvariant.currentInRing (invariant : RingInvariant run pages) :
    InRing run.manager.header run.manager.header.walCurrentPage :=
  invariant.inRing _ (List.mem_of_getLast? invariant.ends)

theorem RingInvariant.currentMember (invariant : RingInvariant run pages) :
    run.manager.header.walCurrentPage ∈ pages :=
  List.mem_of_getLast? invariant.ends

theorem RingInvariant.openNext (invariant : RingInvariant run pages)
    (room : walFull run.manager = false) :
    RingInvariant { run with manager := openNextWalPage run.manager }
      (pages ++ [(openNextWalPage run.manager).header.walCurrentPage]) := by
  have fresh : nextWalPage run.manager.header run.manager.header.walCurrentPage ∉ pages := by
    apply nextWalPage_not_mem invariant.inRing invariant.path invariant.starts invariant.ends
      invariant.nodup
    simpa [walFull] using room
  have nextInRing := nextWalPage_inRing invariant.currentInRing
  have opened : (openNextWalPage run.manager).header.walCurrentPage =
      nextWalPage run.manager.header run.manager.header.walCurrentPage := rfl
  have agree {page : Nat}
      (different : page ≠ (openNextWalPage run.manager).header.walCurrentPage) :
      AgreeOn run.manager.memory (openNextWalPage run.manager).memory page :=
    (agreeOn_openNextWalPage different).symm
  have notOpened {page : Nat} (member : page ∈ pages) :
      page ≠ (openNextWalPage run.manager).header.walCurrentPage := by
    rintro rfl
    exact fresh member
  obtain ⟨layout, inRing, path, starts, ends, nodup, holds, live, filled⟩ := invariant
  refine ⟨⟨layout.1, layout.2, layout.3, layout.4⟩, ?_, path.concat ends, ?_, ?_, ?_, ?_, ?_,
    filled⟩
  · intro page member
    rcases List.mem_append.mp member with old | new
    · exact inRing page old
    · rw [List.mem_singleton.mp new]
      exact nextInRing
  · rw [List.head?_append, starts]
    rfl
  · exact List.getLast?_concat
  · apply nodup.append (List.nodup_singleton _)
    exact List.disjoint_singleton.mpr fresh
  · intro page pageInRing
    by_cases same : page = (openNextWalPage run.manager).header.walCurrentPage
    · subst same
      obtain ⟨entries, before⟩ := holds _ nextInRing
      exact ⟨[], pageHolds_openNextWalPage before.typed⟩
    · obtain ⟨entries, before⟩ := holds page pageInRing
      exact ⟨entries, before.congr (agree same)⟩
  · intro place member
    obtain ⟨page, inPath, above, below⟩ := live place member
    refine ⟨page, List.mem_append_left _ inPath, above, ?_⟩
    have same : usedBytes run.manager.memory page =
        usedBytes (openNextWalPage run.manager).memory page := by
      apply (agree (notOpened inPath)).readNat
      · exact Nat.le_add_right _ _
      · simp only [pageSize]
        omega
    rw [← same]
    exact below

theorem RingInvariant.used_openNext (invariant : RingInvariant run pages) :
    usedBytes (openNextWalPage run.manager).memory
      (openNextWalPage run.manager).header.walCurrentPage = walPageSize := by
  have nextInRing := nextWalPage_inRing invariant.currentInRing
  obtain ⟨entries, before⟩ := invariant.holds _ nextInRing
  exact (pageHolds_openNextWalPage before.typed).used

theorem RingInvariant.apart (invariant : RingInvariant run pages) {place : EntryPlace}
    (member : place ∈ run.live) {address : Nat} (above : place.address ≤ address)
    (below : address < place.address + place.length) (page : Nat) :
    (address < pageAddress page ∨ pageAddress page + walPageSize ≤ address) ∧
      (address < pageAddress page + usedBytes run.manager.memory page ∨
        pageAddress page + pageSize ≤ address) := by
  obtain ⟨own, inPath, ownAbove, ownBelow⟩ := invariant.live place member
  have bounds := invariant.used_bounds (invariant.inRing own inPath)
  by_cases same : own = page
  · subst same
    omega
  · have disjoint := pageAddress_disjoint same
    simp only [walPageSize, pageSize] at *
    omega

/-- An entry that fits goes behind the used bytes of the current page. -/
theorem RingInvariant.append (invariant : RingInvariant run pages) (pageId : Nat)
    (fits : usedBytes run.manager.memory run.manager.header.walCurrentPage + walEntrySize +
      pageData.length ≤ pageSize) :
    RingInvariant
      { manager := appendEntry run.manager pageId pageData
        live := run.live ++ [⟨entryAddress run.manager, walEntrySize + pageData.length⟩] }
      pages := by
  have currentBounds := invariant.used_bounds invariant.currentInRing
  have currentMember := invariant.currentMember
  have grown : usedBytes (appendEntry run.manager pageId pageData).memory
      run.manager.header.walCurrentPage =
        usedBytes run.manager.memory run.manager.header.walCurrentPage + walEntrySize +
          pageData.length := by
    apply usedBytes_appendEntry currentBounds.1
    simp only [pageSize] at fits
    omega
  have agree {page : Nat} (different : page ≠ run.manager.header.walCurrentPage) :
      AgreeOn run.manager.memory (appendEntry run.manager pageId pageData).memory page :=
    (agreeOn_appendEntry different fits).symm
  obtain ⟨layout, inRing, path, starts, ends, nodup, holds, live, filled⟩ := invariant
  refine ⟨⟨layout.1, layout.2, layout.3, layout.4⟩, inRing, path, starts, ends, nodup, ?_, ?_, ?_⟩
  · intro page pageInRing
    by_cases same : page = run.manager.header.walCurrentPage
    · subst same
      obtain ⟨entries, before⟩ := holds _ pageInRing
      exact ⟨_, pageHolds_appendEntry pageId before fits⟩
    · obtain ⟨entries, before⟩ := holds page pageInRing
      exact ⟨entries, before.congr (agree same)⟩
  · intro place member
    rcases List.mem_append.mp member with old | new
    · obtain ⟨page, inPath, above, below⟩ := live place old
      refine ⟨page, inPath, above, ?_⟩
      by_cases same : page = run.manager.header.walCurrentPage
      · subst same
        rw [grown]
        omega
      · have kept : usedBytes run.manager.memory page =
            usedBytes (appendEntry run.manager pageId pageData).memory page := by
          apply (agree same).readNat
          · exact Nat.le_add_right _ _
          · simp only [pageSize]
            omega
        rw [← kept]
        exact below
    · obtain rfl := List.mem_singleton.mp new
      refine ⟨_, currentMember, Nat.add_le_add_left currentBounds.1 _, ?_⟩
      rw [grown, entryAddress]
      dsimp only
      omega
  · intro place member
    rcases List.mem_append.mp member with old | new
    · exact filled place old
    · obtain rfl := List.mem_singleton.mp new
      exact Nat.add_pos_left (by decide) _

theorem RingInvariant.leaves_of_memory {next : RingRun} {nextPages : List Nat}
    (invariant : RingInvariant next nextPages)
    (same : next.manager.memory = run.manager.memory) : LeavesRing run next := by
  refine ⟨fun page inRing => invariant.used_bounds inRing, ?_, ?_⟩
  · intro address changed
    exact absurd (congrFun same address) changed
  · intro _ _ address _ _
    exact congrFun same address

theorem RingInvariant.leaves_openNext (invariant : RingInvariant run pages)
    (room : walFull run.manager = false) :
    LeavesRing run { run with manager := openNextWalPage run.manager } := by
  have opened := invariant.openNext room
  refine ⟨fun page inRing => opened.used_bounds inRing, ?_, ?_⟩
  · intro address changed
    refine ⟨opened.currentInRing, ?_⟩
    by_contra outside
    apply changed
    apply openNextWalPage_of_outside
    simp only [walPageSize, pageSize] at outside ⊢
    omega
  · intro place member address above below
    apply openNextWalPage_of_outside
    exact (invariant.apart member above below _).1

theorem RingInvariant.leaves_append (invariant : RingInvariant run pages) (pageId : Nat)
    (fits : usedBytes run.manager.memory run.manager.header.walCurrentPage + walEntrySize +
      pageData.length ≤ pageSize) {live : List EntryPlace} :
    LeavesRing run { manager := appendEntry run.manager pageId pageData, live } := by
  have appended := invariant.append pageId fits
  refine ⟨fun page inRing => appended.used_bounds inRing, ?_, ?_⟩
  · intro address changed
    refine ⟨appended.currentInRing, ?_⟩
    by_contra outside
    apply changed
    have outside : ¬ (pageAddress run.manager.header.walCurrentPage ≤ address ∧
        address < pageAddress run.manager.header.walCurrentPage + pageSize) := outside
    simp only [pageSize, walEntrySize] at outside fits
    apply appendEntry_of_outside
    · simp only [walPageSize]
      omega
    · simp only [entryAddress, walEntrySize]
      omega
  · intro place member address above below
    have apart := invariant.apart member above below run.manager.header.walCurrentPage
    apply appendEntry_of_outside apart.1
    rw [entryAddress]
    omega

theorem LeavesRing.trans {middle next : RingRun} (first : LeavesRing run middle)
    (second : LeavesRing middle next) (sameLive : middle.live = run.live)
    (samePage : middle.manager.header.walCurrentPage = next.manager.header.walCurrentPage)
    (sameStart : middle.manager.header.walStartPage = next.manager.header.walStartPage) :
    LeavesRing run next := by
  refine ⟨second.used, ?_, ?_⟩
  · intro address changed
    by_cases later : next.manager.memory address = middle.manager.memory address
    · rw [later] at changed
      have inside := first.inside address changed
      rw [InRing, samePage, sameStart] at inside
      exact inside
    · exact second.inside address later
  · intro place member address above below
    rw [second.live place (sameLive ▸ member) address above below,
      first.live place member address above below]

theorem RingInvariant.write (invariant : RingInvariant run pages) {pageId : Nat}
    (inPage : StepInPage run (.write pageId pageData)) :
    ∀ next ∈ ringStep run (.write pageId pageData),
      LeavesRing run next ∧ ∃ nextPages, RingInvariant next nextPages := by
  intro next taken
  cases taken
  have used := invariant.used_bounds invariant.currentInRing
  rw [walWrite_eq]
  by_cases refused : pageSize < pageData.length ∨
      (entryFits run.manager pageData.length = false ∧ walFull run.manager = true)
  · rw [if_pos refused]
    exact ⟨invariant.leaves_of_memory rfl, pages, invariant⟩
  · rw [if_neg refused]
    obtain ⟨small, accepted⟩ := not_or.mp refused
    cases fits : entryFits run.manager pageData.length with
    | true =>
        have room := (entryFits_iff used.2).mp fits
        have appended := invariant.append pageId room
        simp only [entryPlace, selectWalPage, fits, if_true]
        exact ⟨invariant.leaves_append pageId room, pages, appended⟩
    | false =>
        have notFull : walFull run.manager = false := by simpa [fits] using accepted
        have opened := invariant.openNext notFull
        have leavesOpened := invariant.leaves_openNext notFull
        have room : usedBytes (openNextWalPage run.manager).memory
            (openNextWalPage run.manager).header.walCurrentPage + walEntrySize +
              pageData.length ≤ pageSize := by
          rw [invariant.used_openNext]
          exact inPage (Nat.not_lt.mp small) notFull
        simp only [entryPlace, selectWalPage, fits, Bool.false_eq_true, if_false]
        exact ⟨leavesOpened.trans (opened.leaves_append pageId room) rfl rfl rfl, _,
          opened.append pageId room⟩

theorem RingInvariant.writeGuarded (invariant : RingInvariant run pages) (pageId : Nat)
    (pageData : Bytes) : WriteGuarded run pageId pageData where
  header := by
    rw [walWrite_eq]
    split_ifs
    · rfl
    · rw [selectWalPage]
      split_ifs <;> rfl
  refused := by
    rintro ⟨noRoom, place, member, above, below⟩
    rw [walWrite_eq, if_pos]
    refine Or.inr ⟨noRoom, ?_⟩
    by_contra notFull
    have fresh : nextWalPage run.manager.header run.manager.header.walCurrentPage ∉ pages := by
      apply nextWalPage_not_mem invariant.inRing invariant.path invariant.starts invariant.ends
        invariant.nodup
      simpa [walFull] using notFull
    obtain ⟨page, inPath, ownAbove, ownBelow⟩ := invariant.live place member
    have bounds := invariant.used_bounds (invariant.inRing page inPath)
    have different : page ≠ nextWalPage run.manager.header run.manager.header.walCurrentPage := by
      rintro rfl
      exact fresh inPath
    have apart := pageAddress_disjoint different
    have filled := invariant.filled place member
    simp only [walPageSize, pageSize] at *
    omega

theorem RingInvariant.stepInPage_of_keepsRing (invariant : RingInvariant run pages)
    {step : WalStep} (keeps : KeepsRing run step) : StepInPage run step := by
  cases step with
  | write pageId pageData =>
      intro small notFull
      by_contra long
      have used := invariant.used_bounds invariant.currentInRing
      have noRoom : entryFits run.manager pageData.length = false := by
        rw [Bool.eq_false_iff, ne_eq, entryFits_iff used.2]
        omega
      have accepted : ¬ (pageSize < pageData.length ∨
          (entryFits run.manager pageData.length = false ∧ walFull run.manager = true)) := by
        simp [notFull, small]
      have leaves := keeps.1 _ rfl
      have opened := invariant.used_openNext
      have grown : usedBytes (appendEntry (openNextWalPage run.manager) pageId pageData).memory
          (openNextWalPage run.manager).header.walCurrentPage =
            walPageSize + walEntrySize + pageData.length := by
        rw [← opened]
        apply usedBytes_appendEntry opened.ge
        rw [opened]
        simp only [walPageSize, walEntrySize, pageSize] at small ⊢
        omega
      rw [walWrite_eq, if_neg accepted, selectWalPage, noRoom] at leaves
      have bound := (leaves.used (openNextWalPage run.manager).header.walCurrentPage
        (nextWalPage_inRing invariant.currentInRing)).2
      exact long (grown ▸ bound)
  | raiseTransaction id => trivial
  | checkpoint => trivial

theorem RingInvariant.raiseTransaction (invariant : RingInvariant run pages) (id : UInt64) :
    RingInvariant
      { run with
        manager :=
          { run.manager with header := { run.manager.header with transactionId := id } } }
      pages := by
  obtain ⟨layout, inRing, path, starts, ends, nodup, holds, live, filled⟩ := invariant
  exact ⟨⟨layout.1, layout.2, layout.3, layout.4⟩, inRing, path, starts, ends, nodup, holds, live,
    filled⟩

theorem RingInvariant.checkpoint (invariant : RingInvariant run pages) :
    ∃ nextPages, RingInvariant
      { manager := (Jdbx.checkpoint run.manager).2
        live := if (Jdbx.checkpoint run.manager).1 = 0 then [] else run.live } nextPages ∧
      (Jdbx.checkpoint run.manager).2.memory = run.manager.memory := by
  have current := invariant.currentInRing
  obtain ⟨layout, inRing, path, starts, ends, nodup, holds, live, filled⟩ := invariant
  by_cases already : run.manager.header.walCheckpointPage = run.manager.header.walCurrentPage ∧
      run.manager.header.lastCheckpoint = run.manager.header.transactionId
  · have done : Jdbx.checkpoint run.manager = (0, run.manager) := if_pos already
    rw [done, if_pos rfl]
    exact ⟨pages, ⟨layout, inRing, path, starts, ends, nodup, holds, by simp, by simp⟩, rfl⟩
  · have marks : Jdbx.checkpoint run.manager = (0, updateCheckpoint run.manager) := if_neg already
    rw [marks, if_pos rfl]
    refine ⟨[run.manager.header.walCurrentPage], ⟨⟨layout.1, layout.2, layout.3, layout.4⟩, ?_,
      ringPath_singleton _, rfl, rfl, List.nodup_singleton _, holds, by simp, by simp⟩, rfl⟩
    intro page member
    rw [List.mem_singleton.mp member]
    exact current

theorem RingInvariant.step (invariant : RingInvariant run pages) {step : WalStep}
    (inPage : StepInPage run step) :
    KeepsRing run step ∧ ∀ next ∈ ringStep run step, ∃ nextPages, RingInvariant next nextPages := by
  cases step with
  | write pageId pageData =>
      have wrote := invariant.write inPage
      exact ⟨⟨fun next taken => (wrote next taken).1, invariant.writeGuarded pageId pageData⟩,
        fun next taken => (wrote next taken).2⟩
  | raiseTransaction id =>
      have raised := invariant.raiseTransaction id
      constructor
      · refine ⟨fun next taken => ?_, trivial⟩
        cases taken
        exact raised.leaves_of_memory rfl
      · intro next taken
        cases taken
        exact ⟨pages, raised⟩
  | checkpoint =>
      obtain ⟨nextPages, marked, same⟩ := invariant.checkpoint
      constructor
      · refine ⟨fun next taken => ?_, trivial⟩
        cases taken
        exact marked.leaves_of_memory same
      · intro next taken
        cases taken
        exact ⟨nextPages, marked⟩

theorem ringInvariant_initNewFile (initialSize : UInt64) :
    RingInvariant { manager := initNewFile initialSize, live := [] }
      [(initNewFile initialSize).header.walStartPage] := by
  obtain ⟨layout, path, starts, ends, nodup, ring, _, _, _⟩ := walInvariant_initNewFile initialSize
  refine ⟨layout, ring.inRing, path, starts, ends, nodup, ?_, by simp, by simp⟩
  exact fun page inRing => ⟨[], pageHolds_initNewFile inRing⟩

end Invariant

/-- Every step of a run on a new file keeps the ring just where every accepted
entry has room in an empty page. -/
theorem wal_keepsRing (initialSize : UInt64) (steps : List WalStep) :
    EveryStep ringStep KeepsRing { manager := initNewFile initialSize, live := [] } steps ↔
      EveryStep ringStep StepInPage { manager := initNewFile initialSize, live := [] } steps := by
  have keeps : Keeps ringStep StepInPage fun run => ∃ pages, RingInvariant run pages := by
    rintro run step next ⟨pages, invariant⟩ inPage taken
    exact (invariant.step inPage).2 next taken
  apply EveryStep.iff_of_keeps keeps ?_ ⟨_, ringInvariant_initNewFile initialSize⟩
  rintro run step ⟨pages, invariant⟩
  exact ⟨invariant.stepInPage_of_keepsRing, fun inPage => (invariant.step inPage).1⟩

/-- An entry of a whole page is accepted on a new file. -/
theorem not_keepsRing_wholePage :
    ¬ EveryStep ringStep KeepsRing { manager := initNewFile 0, live := [] }
      [.write 300 (List.replicate 4096 7)] := by
  intro every
  have keeps := every.1
  have invariant := ringInvariant_initNewFile 0
  have inPage := invariant.stepInPage_of_keepsRing keeps
  have small : (List.replicate 4096 (7 : UInt8)).length ≤ pageSize := by
    rw [List.length_replicate, pageSize]
  have room := inPage small (by decide)
  rw [List.length_replicate] at room
  exact absurd room (by decide)

end Jdbx
