import Mathlib.Data.List.Perm.Subperm
import Jdbx.Storage.NewFile

/-!
# Runs of WAL writes and checkpoints

`WalInvariant` ties the bytes of the ring to a log, and each operation keeps
it.  The entries of the log above `last_checkpoint` are the writes accepted
after the last checkpoint in every run whose accepted writes fit a WAL page and
carry a transaction id that was raised since that checkpoint.  A crash keeps the
mapped file: it ends the run, and recovery starts from the state it left.
-/

namespace Jdbx

open Library

/-- The state of the ring: the log is the path from the checkpoint page to the
current page. -/
structure WalInvariant (manager : PageManager) (log : WalLog) : Prop where
  layout : LaidOut manager.header
  path : RingPath (nextWalPage manager.header) (logPages log)
  starts : (logPages log).head? = some manager.header.walCheckpointPage
  ends : (logPages log).getLast? = some manager.header.walCurrentPage
  nodup : (logPages log).Nodup
  ring : RingHolds manager.header manager.memory log
  typed : ∀ page, InRing manager.header page → walPageType manager.memory page = pageTypeWal
  marked : manager.header.lastCheckpoint ≤ manager.header.transactionId
  stamped : ∀ entry ∈ logEntries log, entry.transactionId ≤ manager.header.transactionId

section Invariant

variable {manager : PageManager} {log : WalLog}

theorem WalInvariant.length_le (invariant : WalInvariant manager log) :
    log.length ≤ walPages := by
  have inside : logPages log ⊆
      (List.range walPages).map (manager.header.walStartPage + ·) := by
    intro page member
    have inRing := invariant.ring.inRing page member
    apply List.mem_map.mpr
    refine ⟨page - manager.header.walStartPage, ?_, ?_⟩
    · apply List.mem_range.mpr
      have above := inRing.2
      have below := inRing.1
      omega
    · have below := inRing.1
      omega
  have bound := (List.subperm_of_subset invariant.nodup inside).length_le
  simpa [logPages] using bound

theorem walRecover_eq (invariant : WalInvariant manager log) :
    walRecover manager =
      (.returned 0,
        updateCheckpoint
          { manager with
            memory :=
              applyWrites (pendingWrites manager.header.lastCheckpoint log) manager.memory }) := by
  have bound := invariant.length_le
  obtain ⟨layout, path, starts, ends, nodup, ring, _, _, _⟩ := invariant
  cases log with
  | nil => cases starts
  | cons first log =>
      obtain ⟨page, entries⟩ := first
      have head : page = manager.header.walCheckpointPage := by simpa [logPages] using starts
      subst head
      rw [walRecover, recoverPages_eq layout ring path ends nodup bound]

theorem WalInvariant.exists_last (invariant : WalInvariant manager log) :
    ∃ older entries, log = older ++ [(manager.header.walCurrentPage, entries)] := by
  rcases List.eq_nil_or_concat' log with rfl | ⟨older, last, rfl⟩
  · have ends := invariant.ends
    cases ends
  · obtain ⟨page, entries⟩ := last
    have ends := invariant.ends
    have same : page = manager.header.walCurrentPage := by
      simpa [logPages] using ends
    exact ⟨older, entries, by rw [same]⟩

theorem walInvariant_raiseTransaction (invariant : WalInvariant manager log) {id : UInt64}
    (raised : manager.header.transactionId ≤ id) :
    WalInvariant
      { manager with header := { manager.header with transactionId := id } } log := by
  obtain ⟨layout, path, starts, ends, nodup, ring, typed, marked, stamped⟩ := invariant
  refine ⟨⟨layout.1, layout.2, layout.3, layout.4⟩, path, starts, ends, nodup,
    ⟨ring.1, ring.2, ring.3⟩, typed, ?_, ?_⟩
  · exact UInt64.le_trans marked raised
  · intro entry member
    exact UInt64.le_trans (stamped entry member) raised

theorem walInvariant_updateCheckpoint {older : WalLog} {entries : List WalEntry}
    (invariant :
      WalInvariant manager (older ++ [(manager.header.walCurrentPage, entries)])) :
    WalInvariant (updateCheckpoint manager) [(manager.header.walCurrentPage, entries)] := by
  obtain ⟨layout, path, starts, ends, nodup, ring, typed, marked, stamped⟩ := invariant
  have last := ring.final
  refine ⟨⟨layout.1, layout.2, layout.3, layout.4⟩, ringPath_singleton _, rfl, rfl,
    List.nodup_singleton _, ⟨last.1, last.2, last.3⟩, typed, UInt64.le_refl _, ?_⟩
  intro entry member
  apply stamped
  rw [logEntries_append]
  exact List.mem_append_right _ member

theorem walInvariant_openNextWalPage (invariant : WalInvariant manager log)
    (room : walFull manager = false) :
    WalInvariant (openNextWalPage manager)
      (log ++ [((openNextWalPage manager).header.walCurrentPage, [])]) := by
  obtain ⟨layout, path, starts, ends, nodup, ring, typed, marked, stamped⟩ := invariant
  have currentInRing : InRing manager.header manager.header.walCurrentPage :=
    ring.inRing _ (List.mem_of_getLast? ends)
  have newInRing := nextWalPage_inRing currentInRing
  generalize fresh : nextWalPage manager.header manager.header.walCurrentPage = page at newInRing
  have notFirst : nextWalPage manager.header manager.header.walCurrentPage ≠
      manager.header.walCheckpointPage := by
    simpa [walFull] using room
  have notInLog : page ∉ logPages log :=
    fresh ▸ nextWalPage_not_mem ring.inRing path starts ends nodup notFirst
  have opened : (openNextWalPage manager).header.walCurrentPage = page := fresh
  have agree (tested : Nat) (different : tested ≠ page) :
      AgreeOn manager.memory (openNextWalPage manager).memory tested := by
    apply AgreeOn.symm
    apply agreeOn_openNextWalPage
    rw [opened]
    exact different
  have emptied : PageHolds (openNextWalPage manager).memory page [] := by
    rw [← opened]
    apply pageHolds_openNextWalPage
    rw [opened]
    exact typed page newInRing
  have olderPages : RingHolds manager.header (openNextWalPage manager).memory log := by
    apply ring.congr
    intro tested member
    apply agree
    rintro rfl
    exact notInLog member
  have allPages := olderPages.concat newInRing emptied (by simp)
  rw [opened]
  refine ⟨⟨layout.1, layout.2, layout.3, layout.4⟩, ?_, ?_, ?_, ?_,
    ⟨allPages.1, allPages.2, allPages.3⟩, ?_, marked, ?_⟩
  · rw [logPages_concat, ← fresh]
    exact path.concat ends
  · rw [logPages_concat, List.head?_append, starts]
    rfl
  · rw [logPages_concat, opened]
    exact List.getLast?_concat
  · rw [logPages_concat]
    apply nodup.append (List.nodup_singleton page)
    exact List.disjoint_singleton.mpr notInLog
  · intro tested inRing
    by_cases same : tested = page
    · rw [same]
      exact emptied.typed
    · rw [← (agree tested same).walPageType_eq]
      exact typed tested inRing
  · intro entry member
    apply stamped
    simpa [logEntries] using member

theorem walInvariant_appendEntry {older : WalLog} {entries : List WalEntry} {pageId : Nat}
    {pageData : Bytes}
    (invariant : WalInvariant manager (older ++ [(manager.header.walCurrentPage, entries)]))
    (target : DataPage manager.header pageId)
    (fits : usedBytes manager.memory manager.header.walCurrentPage + walEntrySize +
      pageData.length ≤ pageSize) :
    WalInvariant (appendEntry manager pageId pageData)
      (older ++ [((appendEntry manager pageId pageData).header.walCurrentPage,
        entries ++ [nextEntry manager.header pageId pageData])]) := by
  obtain ⟨layout, path, starts, ends, nodup, ring, typed, marked, stamped⟩ := invariant
  have header : (appendEntry manager pageId pageData).header =
      { manager.header with walSequence := manager.header.walSequence + 1 } := rfl
  have currentInRing : InRing manager.header manager.header.walCurrentPage :=
    ring.inRing _ (List.mem_of_getLast? ends)
  have agree (tested : Nat) (different : tested ≠ manager.header.walCurrentPage) :
      AgreeOn manager.memory (appendEntry manager pageId pageData).memory tested :=
    (agreeOn_appendEntry different fits).symm
  have currentHolds : PageHolds manager.memory manager.header.walCurrentPage entries :=
    ring.holds _ _ (List.mem_append_right _ List.mem_cons_self)
  have appended := pageHolds_appendEntry pageId currentHolds fits
  have newTargets : ∀ entry ∈ entries ++ [nextEntry manager.header pageId pageData],
      DataPage manager.header entry.pageId := by
    intro entry member
    rcases List.mem_append.mp member with old | new
    · apply ring.targets
      rw [logEntries_append]
      apply List.mem_append_right
      simpa [logEntries] using old
    · rw [List.mem_singleton.mp new]
      exact target
  rw [logPages_concat] at path starts ends nodup
  have olderPages : RingHolds manager.header (appendEntry manager pageId pageData).memory
      older := by
    apply ring.initial.congr
    intro tested member
    apply agree
    rintro rfl
    exact (List.disjoint_of_nodup_append nodup) member List.mem_cons_self
  have allPages := olderPages.concat currentInRing appended newTargets
  rw [header]
  refine ⟨⟨layout.1, layout.2, layout.3, layout.4⟩, ?_, ?_, ?_, ?_,
    ⟨allPages.1, allPages.2, allPages.3⟩, ?_, marked, ?_⟩
  · rw [logPages_concat]
    exact path
  · rw [logPages_concat]
    exact starts
  · rw [logPages_concat]
    exact ends
  · rw [logPages_concat]
    exact nodup
  · intro tested inRing
    by_cases same : tested = manager.header.walCurrentPage
    · rw [same]
      exact appended.typed
    · rw [← (agree tested same).walPageType_eq]
      exact typed tested inRing
  · intro entry member
    rw [logEntries_append] at member
    rcases List.mem_append.mp member with old | inLast
    · apply stamped
      rw [logEntries_append]
      exact List.mem_append_left _ old
    · have inPage : entry ∈ entries ++ [nextEntry manager.header pageId pageData] := by
        simpa [logEntries] using inLast
      rcases List.mem_append.mp inPage with old | new
      · apply stamped
        rw [logEntries_append]
        apply List.mem_append_right
        simpa [logEntries] using old
      · rw [List.mem_singleton.mp new]
        exact UInt64.le_refl _


theorem walInvariant_initNewFile (initialSize : UInt64) :
    WalInvariant (initNewFile initialSize)
      [((initNewFile initialSize).header.walStartPage, [])] := by
  have layout := laidOut_initNewFile initialSize
  have firstInRing : InRing (initNewFile initialSize).header
      (initNewFile initialSize).header.walStartPage := by
    simp only [InRing, walPages]
    omega
  refine ⟨layout, ringPath_singleton _, rfl, rfl, List.nodup_singleton _, ⟨?_, ?_, ?_⟩, ?_,
    UInt64.le_refl _, ?_⟩
  · intro page member
    rw [show page = _ from List.mem_singleton.mp member]
    exact firstInRing
  · intro page entries member
    cases List.mem_singleton.mp member
    exact pageHolds_initNewFile firstInRing
  · intro entry member
    cases member
  · intro page inRing
    exact (pageHolds_initNewFile inRing).typed
  · intro entry member
    cases member

theorem entryFits_iff {size : Nat}
    (used : usedBytes manager.memory manager.header.walCurrentPage ≤ pageSize) :
    entryFits manager size = true ↔
      usedBytes manager.memory manager.header.walCurrentPage + walEntrySize + size ≤
        pageSize := by
  simp only [entryFits, decide_eq_true_eq]
  simp only [pageSize, Nat.reducePow] at used ⊢
  omega

end Invariant

/-! ## Runs -/

/-- One step of a run.  `raiseTransaction` is the assignment of the header's
`transaction_id` by the callers of the page manager. -/
inductive WalStep where
  | raiseTransaction (id : UInt64)
  | write (pageId : Nat) (pageData : Bytes)
  | checkpoint

/-- A run so far, with the page writes accepted since the last checkpoint. -/
structure WalRun where
  manager : PageManager
  accepted : List (Nat × Bytes)

def walStep (run : WalRun) : WalStep → WalRun
  | .raiseTransaction id =>
      { run with
        manager :=
          { run.manager with header := { run.manager.header with transactionId := id } } }
  | .write pageId pageData =>
      let result := walWrite run.manager pageId pageData
      { manager := result.2
        accepted :=
          if result.1 = 0 then run.accepted ++ [(pageId, pageData)] else run.accepted }
  | .checkpoint =>
      let result := checkpoint run.manager
      { manager := result.2
        accepted := if result.1 = 0 then [] else run.accepted }

def walRun (run : WalRun) (steps : List WalStep) : WalRun :=
  steps.foldl walStep run

def EachStep (condition : PageManager → WalStep → Prop) : WalRun → List WalStep → Prop
  | _, [] => True
  | run, step :: steps => condition run.manager step ∧ EachStep condition (walStep run step) steps

def StepAllowed (manager : PageManager) : WalStep → Prop
  | .raiseTransaction id => manager.header.transactionId ≤ id
  | .write pageId _ => DataPage manager.header pageId
  | .checkpoint => True

/-- A write that is not refused has at most the data an empty WAL page has room
for, and a transaction id above the last checkpoint. -/
def StepReplayable (manager : PageManager) : WalStep → Prop
  | .write _ pageData =>
      pageData.length ≤ pageSize →
        (entryFits manager pageData.length ∨ ¬ walFull manager) →
        walPageSize + walEntrySize + pageData.length ≤ pageSize ∧
          manager.header.lastCheckpoint < manager.header.transactionId
  | .raiseTransaction _ | .checkpoint => True

def newFileRun (initialSize : UInt64) (steps : List WalStep) : WalRun :=
  walRun { manager := initNewFile initialSize, accepted := [] } steps

def pageContents (memory : Memory) (page : Nat) : Bytes :=
  readBytes memory (pageAddress page) pageSize

theorem head?_pageContents (memory : Memory) (page : Nat) :
    (pageContents memory page).head? = some (memory (pageAddress page)) := by
  rw [pageContents, pageSize, readBytes_succ]
  rfl

/-- Recovery succeeds and brings every data page to the contents that applying
the accepted writes gives. -/
def RecoversAccepted (run : WalRun) : Prop :=
  (walRecover run.manager).1 = .returned 0 ∧
    ∀ page, DataPage run.manager.header page →
      pageContents (walRecover run.manager).2.memory page =
        pageContents (applyWrites run.accepted run.manager.memory) page

def RunInvariant (run : WalRun) : Prop :=
  ∃ log, WalInvariant run.manager log ∧
    pendingWrites run.manager.header.lastCheckpoint log = run.accepted

theorem RunInvariant.recoversAccepted {run : WalRun} (invariant : RunInvariant run) :
    RecoversAccepted run := by
  obtain ⟨log, holds, held⟩ := invariant
  rw [RecoversAccepted, walRecover_eq holds, held]
  refine ⟨rfl, ?_⟩
  intro page _
  rfl

/-! ## One step -/

section Steps

variable {manager : PageManager} {accepted : List (Nat × Bytes)}

theorem pendingWrites_concat (mark : UInt64) (older : WalLog) (page : Nat)
    (entries : List WalEntry) {entry : WalEntry} (above : mark.toNat < (walRecord entry).1) :
    pendingWrites mark (older ++ [(page, entries ++ [entry])]) =
      pendingWrites mark (older ++ [(page, entries)]) ++ [(entry.pageId, entry.data)] := by
  have entryLast : logEntries (older ++ [(page, entries ++ [entry])]) =
      logEntries (older ++ [(page, entries)]) ++ [entry] := by
    simp [logEntries]
  rw [pendingWrites, entryLast, List.map_append, pending_append, List.map_singleton,
    pending_cons_of_lt above, pending_nil]
  rfl

theorem runInvariant_appendEntry {pageId : Nat} {pageData : Bytes}
    (invariant : RunInvariant { manager := manager, accepted := accepted })
    (target : DataPage manager.header pageId)
    (raised : manager.header.lastCheckpoint < manager.header.transactionId)
    (fits : usedBytes manager.memory manager.header.walCurrentPage + walEntrySize +
      pageData.length ≤ pageSize) :
    RunInvariant
      { manager := appendEntry manager pageId pageData
        accepted := accepted ++ [(pageId, pageData)] } := by
  obtain ⟨log, holds, held⟩ := invariant
  obtain ⟨older, entries, rfl⟩ := holds.exists_last
  refine ⟨_, walInvariant_appendEntry holds target fits, ?_⟩
  have above : manager.header.lastCheckpoint.toNat <
      (walRecord (nextEntry manager.header pageId pageData)).1 := raised
  change pendingWrites manager.header.lastCheckpoint _ = _
  rw [pendingWrites_concat _ _ _ _ above]
  exact congrArg (· ++ [(pageId, pageData)]) held

theorem runInvariant_openNextWalPage
    (invariant : RunInvariant { manager := manager, accepted := accepted })
    (room : walFull manager = false) :
    RunInvariant { manager := openNextWalPage manager, accepted := accepted } := by
  obtain ⟨log, holds, held⟩ := invariant
  refine ⟨_, walInvariant_openNextWalPage holds room, ?_⟩
  rw [← held]
  simp [pendingWrites, logEntries, openNextWalPage]

theorem RunInvariant.used_le {run : WalRun} (invariant : RunInvariant run) :
    usedBytes run.manager.memory run.manager.header.walCurrentPage ≤ pageSize := by
  obtain ⟨log, holds, _⟩ := invariant
  obtain ⟨older, entries, rfl⟩ := holds.exists_last
  have current := holds.ring.holds _ entries (List.mem_append_right _ List.mem_cons_self)
  rw [current.used]
  exact current.fits

theorem used_openNextWalPage
    (invariant : RunInvariant { manager := manager, accepted := accepted })
    (room : walFull manager = false) :
    usedBytes (openNextWalPage manager).memory
      (openNextWalPage manager).header.walCurrentPage = walPageSize := by
  obtain ⟨log, holds, _⟩ := invariant
  have opened := walInvariant_openNextWalPage holds room
  have current := opened.ring.holds _ [] (List.mem_append_right _ List.mem_cons_self)
  rw [current.used]
  rfl

theorem runInvariant_write {pageId : Nat} {pageData : Bytes}
    (invariant : RunInvariant { manager := manager, accepted := accepted })
    (target : DataPage manager.header pageId)
    (replayable : StepReplayable manager (.write pageId pageData)) :
    RunInvariant
      (walStep { manager := manager, accepted := accepted } (.write pageId pageData)) := by
  rw [StepReplayable] at replayable
  rw [walStep, walWrite]
  by_cases large : pageSize < pageData.length
  · simpa [large] using invariant
  · have small : pageData.length ≤ pageSize := Nat.not_lt.mp large
    by_cases fits : entryFits manager pageData.length = true
    · have raised := (replayable small (Or.inl fits)).2
      have room := (entryFits_iff invariant.used_le).mp fits
      simpa [large, fits] using runInvariant_appendEntry invariant target raised room
    · cases full : walFull manager with
      | true => simpa [large, fits, full] using invariant
      | false =>
          obtain ⟨inEmptyPage, raised⟩ := replayable small (Or.inr (by simp [full]))
          have opened := runInvariant_openNextWalPage invariant full
          have room : usedBytes (openNextWalPage manager).memory
              (openNextWalPage manager).header.walCurrentPage + walEntrySize +
                pageData.length ≤ pageSize := by
            rw [used_openNextWalPage invariant full]
            exact inEmptyPage
          have appended := runInvariant_appendEntry opened target raised room
          simpa [large, fits, full] using appended

theorem pendingWrites_eq_nil {log : WalLog} (holds : WalInvariant manager log)
    {mark : UInt64} (atClock : mark = manager.header.transactionId) :
    pendingWrites mark log = [] := by
  apply pending_eq_nil
  intro record member
  obtain ⟨entry, found, rfl⟩ := List.mem_map.mp member
  rw [atClock]
  exact holds.stamped entry found

theorem runInvariant_checkpoint
    (invariant : RunInvariant { manager := manager, accepted := accepted }) :
    RunInvariant (walStep { manager := manager, accepted := accepted } .checkpoint) := by
  obtain ⟨log, holds, held⟩ := invariant
  rw [walStep, checkpoint]
  split
  · rename_i already
    exact ⟨log, holds, pendingWrites_eq_nil holds already.2⟩
  · obtain ⟨older, entries, rfl⟩ := holds.exists_last
    have kept := walInvariant_updateCheckpoint holds
    exact ⟨_, kept, pendingWrites_eq_nil kept rfl⟩

theorem runInvariant_step {run : WalRun} {step : WalStep} (invariant : RunInvariant run)
    (allowed : StepAllowed run.manager step) (replayable : StepReplayable run.manager step) :
    RunInvariant (walStep run step) := by
  obtain ⟨manager, accepted⟩ := run
  cases step with
  | raiseTransaction id =>
      obtain ⟨log, holds, held⟩ := invariant
      exact ⟨log, walInvariant_raiseTransaction holds allowed, held⟩
  | write pageId pageData => exact runInvariant_write invariant allowed replayable
  | checkpoint => exact runInvariant_checkpoint invariant

end Steps

theorem runInvariant_walRun {run : WalRun} {steps : List WalStep} (invariant : RunInvariant run)
    (allowed : EachStep StepAllowed run steps)
    (replayable : EachStep StepReplayable run steps) :
    RunInvariant (walRun run steps) := by
  induction steps generalizing run with
  | nil => exact invariant
  | cons step steps ih =>
      have stepped := runInvariant_step invariant allowed.1 replayable.1
      exact ih stepped allowed.2 replayable.2

theorem runInvariant_initNewFile (initialSize : UInt64) :
    RunInvariant { manager := initNewFile initialSize, accepted := [] } :=
  ⟨_, walInvariant_initNewFile initialSize, rfl⟩

/-- After every run on a new file whose accepted writes fit a WAL page and carry
a transaction id raised since the last checkpoint, recovery applies exactly the
writes accepted since that checkpoint, in order. -/
theorem recoversAccepted_of_replayable (initialSize : UInt64) (steps : List WalStep)
    (allowed : EachStep StepAllowed (newFileRun initialSize []) steps)
    (replayable : EachStep StepReplayable (newFileRun initialSize []) steps) :
    RecoversAccepted (newFileRun initialSize steps) := by
  have start := runInvariant_initNewFile initialSize
  exact (runInvariant_walRun start allowed replayable).recoversAccepted

theorem recoversAccepted_of_replayable_oneWrite :
    RecoversAccepted (newFileRun 0 [.raiseTransaction 2, .write 300 [7]]) := by
  have room : walPageSize + walEntrySize + [(7 : UInt8)].length ≤ pageSize := by decide
  have target : DataPage (initNewFile 0).header 300 := by decide
  apply recoversAccepted_of_replayable 0 [.raiseTransaction 2, .write 300 [7]]
  · have raised : (1 : UInt64) ≤ 2 := by decide
    exact ⟨raised, target, trivial⟩
  · exact ⟨trivial, fun _ _ => ⟨room, by decide⟩, trivial⟩

theorem usedBytes_initNewFile (initialSize : UInt64) :
    usedBytes (initNewFile initialSize).memory (initNewFile initialSize).header.walCurrentPage =
      walPageSize :=
  ((walInvariant_initNewFile initialSize).ring.holds _ [] List.mem_cons_self).used

theorem walWrite_initNewFile {initialSize : UInt64} {pageId : Nat} {pageData : Bytes}
    (inEmptyPage : walPageSize + walEntrySize + pageData.length ≤ pageSize) :
    walWrite (initNewFile initialSize) pageId pageData =
      (0, appendEntry (initNewFile initialSize) pageId pageData) := by
  have invariant := runInvariant_initNewFile initialSize
  have fits : entryFits (initNewFile initialSize) pageData.length = true := by
    apply (entryFits_iff invariant.used_le).mpr
    rw [usedBytes_initNewFile]
    exact inEmptyPage
  have small : ¬ pageSize < pageData.length := by omega
  simp [walWrite, fits, small]

theorem walRecover_memory_of_atClock {manager : PageManager} {log : WalLog}
    (holds : WalInvariant manager log)
    (atClock : manager.header.lastCheckpoint = manager.header.transactionId) :
    (walRecover manager).2.memory = manager.memory := by
  rw [walRecover_eq holds, pendingWrites_eq_nil holds atClock]
  rfl

/-- On a new file `transaction_id` and `last_checkpoint` are both 1, so an entry
written before the id is raised is not replayed. -/
theorem not_recoversAccepted_firstWrite :
    EachStep StepAllowed (newFileRun 0 []) [.write 300 [7]] ∧
      ¬ RecoversAccepted (newFileRun 0 [.write 300 [7]]) := by
  have target : DataPage (initNewFile 0).header 300 := by decide
  refine ⟨⟨target, trivial⟩, ?_⟩
  have written : newFileRun 0 [.write 300 [7]] =
      { manager := appendEntry (initNewFile 0) 300 [7], accepted := [(300, [7])] } := by
    have first : walWrite (initNewFile 0) 300 [7] = _ := walWrite_initNewFile (by decide)
    simp [newFileRun, walRun, walStep, first]
  have invariant := walInvariant_initNewFile 0
  have fits : usedBytes (initNewFile 0).memory (initNewFile 0).header.walCurrentPage +
      walEntrySize + [(7 : UInt8)].length ≤ pageSize := by
    rw [usedBytes_initNewFile]
    decide
  obtain ⟨older, entries, shape⟩ := invariant.exists_last
  rw [shape] at invariant
  have lost := walRecover_memory_of_atClock (walInvariant_appendEntry invariant target fits) rfl
  have unchanged : (appendEntry (initNewFile 0) 300 [7]).memory (pageAddress 300) = 0 := by
    have behind : (initNewFile 0).header.rootDirectoryPage < 300 := by decide
    have inPage : 0 < pageSize := by decide
    have different : 300 ≠ (initNewFile 0).header.walCurrentPage := by decide
    have inside : pageAddress 300 < pageAddress 300 + pageSize := by omega
    rw [agreeOn_appendEntry different fits _ (le_refl _) inside]
    have zero : (initNewFile 0).memory (pageAddress 300 + 0) = 0 :=
      initNewFile_zero behind inPage
    rwa [Nat.add_zero] at zero
  rw [written]
  rintro ⟨_, recovered⟩
  have same := recovered 300 target
  simp only [lost] at same
  have applied : applyWrites [(300, [7])] (appendEntry (initNewFile 0) 300 [7]).memory
      (pageAddress 300) = 7 := by
    simp [writeBytes]
  have bytes := congrArg List.head? same
  rw [head?_pageContents, head?_pageContents, unchanged, applied] at bytes
  exact absurd bytes (by decide)

end Jdbx
