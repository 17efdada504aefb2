import Mathlib.Order.Nat
import Jdbx.Library.RedoLog
import Jdbx.Storage.WalPage

/-!
# What recovery brings back

The WAL pages from the checkpoint page to the current page form a log, and
`jdbx_wal_recover` applies the entries of the log whose transaction id is above
`last_checkpoint`.  The walk is one round for each page, and each round leaves
the pages that are still to be read as they were.
-/

namespace Jdbx

open Library

def InRing (header : Header) (page : Nat) : Prop :=
  header.walStartPage ≤ page ∧ page < header.walStartPage + walPages

def DataPage (header : Header) (page : Nat) : Prop :=
  page ≠ 0 ∧
    ¬ (header.bitmapStartPage ≤ page ∧
      page < header.bitmapStartPage + calculateBitmapPages header.totalPages) ∧
    ¬ InRing header page ∧
    page < header.totalPages

instance (header : Header) (page : Nat) : Decidable (InRing header page) :=
  inferInstanceAs (Decidable (_ ∧ _))

instance (header : Header) (page : Nat) : Decidable (DataPage header page) :=
  inferInstanceAs (Decidable (_ ∧ _))

/-- The regions in the order in which `init_new_file` places them. -/
structure LaidOut (header : Header) : Prop where
  bitmap : header.bitmapStartPage = 1
  wal : header.walStartPage = 1 + calculateBitmapPages header.totalPages
  room : header.walStartPage + walPages < header.totalPages
  total : header.totalPages < 2 ^ 64

variable {header : Header} {entries : List WalEntry}

theorem nextWalPage_inRing {page : Nat} (inRing : InRing header page) :
    InRing header (nextWalPage header page) := by
  have positive : 0 < walPages := by decide
  simp only [InRing, nextWalPage] at inRing ⊢
  split <;> omega

theorem nextWalPage_injective {left right : Nat} (leftInRing : InRing header left)
    (rightInRing : InRing header right)
    (same : nextWalPage header left = nextWalPage header right) : left = right := by
  simp only [InRing, nextWalPage] at leftInRing rightInRing same
  split at same <;> split at same <;> omega

theorem nextWalPage_not_mem {pages : List Nat} (inRing : ∀ page ∈ pages, InRing header page)
    (path : RingPath (nextWalPage header) pages)
    (starts : pages.head? = some header.walCheckpointPage)
    (ends : pages.getLast? = some header.walCurrentPage) (nodup : pages.Nodup)
    (room : nextWalPage header header.walCurrentPage ≠ header.walCheckpointPage) :
    nextWalPage header header.walCurrentPage ∉ pages := by
  cases pages with
  | nil => cases starts
  | cons first pages =>
      have head : first = header.walCheckpointPage := by simpa using starts
      rw [← head] at room
      refine path.next_last_not_mem nodup ?_ ends room
      intro left leftMember right rightMember same
      exact nextWalPage_injective (inRing left leftMember) (inRing right rightMember) same

def walRecord (entry : WalEntry) : Nat × (Nat × Bytes) :=
  (entry.transactionId.toNat, (entry.pageId, entry.data))

def applyWrites (writes : List (Nat × Bytes)) (memory : Memory) : Memory :=
  writes.foldl (fun memory write => writeBytes memory (pageAddress write.1) write.2) memory

@[simp]
theorem applyWrites_nil (memory : Memory) : applyWrites [] memory = memory :=
  rfl

@[simp]
theorem applyWrites_cons (write : Nat × Bytes) (writes : List (Nat × Bytes))
    (memory : Memory) :
    applyWrites (write :: writes) memory =
      applyWrites writes (writeBytes memory (pageAddress write.1) write.2) :=
  rfl

theorem applyWrites_append (older newer : List (Nat × Bytes)) (memory : Memory) :
    applyWrites (older ++ newer) memory = applyWrites newer (applyWrites older memory) :=
  List.foldl_append

/-- A write to another page that stays inside its page. -/
structure Elsewhere (page : Nat) (write : Nat × Bytes) : Prop where
  different : write.1 ≠ page
  inside : write.2.length ≤ pageSize

theorem agreeOn_applyWrites {page : Nat} {writes : List (Nat × Bytes)}
    (elsewhere : ∀ write ∈ writes, Elsewhere page write) (memory : Memory) :
    AgreeOn (applyWrites writes memory) memory page := by
  induction writes generalizing memory with
  | nil => exact AgreeOn.refl memory page
  | cons write writes ih =>
      have rest := ih
        (fun other member => elsewhere other (List.mem_cons_of_mem write member))
        (writeBytes memory (pageAddress write.1) write.2)
      have head := elsewhere write List.mem_cons_self
      have inside := head.inside
      apply rest.trans
      exact agreeOn_writeBytes head.different.symm (le_refl _) (by omega)

theorem PageHolds.data_length_le {memory : Memory} {page : Nat}
    (pageHolds : PageHolds memory page entries) {entry : WalEntry} (member : entry ∈ entries) :
    entry.data.length ≤ pageSize := by
  obtain ⟨older, newer, rfl⟩ := List.append_of_mem member
  have fits := pageHolds.fits
  rw [encodeEntries_append, encodeEntries_cons, List.length_append, List.length_append,
    length_encodeEntry] at fits
  omega

/-- The loop over a WAL page applies its entries above the mark.  The induction
is on the entries that are left, `done` are the ones behind the counter. -/
theorem recoverEntries_eq {page : Nat} (total : header.totalPages < 2 ^ 64) (done : List WalEntry)
    {rounds : Nat} {memory : Memory} (pageHolds : PageHolds memory page (done ++ entries))
    (enough : entries.length ≤ rounds)
    (targets : ∀ entry ∈ entries, entry.pageId < header.totalPages ∧ entry.pageId ≠ page) :
    recoverEntries header page rounds done.length
        (walPageSize + (encodeEntries done).length) memory =
      (none,
        applyWrites (pending header.lastCheckpoint.toNat (entries.map walRecord)) memory) := by
  induction entries generalizing done rounds memory with
  | nil =>
      cases rounds with
      | zero => rfl
      | succ rounds =>
          have finished : ¬ done.length < entryCount memory page := by
            rw [pageHolds.counted]
            simp
          simp [recoverEntries, finished]
  | cons entry entries ih =>
      obtain ⟨rounds, rfl⟩ : ∃ fewer, rounds = fewer + 1 :=
        ⟨rounds - 1, by simp only [List.length_cons] at enough; omega⟩
      have more : done.length < entryCount memory page := by
        rw [pageHolds.counted]
        simp
      have target := targets entry List.mem_cons_self
      have inside : entry.data.length ≤ pageSize := pageHolds.data_length_le (by simp)
      have split : done ++ entry :: entries = done ++ [entry] ++ entries := by simp
      have holds := pageHolds.holds
      rw [encodeEntries_append, encodeEntries_cons, holds_append, holds_append,
        Nat.add_assoc] at holds
      have fields := entryFields_of_holds holds.2.1 (by omega)
        (by simp only [pageSize] at inside; omega)
      have counter : done.length + 1 = (done ++ [entry]).length := by simp
      have offset : walPageSize + (encodeEntries done).length + walEntrySize +
          entry.data.length = walPageSize + (encodeEntries (done ++ [entry])).length := by
        rw [encodeEntries_append, List.length_append, encodeEntries_cons, encodeEntries_nil,
          List.append_nil, length_encodeEntry]
        omega
      have enough' : entries.length ≤ rounds := by
        simp only [List.length_cons] at enough
        omega
      have targets' : ∀ other ∈ entries,
          other.pageId < header.totalPages ∧ other.pageId ≠ page :=
        fun other member => targets other (List.mem_cons_of_mem entry member)
      rw [split] at pageHolds
      rw [recoverEntries, if_pos more]
      simp only [fields.transactionId, fields.size, fields.pageId, fields.checksum,
        fields.data, offset, counter]
      by_cases above : header.lastCheckpoint.toNat < entry.transactionId.toNat
      · have agree : AgreeOn memory
            (writeBytes memory (pageAddress entry.pageId) entry.data) page := by
          intro address pageAbove pageBelow
          have kept : AgreeOn (writeBytes memory (pageAddress entry.pageId) entry.data)
              memory page :=
            agreeOn_writeBytes target.2.symm (le_refl _) (by omega)
          exact (kept address pageAbove pageBelow).symm
        have rest := ih _ (pageHolds.congr agree) enough' targets'
        have recordAbove : header.lastCheckpoint.toNat < (walRecord entry).1 := above
        rw [if_pos above, if_neg (by simp), if_pos target.1, rest, List.map_cons,
          pending_cons_of_lt recordAbove]
        rfl
      · have rest := ih _ pageHolds enough' targets'
        have recordBelow : (walRecord entry).1 ≤ header.lastCheckpoint.toNat :=
          Nat.not_lt.mp above
        rw [if_neg above, rest, List.map_cons, pending_cons_of_le recordBelow]

/-! ## Recovery of the log -/

abbrev WalLog := List (Nat × List WalEntry)

def logPages (log : WalLog) : List Nat :=
  log.map Prod.fst

def logEntries (log : WalLog) : List WalEntry :=
  log.flatMap Prod.snd

def pendingWrites (mark : UInt64) (log : WalLog) : List (Nat × Bytes) :=
  pending mark.toNat ((logEntries log).map walRecord)

@[simp]
theorem logPages_append (older newer : WalLog) :
    logPages (older ++ newer) = logPages older ++ logPages newer :=
  List.map_append

theorem logPages_concat (log : WalLog) (page : Nat) (entries : List WalEntry) :
    logPages (log ++ [(page, entries)]) = logPages log ++ [page] := by
  simp [logPages]

@[simp]
theorem logEntries_append (older newer : WalLog) :
    logEntries (older ++ newer) = logEntries older ++ logEntries newer :=
  List.flatMap_append

theorem pendingWrites_cons (mark : UInt64) (page : Nat) (entries : List WalEntry)
    (log : WalLog) :
    pendingWrites mark ((page, entries) :: log) =
      pending mark.toNat (entries.map walRecord) ++ pendingWrites mark log := by
  simp [pendingWrites, logEntries, pending_append]

theorem mem_pending_of_mem {mark : Nat} {write : Nat × Bytes}
    (member : write ∈ pending mark (entries.map walRecord)) :
    ∃ entry ∈ entries, (entry.pageId, entry.data) = write := by
  simp only [pending, List.mem_map, List.mem_filter] at member
  obtain ⟨record, ⟨⟨entry, found, rfl⟩, _⟩, rfl⟩ := member
  exact ⟨entry, found, rfl⟩

/-- The ring holds the pages of a log, and the entries of the log target data
pages. -/
structure RingHolds (header : Header) (memory : Memory) (log : WalLog) : Prop where
  inRing : ∀ page ∈ logPages log, InRing header page
  holds : ∀ page entries, (page, entries) ∈ log → PageHolds memory page entries
  targets : ∀ entry ∈ logEntries log, DataPage header entry.pageId

section RingHolds

variable {header : Header} {memory other : Memory} {log : WalLog} {entries : List WalEntry}

theorem RingHolds.concat (ring : RingHolds header memory log) {page : Nat}
    (inRing : InRing header page) (pageHolds : PageHolds memory page entries)
    (targets : ∀ entry ∈ entries, DataPage header entry.pageId) :
    RingHolds header memory (log ++ [(page, entries)]) := by
  refine ⟨?_, ?_, ?_⟩
  · intro tested member
    rw [logPages_append] at member
    rcases List.mem_append.mp member with older | newer
    · exact ring.inRing tested older
    · have same : tested = page := by simpa [logPages] using newer
      rw [same]
      exact inRing
  · intro tested others member
    rcases List.mem_append.mp member with older | newer
    · exact ring.holds tested others older
    · cases List.mem_singleton.mp newer
      exact pageHolds
  · intro entry member
    rw [logEntries_append] at member
    rcases List.mem_append.mp member with older | newer
    · exact ring.targets entry older
    · exact targets entry (by simpa [logEntries] using newer)

theorem RingHolds.initial {newer : WalLog} (ring : RingHolds header memory (log ++ newer)) :
    RingHolds header memory log := by
  refine ⟨?_, ?_, ?_⟩
  · intro page member
    apply ring.inRing
    rw [logPages_append]
    exact List.mem_append_left _ member
  · intro page entries member
    exact ring.holds page entries (List.mem_append_left _ member)
  · intro entry member
    apply ring.targets
    rw [logEntries_append]
    exact List.mem_append_left _ member

theorem RingHolds.final {older : WalLog} (ring : RingHolds header memory (older ++ log)) :
    RingHolds header memory log := by
  refine ⟨?_, ?_, ?_⟩
  · intro page member
    apply ring.inRing
    rw [logPages_append]
    exact List.mem_append_right _ member
  · intro page entries member
    exact ring.holds page entries (List.mem_append_right _ member)
  · intro entry member
    apply ring.targets
    rw [logEntries_append]
    exact List.mem_append_right _ member

theorem RingHolds.tail {page : Nat × List WalEntry}
    (ring : RingHolds header memory (page :: log)) : RingHolds header memory log :=
  RingHolds.final (show RingHolds header memory ([page] ++ log) from ring)

theorem RingHolds.congr (ring : RingHolds header memory log)
    (agree : ∀ page ∈ logPages log, AgreeOn memory other page) :
    RingHolds header other log := by
  refine ⟨ring.inRing, ?_, ring.targets⟩
  intro page entries member
  have inLog : page ∈ logPages log := List.mem_map_of_mem member
  exact (ring.holds page entries member).congr (agree page inLog)

theorem RingHolds.elsewhere (ring : RingHolds header memory log) {entry : WalEntry}
    (member : entry ∈ logEntries log) {page : Nat} (inRing : InRing header page) :
    Elsewhere page (entry.pageId, entry.data) := by
  constructor
  · rintro rfl
    exact (ring.targets entry member).2.2.1 inRing
  · obtain ⟨⟨page, entries⟩, inLog, inPage⟩ := List.mem_flatMap.mp member
    exact (ring.holds page entries inLog).data_length_le inPage

theorem recoverPages_succ (layout : LaidOut header) {page rounds : Nat}
    (ring : RingHolds header memory ((page, entries) :: log)) :
    recoverPages header (rounds + 1) page memory =
      let behind :=
        applyWrites (pending header.lastCheckpoint.toNat (entries.map walRecord)) memory
      if page = header.walCurrentPage then (none, behind)
      else recoverPages header rounds (nextWalPage header page) behind := by
  have inRing : InRing header page := ring.inRing page List.mem_cons_self
  have pageHolds := ring.holds page entries List.mem_cons_self
  have inFile : ¬ header.totalPages ≤ page := by
    have room := layout.room
    simp only [InRing] at inRing
    omega
  have enough : entries.length ≤ 2 ^ 32 := by
    have fits := pageHolds.fits
    have bound := length_le_encodeEntries entries
    simp only [walPageSize, pageSize, walEntrySize] at fits bound
    omega
  have inLog (entry : WalEntry) (member : entry ∈ entries) :
      entry ∈ logEntries ((page, entries) :: log) := by
    rw [logEntries, List.flatMap_cons]
    exact List.mem_append_left _ member
  have targets : ∀ entry ∈ entries,
      entry.pageId < header.totalPages ∧ entry.pageId ≠ page := by
    intro entry member
    have target := ring.targets entry (inLog entry member)
    exact ⟨target.2.2.2, (ring.elsewhere (inLog entry member) inRing).different⟩
  have recovered : recoverEntries header page (2 ^ 32) 0 walPageSize memory = _ :=
    recoverEntries_eq layout.total [] pageHolds enough targets
  rw [recoverPages, if_neg inFile, if_neg (by simp [pageHolds.typed]), recovered]

theorem RingHolds.applied (ring : RingHolds header memory log) {page : Nat}
    (ringHead : RingHolds header memory ((page, entries) :: log)) :
    RingHolds header
      (applyWrites (pending header.lastCheckpoint.toNat (entries.map walRecord)) memory) log := by
  apply ring.congr
  intro tested member
  apply AgreeOn.symm
  apply agreeOn_applyWrites
  intro write pendingWrite
  obtain ⟨entry, found, rfl⟩ := mem_pending_of_mem pendingWrite
  have inLog : entry ∈ logEntries ((page, entries) :: log) := by
    rw [logEntries, List.flatMap_cons]
    exact List.mem_append_left _ found
  exact ringHead.elsewhere inLog (ring.inRing tested member)

theorem recoverPages_eq (layout : LaidOut header) {first rounds : Nat}
    (ring : RingHolds header memory ((first, entries) :: log))
    (path : RingPath (nextWalPage header) (first :: logPages log))
    (ends : (first :: logPages log).getLast? = some header.walCurrentPage)
    (nodup : (first :: logPages log).Nodup) (enough : log.length + 1 ≤ rounds) :
    recoverPages header rounds first memory =
      (none,
        applyWrites (pendingWrites header.lastCheckpoint ((first, entries) :: log)) memory) := by
  induction log generalizing first entries rounds memory with
  | nil =>
      obtain ⟨rounds, rfl⟩ : ∃ fewer, rounds = fewer + 1 :=
        ⟨rounds - 1, by omega⟩
      have last : first = header.walCurrentPage := by simpa [logPages] using ends
      rw [recoverPages_succ layout ring, pendingWrites_cons]
      simp [last, pendingWrites, logEntries]
  | cons following log ih =>
      obtain ⟨second, others⟩ := following
      obtain ⟨rounds, rfl⟩ : ∃ fewer, rounds = fewer + 1 :=
        ⟨rounds - 1, by omega⟩
      have follows : nextWalPage header first = second :=
        (List.isChain_cons_cons.mp path).1
      have fresh : first ∉ logPages ((second, others) :: log) := (List.nodup_cons.mp nodup).1
      have ends' : (logPages ((second, others) :: log)).getLast? =
          some header.walCurrentPage := by
        simpa [logPages] using ends
      have notLast : first ≠ header.walCurrentPage := by
        rintro rfl
        exact fresh (List.mem_of_getLast? ends')
      have enough' : log.length + 1 ≤ rounds := by
        simp only [List.length_cons] at enough
        omega
      have rest := ih (ring.tail.applied ring) path.tail ends'
        (List.nodup_cons.mp nodup).2 enough'
      rw [recoverPages_succ layout ring, pendingWrites_cons, applyWrites_append]
      simp only [if_neg notLast, follows, rest]

end RingHolds

end Jdbx
