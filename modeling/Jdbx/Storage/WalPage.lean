import Jdbx.Storage.PageManager

/-!
# The entries of a WAL page

`PageHolds memory page entries` says that a WAL page is well formed and holds
exactly `entries`.  It only depends on the bytes of the page, `appendEntry`
adds one entry to it, and the recovery loop reads the entries back.
-/

namespace Jdbx

open Library

def AgreeOn (memory other : Memory) (page : Nat) : Prop :=
  ∀ address, pageAddress page ≤ address → address < pageAddress page + pageSize →
    memory address = other address

variable {memory other : Memory} {page target : Nat} {entries : List WalEntry}
  {manager : PageManager}

theorem AgreeOn.refl (memory : Memory) (page : Nat) : AgreeOn memory memory page :=
  fun _ _ _ => rfl

theorem AgreeOn.symm (agree : AgreeOn memory other page) : AgreeOn other memory page :=
  fun address above below => (agree address above below).symm

theorem AgreeOn.trans {third : Memory} (first : AgreeOn memory other page)
    (second : AgreeOn other third page) : AgreeOn memory third page := by
  intro address above below
  rw [first address above below, second address above below]

theorem pageAddress_disjoint (different : page ≠ target) :
    pageAddress page + pageSize ≤ pageAddress target ∨
      pageAddress target + pageSize ≤ pageAddress page := by
  simp only [pageAddress, pageSize]
  omega

theorem agreeOn_writeBytes {start : Nat} {bytes : Bytes} (different : page ≠ target)
    (above : pageAddress target ≤ start)
    (below : start + bytes.length ≤ pageAddress target + pageSize) :
    AgreeOn (writeBytes memory start bytes) memory page := by
  intro address pageAbove pageBelow
  apply writeBytes_of_outside
  have apart := pageAddress_disjoint different
  omega

theorem agreeOn_writeNat {offset width value : Nat} (different : page ≠ target)
    (below : offset + width ≤ pageSize) :
    AgreeOn (writeNat memory (pageAddress target + offset) width value) memory page := by
  apply agreeOn_writeBytes different
  · omega
  · rw [length_littleEndian]
    omega

theorem agreeOn_sealPage (different : page ≠ target) :
    AgreeOn (sealPage memory target) memory page :=
  agreeOn_writeNat different (by decide)

/-! ## Entries -/

/-- A WAL entry, its size and checksum left to its data. -/
structure WalEntry where
  sequence : UInt64
  transactionId : UInt64
  pageId : Nat
  data : Bytes

/-- The bytes of `wal_entry_t` and of the data behind it. -/
def encodeEntry (entry : WalEntry) : Bytes :=
  littleEndian 8 entry.sequence.toNat ++
    (littleEndian 8 entry.transactionId.toNat ++
      (littleEndian 8 entry.pageId ++
        (littleEndian 4 entry.data.length ++
          (littleEndian 4 (crc32 entry.data).toNat ++ entry.data))))

def encodeEntries (entries : List WalEntry) : Bytes :=
  entries.flatMap encodeEntry

@[simp]
theorem length_encodeEntry (entry : WalEntry) :
    (encodeEntry entry).length = walEntrySize + entry.data.length := by
  simp only [encodeEntry, List.length_append, length_littleEndian, walEntrySize]
  omega

@[simp]
theorem encodeEntries_nil : encodeEntries [] = [] :=
  rfl

theorem encodeEntries_cons (entry : WalEntry) (entries : List WalEntry) :
    encodeEntries (entry :: entries) = encodeEntry entry ++ encodeEntries entries :=
  List.flatMap_cons

theorem encodeEntries_append (older newer : List WalEntry) :
    encodeEntries (older ++ newer) = encodeEntries older ++ encodeEntries newer :=
  List.flatMap_append

theorem length_le_encodeEntries (entries : List WalEntry) :
    walEntrySize * entries.length ≤ (encodeEntries entries).length := by
  induction entries with
  | nil => simp
  | cons entry entries ih =>
      rw [encodeEntries_cons, List.length_append, length_encodeEntry, List.length_cons,
        Nat.mul_succ]
      omega

/-- The entry that `jdbx_wal_write` builds. -/
def nextEntry (header : Header) (pageId : Nat) (pageData : Bytes) : WalEntry where
  sequence := header.walSequence
  transactionId := header.transactionId
  pageId := pageId
  data := pageData

/-- What the loop of `jdbx_wal_recover` reads of an entry. -/
structure EntryFields (memory : Memory) (address : Nat) (entry : WalEntry) : Prop where
  transactionId : readNat memory (address + 8) 8 = entry.transactionId.toNat
  pageId : readNat memory (address + 16) 8 = entry.pageId
  size : readNat memory (address + 24) 4 = entry.data.length
  checksum : readNat memory (address + 28) 4 = (crc32 entry.data).toNat
  data : readBytes memory (address + walEntrySize) entry.data.length = entry.data

theorem entryFields_of_holds {address : Nat} {entry : WalEntry}
    (holds : Holds memory address (encodeEntry entry))
    (pageBound : entry.pageId < 2 ^ 64) (sizeBound : entry.data.length < 2 ^ 32) :
    EntryFields memory address entry := by
  simp only [encodeEntry, holds_append, length_littleEndian] at holds
  obtain ⟨_, transactionId, pageId, size, checksum, data⟩ := holds
  have transactionBound : entry.transactionId.toNat < 256 ^ 8 := entry.transactionId.toNat_lt
  have checksumBound : (crc32 entry.data).toNat < 256 ^ 4 := (crc32 entry.data).toNat_lt
  refine ⟨?_, ?_, ?_, ?_, ?_⟩
  · exact transactionId.readNat transactionBound
  · exact pageId.readNat (by simpa using pageBound)
  · exact size.readNat (by simpa using sizeBound)
  · exact checksum.readNat checksumBound
  · exact data

/-- A WAL page with exactly these entries. -/
structure PageHolds (memory : Memory) (page : Nat) (entries : List WalEntry) : Prop where
  typed : walPageType memory page = pageTypeWal
  counted : entryCount memory page = entries.length
  used : usedBytes memory page = walPageSize + (encodeEntries entries).length
  fits : walPageSize + (encodeEntries entries).length ≤ pageSize
  holds : Holds memory (pageAddress page + walPageSize) (encodeEntries entries)

theorem AgreeOn.readNat (agree : AgreeOn memory other page) {start width : Nat}
    (above : pageAddress page ≤ start) (below : start + width ≤ pageAddress page + pageSize) :
    readNat memory start width = readNat other start width := by
  rw [Library.readNat, Library.readNat, readBytes_congr]
  intro tested testedAbove testedBelow
  apply agree <;> omega

theorem AgreeOn.walPageType_eq (agree : AgreeOn memory other page) :
    walPageType memory page = walPageType other page := by
  apply agree.readNat
  · exact le_refl _
  · simp only [pageSize]
    omega

theorem PageHolds.congr (pageHolds : PageHolds memory page entries)
    (agree : AgreeOn memory other page) : PageHolds other page entries := by
  have sameField (offset : Nat) (inside : offset + 4 ≤ pageSize) :
      readNat memory (pageAddress page + offset) 4 =
        readNat other (pageAddress page + offset) 4 := by
    apply agree.readNat <;> omega
  refine ⟨?_, ?_, ?_, pageHolds.fits, ?_⟩
  · rw [← agree.walPageType_eq, pageHolds.typed]
  · rw [← pageHolds.counted, entryCount, entryCount, sameField 72 (by decide)]
  · rw [← pageHolds.used, usedBytes, usedBytes, sameField 76 (by decide)]
  · apply pageHolds.holds.congr
    intro tested above below
    have fits := pageHolds.fits
    apply agree <;> omega

theorem pageHolds_empty (typed : walPageType memory page = pageTypeWal) :
    PageHolds (setUsedBytes (setEntryCount memory page 0) page walPageSize) page [] := by
  have usedSmall : walPageSize < 256 ^ 4 := by decide
  rw [walPageType] at typed
  refine ⟨?_, ?_, ?_, by decide, rfl⟩
  · rw [walPageType, setUsedBytes, setEntryCount, readNat_writeNat_of_disjoint (by omega),
      readNat_writeNat_of_disjoint (by omega), typed]
  · rw [entryCount, setUsedBytes, setEntryCount, readNat_writeNat_of_disjoint (by omega),
      readNat_writeNat_self (by decide), List.length_nil]
  · rw [usedBytes, setUsedBytes, readNat_writeNat_self usedSmall, encodeEntries_nil,
      List.length_nil, Nat.add_zero]

theorem walPageType_setSequence (memory : Memory) (page : Nat) (first last : UInt64) :
    walPageType (setSequenceEnd (setSequenceStart memory page first) page last) page =
      walPageType memory page := by
  rw [walPageType, setSequenceEnd, setSequenceStart, readNat_writeNat_of_disjoint (by omega),
    readNat_writeNat_of_disjoint (by omega), walPageType]

theorem pageHolds_openNextWalPage
    (typed : walPageType manager.memory (openNextWalPage manager).header.walCurrentPage =
      pageTypeWal) :
    PageHolds (openNextWalPage manager).memory (openNextWalPage manager).header.walCurrentPage
      [] := by
  apply pageHolds_empty
  rw [walPageType_setSequence]
  exact typed

theorem agreeOn_openNextWalPage
    (different : page ≠ (openNextWalPage manager).header.walCurrentPage) :
    AgreeOn (openNextWalPage manager).memory manager.memory page := by
  refine (agreeOn_writeNat different (by decide)).trans ?_
  refine (agreeOn_writeNat different (by decide)).trans ?_
  refine (agreeOn_writeNat different (by decide)).trans ?_
  exact agreeOn_writeNat different (by decide)

theorem writeEntry_eq (memory : Memory) (address : Nat) (entry : WalEntry) :
    writeBytes
        (writeNat
          (writeNat
            (writeNat
              (writeNat (writeNat memory address 8 entry.sequence.toNat) (address + 8) 8
                entry.transactionId.toNat)
              (address + 16) 8 entry.pageId)
            (address + 24) 4 entry.data.length)
          (address + 28) 4 (crc32 entry.data).toNat)
        (address + walEntrySize) entry.data =
      writeBytes memory address (encodeEntry entry) := by
  have behind (front back : Bytes) (memory : Memory) {start : Nat}
      (follows : start = address + front.length) :
      writeBytes (writeBytes memory address front) start back =
        writeBytes memory address (front ++ back) := by
    rw [follows, writeBytes_append]
  simp only [writeNat]
  rw [behind _ _ _ (by simp), behind _ _ _ (by simp), behind _ _ _ (by simp),
    behind _ _ _ (by simp), behind _ _ _ (by simp [walEntrySize])]
  simp [encodeEntry]

/-- The memory behind `appendEntry`, before the page is sealed. -/
def appendedMemory (manager : PageManager) (pageId : Nat) (pageData : Bytes) : Memory :=
  let page := manager.header.walCurrentPage
  let entry := nextEntry manager.header pageId pageData
  let memory :=
    writeBytes manager.memory (pageAddress page + usedBytes manager.memory page)
      (encodeEntry entry)
  let memory := setSequenceEnd memory page manager.header.walSequence
  let memory := setEntryCount memory page (entryCount memory page + 1)
  setUsedBytes memory page (usedBytes memory page + walEntrySize + pageData.length)

theorem appendEntry_eq (manager : PageManager) (pageId : Nat) (pageData : Bytes) :
    appendEntry manager pageId pageData =
      { header :=
          { manager.header with walSequence := manager.header.walSequence + 1 }
        memory :=
          sealPage (appendedMemory manager pageId pageData) manager.header.walCurrentPage } := by
  have encoded :=
    writeEntry_eq manager.memory
      (pageAddress manager.header.walCurrentPage +
        usedBytes manager.memory manager.header.walCurrentPage)
      (nextEntry manager.header pageId pageData)
  simp only [nextEntry] at encoded
  simp only [appendEntry, appendedMemory, nextEntry, encoded]

theorem agreeOn_appendEntry {pageId : Nat} {pageData : Bytes}
    (different : page ≠ manager.header.walCurrentPage)
    (fits : usedBytes manager.memory manager.header.walCurrentPage + walEntrySize +
      pageData.length ≤ pageSize) :
    AgreeOn (appendEntry manager pageId pageData).memory manager.memory page := by
  rw [appendEntry_eq]
  refine (agreeOn_sealPage different).trans ?_
  refine (agreeOn_writeNat different (by decide)).trans ?_
  refine (agreeOn_writeNat different (by decide)).trans ?_
  refine (agreeOn_writeNat different (by decide)).trans ?_
  apply agreeOn_writeBytes different
  · omega
  · simp only [length_encodeEntry, nextEntry]
    omega

theorem PageHolds.sealPage (pageHolds : PageHolds memory page entries) :
    PageHolds (sealPage memory page) page entries := by
  obtain ⟨typed, counted, used, fits, holds⟩ := pageHolds
  refine ⟨?_, ?_, ?_, fits, ?_⟩
  · rw [walPageType, Jdbx.sealPage, readNat_writeNat_of_disjoint (by omega)]
    exact typed
  · rw [entryCount, Jdbx.sealPage, readNat_writeNat_of_disjoint (by omega)]
    exact counted
  · rw [usedBytes, Jdbx.sealPage, readNat_writeNat_of_disjoint (by omega)]
    exact used
  · apply holds.writeNat
    simp only [walPageSize]
    omega

theorem pageHolds_of_counted (entry : WalEntry) {sequence : UInt64}
    (typed : walPageType memory page = pageTypeWal)
    (counted : entryCount memory page = entries.length)
    (used : usedBytes memory page = walPageSize + (encodeEntries entries).length)
    (fits : walPageSize + (encodeEntries (entries ++ [entry])).length ≤ pageSize)
    (holds : Holds memory (pageAddress page + walPageSize)
      (encodeEntries (entries ++ [entry]))) :
    let sequenced := setSequenceEnd memory page sequence
    let counted := setEntryCount sequenced page (entryCount sequenced page + 1)
    PageHolds
      (setUsedBytes counted page
        (usedBytes counted page + walEntrySize + entry.data.length))
      page (entries ++ [entry]) := by
  have grown : (encodeEntries (entries ++ [entry])).length =
      (encodeEntries entries).length + walEntrySize + entry.data.length := by
    rw [encodeEntries_append, List.length_append, encodeEntries_cons, encodeEntries_nil,
      List.append_nil, length_encodeEntry, Nat.add_assoc]
  have countBound := length_le_encodeEntries (entries ++ [entry])
  have lengthGrown : (entries ++ [entry]).length = entries.length + 1 := by simp
  simp only [walPageType, entryCount, usedBytes] at typed counted used
  simp only [walPageSize, walEntrySize, pageSize, lengthGrown] at fits countBound grown used
  have countedSmall : entries.length + 1 < 256 ^ 4 := by
    simp only [Nat.reducePow]
    omega
  have usedSmall : 80 + (encodeEntries entries).length + 32 + entry.data.length < 256 ^ 4 := by
    simp only [Nat.reducePow]
    omega
  have countRead :
      readNat (writeNat memory (pageAddress page + 64) 8 sequence.toNat)
        (pageAddress page + 72) 4 = entries.length := by
    rw [readNat_writeNat_of_disjoint (by omega), counted]
  have usedRead (count : Nat) :
      readNat
        (writeNat (writeNat memory (pageAddress page + 64) 8 sequence.toNat)
          (pageAddress page + 72) 4 count)
        (pageAddress page + 76) 4 = 80 + (encodeEntries entries).length := by
    rw [readNat_writeNat_of_disjoint (by omega), readNat_writeNat_of_disjoint (by omega), used]
  simp only [setUsedBytes, setEntryCount, setSequenceEnd, entryCount, usedBytes, countRead,
    usedRead, walEntrySize]
  constructor
  · rw [walPageType, readNat_writeNat_of_disjoint (by omega),
      readNat_writeNat_of_disjoint (by omega), readNat_writeNat_of_disjoint (by omega), typed]
  · rw [entryCount, readNat_writeNat_of_disjoint (by omega), readNat_writeNat_self countedSmall,
      lengthGrown]
  · rw [usedBytes, readNat_writeNat_self usedSmall, grown, walPageSize]
    omega
  · exact fits
  · apply Holds.writeNat _ (Or.inr (by simp only [walPageSize]; omega))
    apply Holds.writeNat _ (Or.inr (by simp only [walPageSize]; omega))
    apply holds.writeNat (Or.inr (by simp only [walPageSize]; omega))

theorem pageHolds_appendEntry (pageId : Nat) {pageData : Bytes}
    (pageHolds : PageHolds manager.memory manager.header.walCurrentPage entries)
    (fits : usedBytes manager.memory manager.header.walCurrentPage + walEntrySize +
      pageData.length ≤ pageSize) :
    PageHolds (appendEntry manager pageId pageData).memory manager.header.walCurrentPage
      (entries ++ [nextEntry manager.header pageId pageData]) := by
  obtain ⟨typed, counted, used, _, holds⟩ := pageHolds
  rw [appendEntry_eq]
  apply PageHolds.sealPage
  rw [appendedMemory, used]
  rw [used] at fits
  generalize manager.header.walCurrentPage = page at *
  have behindFields : pageAddress page + 80 ≤
      pageAddress page + (walPageSize + (encodeEntries entries).length) := by
    simp only [walPageSize]
    omega
  apply pageHolds_of_counted (nextEntry manager.header pageId pageData)
  · rw [← typed, walPageType, readNat_writeBytes_of_disjoint (by omega), walPageType]
  · rw [← counted, entryCount, readNat_writeBytes_of_disjoint (by omega), entryCount]
  · rw [← used, usedBytes, readNat_writeBytes_of_disjoint (by omega), usedBytes]
  · rw [encodeEntries_append, List.length_append, encodeEntries_cons, encodeEntries_nil,
      List.append_nil, length_encodeEntry, ← Nat.add_assoc, ← Nat.add_assoc]
    exact fits
  · rw [encodeEntries_append, encodeEntries_cons, encodeEntries_nil, List.append_nil,
      holds_append, Nat.add_assoc]
    constructor
    · exact holds.writeBytes (Or.inl (by omega))
    · exact holds_writeBytes_self _ _ _

end Jdbx
