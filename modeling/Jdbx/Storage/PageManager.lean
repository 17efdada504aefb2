import Jdbx.Library.Memory

/-!
# The page manager and its integrated WAL

The file header is the record `Header`; the pages behind it are the bytes of
the mapped file at their offsets, as the packed structures of `jdbx.h` lay them
out.  A WAL page has the 56 bytes of `page_header_t`, then `wal_sequence_start`,
`wal_sequence_end`, `entry_count` and `used_bytes`, and its entries from byte 80
on.  `msync` succeeds, and the lock around each call makes it one step.
-/

namespace Jdbx

open Library

/-- One of the eight rounds of `init_crc32_table`. -/
def crc32Round (crc : UInt32) : UInt32 :=
  (crc >>> 1) ^^^ (if crc &&& 1 = 1 then 0xEDB88320 else 0)

/-- The entry of `crc32_table` for a byte. -/
def crc32Table (byte : UInt32) : UInt32 :=
  (List.range 8).foldl (fun crc _ => crc32Round crc) byte

def crc32 (data : Bytes) : UInt32 :=
  let start : UInt32 := 0xFFFFFFFF
  let step (crc : UInt32) (byte : UInt8) : UInt32 :=
    (crc >>> 8) ^^^ crc32Table ((crc ^^^ byte.toUInt32) &&& 0xFF)
  data.foldl step start ^^^ 0xFFFFFFFF

/-! ## The file -/

def pageSize : Nat := 4096

def walPages : Nat := 256

def pageTypeDirectory : Nat := 3

def pageTypeWal : Nat := 8

/-- `sizeof(wal_page_t)`. -/
def walPageSize : Nat := 80

/-- `sizeof(wal_entry_t)`. -/
def walEntrySize : Nat := 32

/-- The fields of `jdbx_header_t` that the page manager computes. -/
structure Header where
  totalPages : Nat
  freePages : Nat
  rootDirectoryPage : Nat
  bitmapStartPage : Nat
  transactionId : UInt64
  lastCheckpoint : UInt64
  walStartPage : Nat
  walCurrentPage : Nat
  walCurrentOffset : Nat
  walCheckpointPage : Nat
  walSequence : UInt64

structure PageManager where
  header : Header
  /-- The mapped file, the header page left out. -/
  memory : Memory

def pageAddress (page : Nat) : Nat :=
  page * pageSize

def calculateBitmapPages (totalPages : Nat) : Nat :=
  (totalPages + pageSize * 8 - 1) / (pageSize * 8)

/-- `bitmap[page / 64] |= 1 << (page % 64)`. -/
def markUsed (memory : Memory) (page : Nat) : Memory :=
  let word := pageAddress 1 + page / 64 * 8
  writeNat memory word 8 (readNat memory word 8 ||| 1 <<< (page % 64))

/-- `memset(page, 0, JDBX_PAGE_SIZE)`. -/
def clearPage (memory : Memory) (page : Nat) : Memory :=
  writeBytes memory (pageAddress page) (List.replicate pageSize 0)

def sealPage (memory : Memory) (page : Nat) : Memory :=
  writeNat memory (pageAddress page + 4) 4
    (crc32 (readBytes memory (pageAddress page) pageSize)).toNat

/-- Set `type`, `page_id` and `transaction_id` of a cleared page. -/
def writePageHeader (memory : Memory) (page pageType : Nat) (transactionId : UInt64) :
    Memory :=
  let typed := writeNat memory (pageAddress page) 2 pageType
  let numbered := writeNat typed (pageAddress page + 8) 8 page
  writeNat numbered (pageAddress page + 24) 8 transactionId.toNat

def walPageType (memory : Memory) (page : Nat) : Nat :=
  readNat memory (pageAddress page) 2

def entryCount (memory : Memory) (page : Nat) : Nat :=
  readNat memory (pageAddress page + 72) 4

def usedBytes (memory : Memory) (page : Nat) : Nat :=
  readNat memory (pageAddress page + 76) 4

def setSequenceStart (memory : Memory) (page : Nat) (sequence : UInt64) : Memory :=
  writeNat memory (pageAddress page + 56) 8 sequence.toNat

def setSequenceEnd (memory : Memory) (page : Nat) (sequence : UInt64) : Memory :=
  writeNat memory (pageAddress page + 64) 8 sequence.toNat

def setEntryCount (memory : Memory) (page count : Nat) : Memory :=
  writeNat memory (pageAddress page + 72) 4 count

def setUsedBytes (memory : Memory) (page used : Nat) : Memory :=
  writeNat memory (pageAddress page + 76) 4 used

/-- The body of the loop of `init_integrated_wal`. -/
def initWalPage (transactionId : UInt64) (memory : Memory) (page : Nat) : Memory :=
  let headed := writePageHeader (clearPage memory page) page pageTypeWal transactionId
  let sequenced := setSequenceEnd (setSequenceStart headed page 0) page 0
  let counted := setUsedBytes (setEntryCount sequenced page 0) page walPageSize
  markUsed (sealPage counted page) page

/-- `total_pages` of a new file: never fewer than 1000 pages. -/
def newTotalPages (initialSize : UInt64) : Nat :=
  if initialSize.toNat / pageSize < 1000 then 1000 else initialSize.toNat / pageSize

/-- `init_new_file` with `init_integrated_wal`: the header page, the bitmap, the
WAL, the root directory. -/
def initNewFile (initialSize : UInt64) : PageManager :=
  let totalPages := newTotalPages initialSize
  let bitmapPages := calculateBitmapPages totalPages
  let walStart := 1 + bitmapPages
  let rootDirectory := walStart + walPages
  let fresh : Memory := fun _ => 0
  let marked := (List.range (1 + bitmapPages)).foldl markUsed fresh
  let walReady :=
    ((List.range walPages).map (walStart + ·)).foldl (initWalPage 1) marked
  let directory :=
    writePageHeader (clearPage walReady rootDirectory) rootDirectory pageTypeDirectory 1
  { header :=
      { totalPages := totalPages
        freePages := totalPages - 1 - bitmapPages - walPages - 1
        rootDirectoryPage := rootDirectory
        bitmapStartPage := 1
        transactionId := 1
        lastCheckpoint := 1
        walStartPage := walStart
        walCurrentPage := walStart
        walCurrentOffset := walPageSize
        walCheckpointPage := walStart
        walSequence := 1 }
    memory := markUsed (sealPage directory rootDirectory) rootDirectory }

def nextWalPage (header : Header) (page : Nat) : Nat :=
  if page + 1 ≥ header.walStartPage + walPages then header.walStartPage else page + 1

/-- `entry_size > available` is false.  `available` is an unsigned 32-bit
subtraction. -/
def entryFits (manager : PageManager) (size : Nat) : Bool :=
  let used := usedBytes manager.memory manager.header.walCurrentPage
  walEntrySize + size ≤ (pageSize + 2 ^ 32 - used) % 2 ^ 32

def walFull (manager : PageManager) : Bool :=
  nextWalPage manager.header manager.header.walCurrentPage = manager.header.walCheckpointPage

def openNextWalPage (manager : PageManager) : PageManager :=
  let page := nextWalPage manager.header manager.header.walCurrentPage
  let sequence := manager.header.walSequence
  let sequenced := setSequenceEnd (setSequenceStart manager.memory page sequence) page sequence
  { header := { manager.header with walCurrentPage := page }
    memory := setUsedBytes (setEntryCount sequenced page 0) page walPageSize }

def appendEntry (manager : PageManager) (pageId : Nat) (pageData : Bytes) : PageManager :=
  let header := manager.header
  let page := header.walCurrentPage
  let used := usedBytes manager.memory page
  let entry := pageAddress page + used
  let memory := writeNat manager.memory entry 8 header.walSequence.toNat
  let memory := writeNat memory (entry + 8) 8 header.transactionId.toNat
  let memory := writeNat memory (entry + 16) 8 pageId
  let memory := writeNat memory (entry + 24) 4 pageData.length
  let memory := writeNat memory (entry + 28) 4 (crc32 pageData).toNat
  let memory := writeBytes memory (entry + walEntrySize) pageData
  let memory := setSequenceEnd memory page header.walSequence
  let memory := setEntryCount memory page (entryCount memory page + 1)
  let memory := setUsedBytes memory page (usedBytes memory page + walEntrySize + pageData.length)
  { header := { header with walSequence := header.walSequence + 1 }
    memory := sealPage memory page }

/-- `jdbx_wal_write`: the return code and the state behind the call. -/
def walWrite (manager : PageManager) (pageId : Nat) (pageData : Bytes) : Int × PageManager :=
  if pageSize < pageData.length then (-1, manager)
  else if entryFits manager pageData.length then (0, appendEntry manager pageId pageData)
  else if walFull manager then (-1, manager)
  else (0, appendEntry (openNextWalPage manager) pageId pageData)

/-- `last_checkpoint = transaction_id; wal_checkpoint_page = wal_current_page`. -/
def updateCheckpoint (manager : PageManager) : PageManager :=
  { manager with
    header :=
      { manager.header with
        lastCheckpoint := manager.header.transactionId
        walCheckpointPage := manager.header.walCurrentPage } }

def checkpoint (manager : PageManager) : Int × PageManager :=
  if manager.header.walCheckpointPage = manager.header.walCurrentPage ∧
      manager.header.lastCheckpoint = manager.header.transactionId then
    (0, manager)
  else (0, updateCheckpoint manager)

/-- How `jdbx_wal_recover` ends. -/
inductive Recovery where
  | returned (code : Int)
  /-- `jdbx_get_page_ptr` was given a page behind the end of the file. -/
  | assertionFailed
  /-- The walk over the WAL pages misses the current page. -/
  | diverged
deriving DecidableEq

/-- The loop over the entries of a WAL page.  `entry_count` is read again in
each round, and `i` is a 32-bit counter, which bounds the rounds. -/
def recoverEntries (header : Header) (page : Nat) :
    Nat → Nat → Nat → Memory → Option Recovery × Memory
  | 0, _, _, memory => (none, memory)
  | rounds + 1, i, offset, memory =>
      if i < entryCount memory page then
        let entry := pageAddress page + offset
        let size := readNat memory (entry + 24) 4
        if header.lastCheckpoint.toNat < readNat memory (entry + 8) 8 then
          let data := readBytes memory (entry + walEntrySize) size
          let target := readNat memory (entry + 16) 8
          if (crc32 data).toNat ≠ readNat memory (entry + 28) 4 then
            (some (.returned (-1)), memory)
          else if target < header.totalPages then
            recoverEntries header page rounds (i + 1) (offset + walEntrySize + size)
              (writeBytes memory (pageAddress target) data)
          else (some .assertionFailed, memory)
        else
          recoverEntries header page rounds (i + 1) (offset + walEntrySize + size) memory
      else (none, memory)

/-- The walk over the WAL pages.  A walk that meets no page twice ends within
`walPages` rounds. -/
def recoverPages (header : Header) : Nat → Nat → Memory → Option Recovery × Memory
  | 0, _, memory => (some .diverged, memory)
  | rounds + 1, page, memory =>
      if header.totalPages ≤ page then (some .assertionFailed, memory)
      else if walPageType memory page ≠ pageTypeWal then (none, memory)
      else
        match recoverEntries header page (2 ^ 32) 0 walPageSize memory with
        | (some failure, memory) => (some failure, memory)
        | (none, memory) =>
            if page = header.walCurrentPage then (none, memory)
            else recoverPages header rounds (nextWalPage header page) memory

def walRecover (manager : PageManager) : Recovery × PageManager :=
  match recoverPages manager.header walPages manager.header.walCheckpointPage
      manager.memory with
  | (some failure, memory) => (failure, { manager with memory := memory })
  | (none, memory) => (.returned 0, updateCheckpoint { manager with memory := memory })

end Jdbx
