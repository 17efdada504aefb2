import Jdbx.Storage.WalRecovery
import Mathlib.Data.Finset.Card

/-!
# A new file

The regions that `init_new_file` lays out do not overlap, each page of the ring
is an empty WAL page, and every page behind the root directory is zero.
-/

namespace Jdbx

open Library

theorem laidOut_initNewFile (initialSize : UInt64) :
    LaidOut (initNewFile initialSize).header := by
  have small : initialSize.toNat < 2 ^ 64 := initialSize.toNat_lt
  have atLeast : 1000 ≤ newTotalPages initialSize := by
    rw [newTotalPages]
    split <;> omega
  have atMost : newTotalPages initialSize < 2 ^ 64 := by
    rw [newTotalPages, pageSize]
    split <;> omega
  refine ⟨rfl, rfl, ?_, atMost⟩
  change 1 + calculateBitmapPages (newTotalPages initialSize) + walPages <
    newTotalPages initialSize
  rw [calculateBitmapPages, walPages, pageSize]
  omega

section Frames

variable {memory : Memory} {total page target : Nat} {transactionId : UInt64}

theorem agreeOn_markUsed (inFile : target < total)
    (behind : 1 + calculateBitmapPages total ≤ page) :
    AgreeOn (markUsed memory target) memory page := by
  intro address above _
  rw [markUsed, writeNat_of_outside]
  right
  simp only [pageAddress, calculateBitmapPages, pageSize, Nat.reduceMul] at above behind ⊢
  have inBitmap : target / 64 < (page - 1) * 512 := by omega
  omega

theorem agreeOn_clearPage (different : page ≠ target) :
    AgreeOn (clearPage memory target) memory page := by
  have length : (List.replicate pageSize (0 : UInt8)).length = pageSize :=
    List.length_replicate
  unfold clearPage
  exact agreeOn_writeBytes different (le_refl _) (by rw [length])

theorem agreeOn_writePageHeader {pageType : Nat} (different : page ≠ target) :
    AgreeOn (writePageHeader memory target pageType transactionId) memory page := by
  refine (agreeOn_writeNat different (by decide)).trans ?_
  refine (agreeOn_writeNat different (by decide)).trans ?_
  exact agreeOn_writeBytes different (le_refl _) (by simp [pageSize])

theorem agreeOn_sealedWalPage (different : page ≠ target) :
    AgreeOn
      (sealPage
        (setUsedBytes
          (setEntryCount
            (setSequenceEnd
              (setSequenceStart
                (writePageHeader (clearPage memory target) target pageTypeWal transactionId)
                target 0)
              target 0)
            target 0)
          target walPageSize)
        target)
      memory page := by
  refine (agreeOn_sealPage different).trans ?_
  refine (agreeOn_writeNat different (by decide)).trans ?_
  refine (agreeOn_writeNat different (by decide)).trans ?_
  refine (agreeOn_writeNat different (by decide)).trans ?_
  refine (agreeOn_writeNat different (by decide)).trans ?_
  exact (agreeOn_writePageHeader different).trans (agreeOn_clearPage different)

theorem walPageType_writePageHeader (memory : Memory) (page : Nat) (transactionId : UInt64) :
    walPageType (writePageHeader memory page pageTypeWal transactionId) page = pageTypeWal := by
  rw [walPageType, writePageHeader, readNat_writeNat_of_disjoint (by omega),
    readNat_writeNat_of_disjoint (by omega), readNat_writeNat_self (by decide)]

theorem pageHolds_initWalPage (inFile : page < total)
    (behind : 1 + calculateBitmapPages total ≤ page) :
    PageHolds (initWalPage transactionId memory page) page [] := by
  rw [initWalPage]
  apply PageHolds.congr _ (agreeOn_markUsed inFile behind).symm
  apply PageHolds.sealPage
  apply pageHolds_empty
  rw [walPageType_setSequence, walPageType_writePageHeader]

theorem agreeOn_initWalPages {pages : List Nat} (notIn : page ∉ pages)
    (inFile : ∀ walPage ∈ pages, walPage < total)
    (behind : 1 + calculateBitmapPages total ≤ page) :
    AgreeOn (pages.foldl (initWalPage transactionId) memory) memory page := by
  induction pages generalizing memory with
  | nil => exact AgreeOn.refl memory page
  | cons first pages ih =>
      simp only [List.mem_cons, not_or] at notIn
      have restInFile : ∀ walPage ∈ pages, walPage < total :=
        fun walPage member => inFile walPage (List.mem_cons_of_mem first member)
      apply (ih notIn.2 restInFile).trans
      exact (agreeOn_markUsed (inFile first List.mem_cons_self) behind).trans
        (agreeOn_sealedWalPage notIn.1)

theorem pageHolds_initWalPages {pages : List Nat} (member : page ∈ pages)
    (inFile : ∀ walPage ∈ pages, walPage < total)
    (behind : 1 + calculateBitmapPages total ≤ page) :
    PageHolds (pages.foldl (initWalPage transactionId) memory) page [] := by
  induction pages generalizing memory with
  | nil => cases member
  | cons first pages ih =>
      have restInFile : ∀ walPage ∈ pages, walPage < total :=
        fun walPage inRest => inFile walPage (List.mem_cons_of_mem first inRest)
      rw [List.foldl_cons]
      by_cases inRest : page ∈ pages
      · exact ih inRest restInFile
      · have same : page = first := by simpa [inRest] using member
        subst same
        have pageInFile := inFile page List.mem_cons_self
        exact (pageHolds_initWalPage pageInFile behind).congr
          (agreeOn_initWalPages inRest restInFile behind).symm

end Frames

theorem agreeOn_sealedDirectory {memory : Memory} {page rootDirectory : Nat}
    (different : page ≠ rootDirectory) :
    AgreeOn
      (sealPage
        (writePageHeader (clearPage memory rootDirectory) rootDirectory pageTypeDirectory 1)
        rootDirectory)
      memory page :=
  (agreeOn_sealPage different).trans <|
    (agreeOn_writePageHeader different).trans (agreeOn_clearPage different)

theorem agreeOn_initRootDirectory {memory : Memory} {total page rootDirectory : Nat}
    (different : page ≠ rootDirectory) (inFile : rootDirectory < total)
    (behind : 1 + calculateBitmapPages total ≤ page) :
    AgreeOn
      (markUsed
        (sealPage
          (writePageHeader (clearPage memory rootDirectory) rootDirectory pageTypeDirectory 1)
          rootDirectory)
        rootDirectory)
      memory page :=
  (agreeOn_markUsed inFile behind).trans (agreeOn_sealedDirectory different)

section NewFile

variable {initialSize : UInt64} {page : Nat}

theorem pageHolds_initNewFile (inRing : InRing (initNewFile initialSize).header page) :
    PageHolds (initNewFile initialSize).memory page [] := by
  have room := (laidOut_initNewFile initialSize).room
  simp only [initNewFile, InRing] at inRing room ⊢
  have apart : page ≠ 1 + calculateBitmapPages (newTotalPages initialSize) + walPages := by
    omega
  apply PageHolds.congr _ (agreeOn_initRootDirectory apart room inRing.1).symm
  apply pageHolds_initWalPages _ _ inRing.1
  · apply List.mem_map.mpr
    refine ⟨page - (1 + calculateBitmapPages (newTotalPages initialSize)), ?_, ?_⟩
    · apply List.mem_range.mpr
      omega
    · omega
  · intro walPage member
    obtain ⟨index, inRange, rfl⟩ := List.mem_map.mp member
    have bound := List.mem_range.mp inRange
    omega

theorem agreeOn_markPages {memory : Memory} {total : Nat} {pages : List Nat}
    (inFile : ∀ used ∈ pages, used < total) (behind : 1 + calculateBitmapPages total ≤ page) :
    AgreeOn (pages.foldl markUsed memory) memory page := by
  induction pages generalizing memory with
  | nil => exact AgreeOn.refl memory page
  | cons used pages ih =>
      have restInFile : ∀ other ∈ pages, other < total :=
        fun other member => inFile other (List.mem_cons_of_mem used member)
      apply (ih restInFile).trans
      exact agreeOn_markUsed (inFile used List.mem_cons_self) behind

theorem initNewFile_zero (behind : (initNewFile initialSize).header.rootDirectoryPage < page)
    {offset : Nat} (inPage : offset < pageSize) :
    (initNewFile initialSize).memory (pageAddress page + offset) = 0 := by
  have room := (laidOut_initNewFile initialSize).room
  simp only [initNewFile] at behind room ⊢
  have behindBitmap : 1 + calculateBitmapPages (newTotalPages initialSize) ≤ page := by omega
  rw [agreeOn_initRootDirectory (by omega) room behindBitmap _ (by omega) (by omega)]
  rw [agreeOn_initWalPages _ _ behindBitmap _ (by omega) (by omega)]
  · rw [agreeOn_markPages _ behindBitmap _ (by omega) (by omega)]
    intro used member
    have bound := List.mem_range.mp member
    omega
  · intro member
    obtain ⟨index, inRange, rfl⟩ := List.mem_map.mp member
    have bound := List.mem_range.mp inRange
    omega
  · intro walPage member
    obtain ⟨index, inRange, rfl⟩ := List.mem_map.mp member
    have bound := List.mem_range.mp inRange
    omega

end NewFile

def pageUsed (memory : Memory) (page : Nat) : Bool :=
  (readNat memory (pageAddress 1 + page / 64 * 8) 8).testBit (page % 64)

inductive Region where
  | header
  | bitmap
  | wal
  | root

def Header.InRegion (header : Header) : Region → Nat → Prop
  | .header, page => page = 0
  | .bitmap, page =>
      header.bitmapStartPage ≤ page ∧
        page < header.bitmapStartPage + calculateBitmapPages header.totalPages
  | .wal, page => InRing header page
  | .root, page => page = header.rootDirectoryPage

def Header.bitmapBits (header : Header) : Nat :=
  calculateBitmapPages header.totalPages * (pageSize * 8)

/-- The regions of a file are apart, and its bitmap and its count of free pages tell which pages
they are. -/
structure BitmapExact (manager : PageManager) : Prop where
  disjoint : ∀ region other page, manager.header.InRegion region page →
    manager.header.InRegion other page → region = other
  inside : ∀ region page, manager.header.InRegion region page →
    page < manager.header.totalPages
  covered : manager.header.totalPages ≤ manager.header.bitmapBits
  used : ∀ page < manager.header.bitmapBits,
    pageUsed manager.memory page = true ↔ ∃ region, manager.header.InRegion region page
  counted :
    ((Finset.range manager.header.bitmapBits).filter (pageUsed manager.memory · = true)).card +
      manager.header.freePages = manager.header.totalPages

section Bitmap

variable {memory other : Memory} {page target : Nat}

theorem AgreeOn.pageUsed_eq (agree : AgreeOn memory other (1 + page / 32768)) :
    pageUsed memory page = pageUsed other page := by
  rw [pageUsed, pageUsed, agree.readNat]
  all_goals
    simp only [pageAddress, pageSize]
    omega

theorem pageUsed_markUsed (memory : Memory) (page target : Nat) :
    pageUsed (markUsed memory target) page =
      (decide (page = target) || pageUsed memory page) := by
  simp only [pageUsed, markUsed]
  by_cases word : page / 64 = target / 64
  · have bit : page % 64 < 64 := Nat.mod_lt page (by decide)
    have samePage : target % 64 = page % 64 ↔ page = target := by omega
    rw [word, writeNat, (holds_writeBytes_self memory _ _).readNat_mod,
      show 256 ^ 8 = 2 ^ 64 from rfl, Nat.testBit_mod_two_pow, decide_eq_true bit, Bool.true_and,
      Nat.testBit_or, Nat.one_shiftLeft, Nat.testBit_two_pow, Bool.or_comm,
      decide_eq_decide.mpr samePage]
  · have different : page ≠ target := fun same => word (by rw [same])
    rw [readNat_writeNat_of_disjoint (by omega), decide_eq_false different, Bool.false_or]

theorem pageUsed_foldl {step : Memory → Nat → Memory} {pages : List Nat}
    (marks : ∀ memory, ∀ target ∈ pages,
      pageUsed (step memory target) page = (decide (page = target) || pageUsed memory page)) :
    pageUsed (pages.foldl step memory) page =
      (decide (page ∈ pages) || pageUsed memory page) := by
  induction pages generalizing memory with
  | nil => rfl
  | cons first pages ih =>
      rw [List.foldl_cons,
        ih fun memory target member => marks memory target (List.mem_cons_of_mem first member),
        marks memory first List.mem_cons_self, Bool.or_left_comm, ← Bool.or_assoc,
        ← Bool.decide_or, decide_eq_decide.mpr List.mem_cons.symm]

theorem pageUsed_initNewFile (initialSize : UInt64)
    (inBitmap : page < (initNewFile initialSize).header.bitmapBits) :
    pageUsed (initNewFile initialSize).memory page =
      decide (page ≤ (initNewFile initialSize).header.rootDirectoryPage) := by
  simp only [Header.bitmapBits, initNewFile] at inBitmap ⊢
  rw [pageSize] at inBitmap
  have isWal (memory : Memory) (target : Nat)
      (member : target ∈ (List.range walPages).map
        (1 + calculateBitmapPages (newTotalPages initialSize) + ·)) :
      pageUsed (initWalPage 1 memory target) page =
        (decide (page = target) || pageUsed memory page) := by
    obtain ⟨index, -, rfl⟩ := List.mem_map.mp member
    rw [initWalPage, pageUsed_markUsed, (agreeOn_sealedWalPage (by omega)).pageUsed_eq]
  rw [pageUsed_markUsed, (agreeOn_sealedDirectory (by omega)).pageUsed_eq,
    pageUsed_foldl isWal,
    pageUsed_foldl fun memory target _ => pageUsed_markUsed memory page target]
  have zeros (address : Nat) : readBytes (fun _ => 0) address 8 = List.replicate 8 0 :=
    List.map_const'
  have clear : pageUsed (fun _ => 0) page = false := by
    rw [pageUsed, readNat, zeros]
    exact Nat.zero_testBit _
  rw [clear, Bool.or_false, ← Bool.decide_or, ← Bool.decide_or]
  refine decide_eq_decide.mpr ?_
  simp only [List.mem_map, List.mem_range]
  constructor
  · rintro (same | ⟨index, inRange, rfl⟩ | before) <;> omega
  · intro upTo
    by_cases before : page < 1 + calculateBitmapPages (newTotalPages initialSize)
    · exact Or.inr (Or.inr before)
    · by_cases last : page = 1 + calculateBitmapPages (newTotalPages initialSize) + walPages
      · exact Or.inl last
      · refine Or.inr (Or.inl ⟨page - (1 + calculateBitmapPages (newTotalPages initialSize)), ?_⟩)
        omega

theorem bitmapExact_initNewFile (initialSize : UInt64) :
    BitmapExact (initNewFile initialSize) := by
  have laidOut := laidOut_initNewFile initialSize
  have bitmapStart := laidOut.bitmap
  have walStart := laidOut.wal
  have room := laidOut.room
  have root : (initNewFile initialSize).header.rootDirectoryPage =
      (initNewFile initialSize).header.walStartPage + walPages := rfl
  have free : (initNewFile initialSize).header.freePages =
      (initNewFile initialSize).header.totalPages - 1 -
        calculateBitmapPages (initNewFile initialSize).header.totalPages - walPages - 1 := rfl
  have covered : (initNewFile initialSize).header.totalPages ≤
      (initNewFile initialSize).header.bitmapBits := by
    rw [Header.bitmapBits, calculateBitmapPages, pageSize]
    omega
  have regions (page : Nat) : (∃ region, (initNewFile initialSize).header.InRegion region page) ↔
      page ≤ (initNewFile initialSize).header.rootDirectoryPage := by
    constructor
    · rintro ⟨region, inRegion⟩
      cases region <;> simp only [Header.InRegion, InRing] at inRegion <;> omega
    · intro upTo
      by_cases first : page = 0
      · exact ⟨.header, first⟩
      · by_cases last : page = (initNewFile initialSize).header.rootDirectoryPage
        · exact ⟨.root, last⟩
        · by_cases inBitmap : page < (initNewFile initialSize).header.walStartPage
          · exact ⟨.bitmap, by omega, by omega⟩
          · exact ⟨.wal, by omega, by omega⟩
  have used (page : Nat) (inBitmap : page < (initNewFile initialSize).header.bitmapBits) :
      pageUsed (initNewFile initialSize).memory page = true ↔
        page ≤ (initNewFile initialSize).header.rootDirectoryPage := by
    rw [pageUsed_initNewFile initialSize inBitmap, decide_eq_true_iff]
  refine ⟨?_, ?_, covered, fun page inBitmap => (used page inBitmap).trans (regions page).symm, ?_⟩
  · intro region other page inRegion inOther
    cases region <;> cases other <;> first
      | rfl
      | simp only [Header.InRegion, InRing] at inRegion inOther
        omega
  · intro region page inRegion
    have upTo := (regions page).mp ⟨region, inRegion⟩
    omega
  · have bits : (Finset.range (initNewFile initialSize).header.bitmapBits).filter
        (pageUsed (initNewFile initialSize).memory · = true) =
          Finset.range ((initNewFile initialSize).header.rootDirectoryPage + 1) := by
      ext page
      rw [Finset.mem_filter, Finset.mem_range, Finset.mem_range, Nat.lt_succ_iff]
      constructor
      · intro member
        exact (used page member.1).mp member.2
      · intro upTo
        exact ⟨by omega, (used page (by omega)).mpr upTo⟩
    rw [bits, Finset.card_range]
    omega

end Bitmap

end Jdbx
