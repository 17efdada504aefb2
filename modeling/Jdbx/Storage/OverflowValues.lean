import Jdbx.Storage.LeafTree

/-!
# Values in overflow pages

`write_overflow_value` puts the length of a value over its first four bytes, and
`read_overflow_value` begins behind the length.  What is read is so the value without its first
four bytes, and four bytes more that lay behind it.
-/

namespace Jdbx

open Library

def payloadSize : Nat := pageSize - pageHeaderSize

def payload (page : Memory) : Bytes :=
  readBytes page pageHeaderSize payloadSize

/-- The pages of `write_overflow_value`. -/
def pagesNeeded (value : Bytes) : Nat :=
  (value.length + pageSize - 1) / pageSize

theorem readBytes_writeBytes_front {memory : Memory} {address length : Nat} {bytes : Bytes}
    (fits : bytes.length ≤ length) :
    readBytes (writeBytes memory address bytes) address length =
      bytes ++ (readBytes memory address length).drop bytes.length := by
  have whole : length = bytes.length + (length - bytes.length) := by omega
  rw [whole, readBytes_add, readBytes_writeBytes_self,
    readBytes_writeBytes_of_disjoint (Or.inr (Nat.le_refl _)), readBytes_add,
    List.drop_append_of_le_length (by simp), List.drop_of_length_le (by simp), List.nil_append]

/-! ## One page -/

def filled (contents : Memory) (remaining : Bytes) : Memory :=
  writeBytes (setPageType contents pageTypeOverflow) pageHeaderSize (remaining.take payloadSize)

def headed (value : Bytes) (image : Memory) : Memory :=
  writeNat image pageHeaderSize 4 value.length

section Pages

variable (contents image : Memory) (remaining value : Bytes) (next : UInt64)

@[simp]
theorem length_payload : (payload image).length = payloadSize :=
  length_readBytes ..

theorem payload_setPageType (type : Nat) :
    payload (setPageType contents type) = payload contents :=
  readBytes_writeNat_of_disjoint (.inr (by decide))

@[simp]
theorem payload_setNextPage : payload (setNextPage image next) = payload image :=
  readBytes_writeNat_of_disjoint (.inr (by decide))

theorem payload_filled :
    payload (filled contents remaining) =
      remaining.take payloadSize ++ (payload contents).drop remaining.length := by
  have short : (remaining.take payloadSize).length ≤ payloadSize := List.length_take_le _ _
  rw [payload, filled, readBytes_writeBytes_front short, ← payload, payload_setPageType,
    List.length_take]
  rcases Nat.le_total payloadSize remaining.length with long | fits
  · rw [Nat.min_eq_left long, List.drop_of_length_le (by simp), List.drop_of_length_le (by simpa)]
  · rw [Nat.min_eq_right fits]

theorem payload_headed :
    payload (headed value image) = littleEndian 4 value.length ++ (payload image).drop 4 := by
  have short : (littleEndian 4 value.length).length ≤ payloadSize := by
    rw [length_littleEndian]
    decide
  rw [payload, headed, writeNat, readBytes_writeBytes_front short, length_littleEndian, payload]

@[simp]
theorem pageType_setNextPage : pageType (setNextPage image next) = pageType image :=
  readNat_writeNat_of_disjoint (.inl (by decide))

@[simp]
theorem pageType_filled : pageType (filled contents remaining) = pageTypeOverflow := by
  rw [pageType, filled, readNat_writeBytes_of_disjoint (.inl (by decide))]
  exact readNat_writeNat_self (by decide)

@[simp]
theorem pageType_headed : pageType (headed value image) = pageType image :=
  readNat_writeNat_of_disjoint (.inl (by decide))

@[simp]
theorem nextPage_setNextPage : nextPage (setNextPage image next) = next := by
  rw [nextPage, setNextPage, readNat_writeNat_self next.toNat_lt]
  exact UInt64.ofNat_toNat

@[simp]
theorem nextPage_filled : nextPage (filled contents remaining) = nextPage contents := by
  rw [nextPage, filled, readNat_writeBytes_of_disjoint (.inl (by decide)), setPageType,
    readNat_writeNat_of_disjoint (.inr (by decide)), nextPage]

@[simp]
theorem nextPage_headed : nextPage (headed value image) = nextPage image := by
  rw [nextPage, headed, readNat_writeNat_of_disjoint (.inl (by decide)), nextPage]

end Pages

/-! ## Chains of pages -/

def images : List (UInt64 × Memory) → Bytes → List (UInt64 × Memory)
  | [], _ => []
  | (number, contents) :: granted, remaining =>
    (number, filled contents remaining) :: images granted (remaining.drop payloadSize)

def linkTo (image : Memory) : List (UInt64 × Memory) → Memory
  | [] => image
  | next :: _ => setNextPage image next.1

def Chained (tree : BTree) : List (UInt64 × Memory) → Prop
  | [] => True
  | page :: rest => tree.page page.1 = some (linkTo page.2 rest) ∧ Chained tree rest

def contentsOf (pages : List (UInt64 × Memory)) : Bytes :=
  pages.flatMap fun page => payload page.2

def collected (total : Nat) (stream : Bytes) : Option Bytes :=
  if total ≤ stream.length then some (stream.take total) else none

theorem payload_linkTo (image : Memory) (rest : List (UInt64 × Memory)) :
    payload (linkTo image rest) = payload image := by
  cases rest <;> simp [linkTo]

theorem pageType_linkTo (image : Memory) (rest : List (UInt64 × Memory)) :
    pageType (linkTo image rest) = pageType image := by
  cases rest <;> simp [linkTo]

@[simp]
theorem entryKeys_images (granted : List (UInt64 × Memory)) (remaining : Bytes) :
    entryKeys (images granted remaining) = entryKeys granted := by
  induction granted generalizing remaining with
  | nil => rfl
  | cons page granted ih => exact congrArg (page.1 :: ·) (ih (remaining.drop payloadSize))

theorem contentsOf_images (granted : List (UInt64 × Memory)) (remaining : Bytes) :
    contentsOf (images granted remaining) =
      remaining.take (payloadSize * granted.length) ++
        (contentsOf granted).drop remaining.length := by
  induction granted generalizing remaining with
  | nil => simp [images, contentsOf]
  | cons page granted ih =>
    have front : contentsOf (page :: granted) = payload page.2 ++ contentsOf granted := rfl
    have filledFront : contentsOf (images (page :: granted) remaining) =
        payload (filled page.2 remaining) ++
          contentsOf (images granted (remaining.drop payloadSize)) := rfl
    rw [filledFront, ih, payload_filled, front, List.length_cons,
      Nat.mul_succ, Nat.add_comm, List.take_add, List.length_drop, List.drop_append,
      length_payload]
    rcases Nat.le_total payloadSize remaining.length with long | fits
    · have nothingLeft : (payload page.2).drop remaining.length = [] :=
        List.drop_of_length_le (by simpa using long)
      rw [nothingLeft, List.append_nil, List.nil_append, List.append_assoc]
    · rw [List.drop_of_length_le fits, List.take_nil, List.nil_append, List.append_nil,
        Nat.sub_eq_zero_of_le fits, List.append_assoc]

theorem collected_take {total : Nat} {copied : Bytes} (within : copied.length ≤ total)
    (content more : Bytes) :
    collected total (copied ++ content.take (total - copied.length) ++ more) =
      collected total (copied ++ content ++ more) := by
  rcases Nat.le_total content.length (total - copied.length) with fits | long
  · rw [List.take_of_length_le fits]
  · have enough : total ≤ (copied ++ content.take (total - copied.length)).length := by
      simp only [List.length_append, List.length_take]
      omega
    have enough' : total ≤ (copied ++ content).length := by
      simp only [List.length_append]
      omega
    rw [collected, if_pos (by rw [List.length_append]; omega), collected,
      if_pos (by rw [List.length_append]; omega), List.take_append_of_le_length enough,
      List.take_append_of_le_length enough', List.take_append, List.take_append, List.take_take,
      Nat.min_self]

section Reading

variable {tree : BTree} {first number : UInt64} {total fuel : Nat} {page : Memory} {copied : Bytes}

theorem readOverflowPages_succ (held : tree.page number = some page) (notZero : number ≠ 0)
    (isOverflow : pageType page = pageTypeOverflow) (short : copied.length < total) :
    readOverflowPages tree first total (fuel + 1) number copied =
      readOverflowPages tree first total fuel (nextPage page)
        (copied ++ ((payload page).drop (if number = first then 4 else 0)).take
          (total - copied.length)) := by
  rw [readOverflowPages, if_pos ⟨notZero, short⟩, held]
  simp only [if_pos isOverflow]
  congr 2
  generalize skipped : (if number = first then 4 else 0) = offset
  have inside : offset ≤ payloadSize := by
    rw [← skipped]
    split <;> decide
  have cut : payloadSize = offset + (payloadSize - offset) := by omega
  rw [payload, cut, readBytes_add, List.drop_append_of_le_length (by simp),
    List.drop_of_length_le (by simp), List.nil_append]
  have same : pageSize - pageHeaderSize - offset = payloadSize - offset := rfl
  rw [same]
  rcases Nat.le_total (payloadSize - offset) (total - copied.length) with fits | long
  · rw [Nat.min_eq_left fits, List.take_of_length_le (by simpa using fits)]
  · have parts : payloadSize - offset =
        (total - copied.length) + (payloadSize - offset - (total - copied.length)) := by omega
    rw [Nat.min_eq_right long]
    conv_rhs => rw [parts, readBytes_add]
    rw [List.take_append_of_le_length (by simp), List.take_of_length_le (by simp)]

theorem readOverflowPages_done (within : copied.length ≤ total)
    (done : number = 0 ∨ copied.length = total) :
    readOverflowPages tree first total fuel number copied = collected total copied := by
  have outcome :
      (if copied.length = total then some copied else none) = collected total copied := by
    rw [collected]
    by_cases all : copied.length = total
    · rw [if_pos all, if_pos all.ge, List.take_of_length_le all.le]
    · rw [if_neg all, if_neg (by omega)]
  cases fuel with
  | zero => exact outcome
  | succ fuel =>
    rw [readOverflowPages, if_neg, outcome]
    rintro ⟨notZero, short⟩
    rcases done with isZero | all
    · exact notZero isZero
    · omega

end Reading

def firstOf (pages : List (UInt64 × Memory)) : UInt64 :=
  (pages.head?.map Prod.fst).getD 0

def Ready (page : UInt64 × Memory) : Prop :=
  page.1 ≠ 0 ∧ pageType page.2 = pageTypeOverflow ∧ nextPage page.2 = 0

theorem nextPage_linkTo {page : UInt64 × Memory} (ready : Ready page)
    (rest : List (UInt64 × Memory)) : nextPage (linkTo page.2 rest) = firstOf rest := by
  cases rest with
  | nil => exact ready.2.2
  | cons next rest => exact nextPage_setNextPage ..

variable {tree : BTree} {pages : List (UInt64 × Memory)}

theorem readOverflowPages_chained {first : UInt64} {total : Nat}
    (ready : ∀ page ∈ pages, Ready page) (others : first ∉ entryKeys pages)
    (chained : Chained tree pages) {fuel : Nat} {copied : Bytes} (within : copied.length ≤ total)
    (enough : total ≤ copied.length + fuel) :
    readOverflowPages tree first total fuel (firstOf pages) copied =
      collected total (copied ++ contentsOf pages) := by
  induction pages generalizing fuel copied with
  | nil =>
    rw [readOverflowPages_done within (.inl (show firstOf [] = 0 from rfl)), contentsOf,
      List.flatMap_nil, List.append_nil]
  | cons page rest ih =>
    rcases within.lt_or_eq with short | all
    · obtain ⟨fuel, rfl⟩ : ∃ more, fuel = more + 1 := ⟨fuel - 1, by omega⟩
      have here := ready page List.mem_cons_self
      have notFirst : page.1 ≠ first := fun same => others (same ▸ List.mem_cons_self)
      rw [firstOf, List.head?_cons, Option.map_some, Option.getD_some,
        readOverflowPages_succ chained.1 here.1 ((pageType_linkTo ..).trans here.2.1) short,
        if_neg notFirst, List.drop_zero, payload_linkTo, nextPage_linkTo here,
        ih (fun other member => ready other (List.mem_cons_of_mem _ member))
          (fun member => others (List.mem_cons_of_mem _ member)) chained.2 ?_ ?_,
        collected_take within, List.append_assoc]
      · rfl
      · simp only [List.length_append, List.length_take]
        omega
      · simp only [List.length_append, List.length_take, length_payload]
        have some : 0 < payloadSize := by decide
        omega
    · rw [readOverflowPages_done within (.inr all), collected, collected, if_pos all.ge,
        if_pos (by rw [List.length_append]; omega), List.take_append_of_le_length all.ge]

theorem readOverflowValue_chained {page : UInt64 × Memory} {rest : List (UInt64 × Memory)}
    (ready : ∀ other ∈ page :: rest, Ready other) (distinct : (entryKeys (page :: rest)).Nodup)
    (chained : Chained tree (page :: rest)) {total : Nat}
    (size : readNat page.2 pageHeaderSize 4 = total) (positive : 0 < total) :
    readOverflowValue tree page.1 =
      collected total ((contentsOf (page :: rest)).drop 4) := by
  have here := ready page List.mem_cons_self
  have sameSize : readNat (linkTo page.2 rest) pageHeaderSize 4 = total := by
    rw [← size]
    cases rest with
    | nil => rfl
    | cons next rest => exact readNat_writeNat_of_disjoint (.inr (by decide))
  have others : page.1 ∉ entryKeys rest := (List.nodup_cons.mp distinct).1
  obtain ⟨fuel, rfl⟩ : ∃ fuel, total = fuel + 1 := ⟨total - 1, by omega⟩
  rw [readOverflowValue, if_neg here.1, chained.1]
  simp only [if_pos ((pageType_linkTo page.2 rest).trans here.2.1), sameSize]
  rw [readOverflowPages_succ chained.1 here.1 ((pageType_linkTo ..).trans here.2.1) positive,
    if_pos rfl, payload_linkTo, nextPage_linkTo here,
    readOverflowPages_chained
      (fun other member => ready other (List.mem_cons_of_mem _ member)) others chained.2 ?_ ?_,
    collected_take (Nat.zero_le _), List.nil_append]
  · have front : contentsOf (page :: rest) = payload page.2 ++ contentsOf rest := rfl
    have four : 4 ≤ (payload page.2).length := by
      rw [length_payload]
      decide
    rw [front, List.drop_append_of_le_length four]
  · simp only [List.nil_append, List.length_take, List.length_nil]
    omega
  · simp only [List.nil_append, List.length_take, List.length_nil, List.length_drop,
      length_payload]
    have some : 4 < payloadSize := by decide
    omega

/-! ## Writing -/

namespace BTree

theorem alloc_of_supply {tree : BTree} {number : UInt64} {contents : Memory}
    {rest : List (UInt64 × Memory)} (supply : tree.store.supply = (number, contents) :: rest)
    (type : Nat) :
    ∃ allocated, tree.alloc type = some (number, allocated) ∧ allocated.store.supply = rest ∧
      allocated.page number = some (setPageType contents type) ∧
        ∀ other, other ≠ number → allocated.page other = tree.page other := by
  obtain ⟨rootPage, pages, supply', distinct, nonzero, fresh⟩ := tree
  cases supply
  exact ⟨_, rfl, rfl, if_pos rfl, fun other different => if_neg different⟩

theorem alloc_of_empty {tree : BTree} (supply : tree.store.supply = []) (type : Nat) :
    tree.alloc type = none := by
  obtain ⟨rootPage, pages, supply', distinct, nonzero, fresh⟩ := tree
  cases supply
  rfl

theorem supply_link (tree : BTree) (prevPage pageNum : UInt64) :
    (tree.link prevPage pageNum).store.supply = tree.store.supply := by
  rw [link]
  split
  · rfl
  · split <;> rfl

theorem rootPage_link (tree : BTree) (prevPage pageNum : UInt64) :
    (tree.link prevPage pageNum).rootPage = tree.rootPage := by
  rw [link]
  split
  · rfl
  · split <;> rfl

theorem page_link_of_ne {tree : BTree} {prevPage other : UInt64}
    (different : prevPage = 0 ∨ other ≠ prevPage) (pageNum : UInt64) :
    (tree.link prevPage pageNum).page other = tree.page other := by
  rw [link]
  split_ifs with isZero
  · rfl
  · split
    · exact page_write_of_ne (different.resolve_left isZero) _
    · rfl

theorem page_link {tree : BTree} {prevPage other : UInt64} {prev : Memory} (notZero : prevPage ≠ 0)
    (held : tree.page prevPage = some prev) (pageNum : UInt64) :
    (tree.link prevPage pageNum).page other =
      if other = prevPage then some (setNextPage prev pageNum) else tree.page other := by
  rw [link, if_neg notZero, held]
  split_ifs with same
  · rw [same]
    exact page_write_self held _
  · exact page_write_of_ne same _

end BTree

theorem memcpy_filled (contents : Memory) (remaining : Bytes) :
    memcpy (setPageType contents pageTypeOverflow) pageHeaderSize
        (remaining.take (min remaining.length (pageSize - pageHeaderSize))) =
      some (filled contents remaining) := by
  have same : remaining.take (min remaining.length (pageSize - pageHeaderSize)) =
      remaining.take payloadSize := by
    rw [← List.take_take, List.take_of_length_le (by simp)]
    rfl
  rw [same, memcpy_inside]
  · rfl
  · have short := List.length_take_le payloadSize remaining
    have whole : pageHeaderSize + payloadSize = pageSize := by decide
    omega

theorem drop_chunk (remaining : Bytes) :
    remaining.drop (min remaining.length (pageSize - pageHeaderSize)) =
      remaining.drop payloadSize := by
  change remaining.drop (min remaining.length payloadSize) = _
  rcases Nat.le_total remaining.length payloadSize with fits | long
  · rw [Nat.min_eq_left fits, List.drop_length, List.drop_of_length_le fits]
  · rw [Nat.min_eq_right long]

theorem writeOverflowPages_succ (value : Bytes) {needed : Nat} {remaining : Bytes}
    {firstPage prevPage number : UInt64} {contents : Memory} {tree allocated : BTree}
    (granted : tree.alloc pageTypeOverflow = some (number, allocated))
    (held : allocated.page number = some (setPageType contents pageTypeOverflow)) :
    writeOverflowPages value (needed + 1) remaining firstPage prevPage tree =
      writeOverflowPages value needed (remaining.drop payloadSize)
        (if firstPage = 0 then number else firstPage) number
        ((allocated.link prevPage number).write number
          (if firstPage = 0 then headed value (filled contents remaining)
            else filled contents remaining)) := by
  rw [writeOverflowPages, granted]
  simp only [held]
  rw [memcpy_filled, drop_chunk]
  rfl

theorem writeOverflowPages_chained (value : Bytes) {granted left : List (UInt64 × Memory)}
    {remaining : Bytes} {first prevPage : UInt64} {prev : Memory}
    (supply : tree.store.supply = granted ++ left) (isFirst : first ≠ 0) (notZero : prevPage ≠ 0)
    (held : tree.page prevPage = some prev) :
    ∃ written,
      writeOverflowPages value granted.length remaining first prevPage tree =
          some (first, written) ∧
        Chained written ((prevPage, prev) :: images granted remaining) ∧
          ∀ other, other ∉ prevPage :: entryKeys granted →
            written.page other = tree.page other := by
  induction granted generalizing remaining prevPage prev tree with
  | nil => exact ⟨tree, rfl, ⟨held, trivial⟩, fun _ _ => rfl⟩
  | cons page granted ih =>
    have unused : ∀ other ∈ entryKeys (page :: granted), tree.page other = none :=
      fun other member => tree.store.fresh other (by
        rw [supply, entryKeys, List.map_append]
        exact List.mem_append_left _ member)
    have nonzero : page.1 ≠ 0 := by
      intro isZero
      apply tree.store.nonzero
      rw [supply, ← isZero]
      exact List.mem_cons_self
    have notPrev : ∀ other ∈ entryKeys (page :: granted), other ≠ prevPage := by
      rintro other member rfl
      rw [unused other member] at held
      cases held
    have notHere : page.1 ∉ entryKeys granted := by
      have distinct := tree.store.distinct
      rw [supply, List.cons_append] at distinct
      have apart := (List.nodup_cons.mp distinct).1
      exact fun member => apart (by
        rw [List.map_append]
        exact List.mem_append_left _ member)
    obtain ⟨allocated, grants, supply', held', others⟩ :=
      BTree.alloc_of_supply supply pageTypeOverflow
    have prevHeld : allocated.page prevPage = some prev :=
      (others _ (notPrev _ List.mem_cons_self).symm).trans held
    have linked : ∀ other, (allocated.link prevPage page.1).page other = _ :=
      fun _ => BTree.page_link notZero prevHeld page.1
    rw [List.length_cons, writeOverflowPages_succ value grants held', if_neg isFirst,
      if_neg isFirst]
    have stored : ((allocated.link prevPage page.1).write page.1
        (filled page.2 remaining)).page page.1 = some (filled page.2 remaining) := by
      apply BTree.page_write_self
      rw [linked, if_neg (notPrev _ List.mem_cons_self)]
      exact held'
    have elsewhere : ∀ other, other ≠ page.1 →
        ((allocated.link prevPage page.1).write page.1 (filled page.2 remaining)).page other =
          if other = prevPage then some (setNextPage prev page.1) else tree.page other := by
      intro other different
      rw [BTree.page_write_of_ne different, linked, others other different]
    have supply'' : ((allocated.link prevPage page.1).write page.1
        (filled page.2 remaining)).store.supply = granted ++ left :=
      (BTree.supply_link ..).trans supply'
    obtain ⟨written, run, chained, kept⟩ := ih supply'' nonzero stored
    refine ⟨written, run, ⟨?_, chained⟩, fun other missing => ?_⟩
    · have prevKept : prevPage ∉ page.1 :: entryKeys granted :=
        fun member => notPrev prevPage member rfl
      rw [kept prevPage prevKept, elsewhere prevPage (notPrev _ List.mem_cons_self).symm,
        if_pos rfl]
      rfl
    · have notPrevious : other ≠ prevPage := fun same => missing (same ▸ List.mem_cons_self)
      have notWritten : other ∉ page.1 :: entryKeys granted :=
        fun member => missing (List.mem_cons_of_mem _ member)
      rw [kept other notWritten,
        elsewhere other fun same => notWritten (same ▸ List.mem_cons_self), if_neg notPrevious]

theorem writeOverflowPages_exhausted (value : Bytes) {granted : List (UInt64 × Memory)}
    {needed : Nat} {remaining : Bytes} {first prevPage : UInt64}
    (supply : tree.store.supply = granted) (short : granted.length < needed) :
    ∃ written, writeOverflowPages value needed remaining first prevPage tree =
      some (0, written) := by
  induction granted generalizing needed remaining first prevPage tree with
  | nil =>
    obtain ⟨needed, rfl⟩ : ∃ more, needed = more + 1 := ⟨needed - 1, by omega⟩
    refine ⟨tree, ?_⟩
    rw [writeOverflowPages, BTree.alloc_of_empty supply]
  | cons page granted ih =>
    rw [List.length_cons] at short
    obtain ⟨needed, rfl⟩ : ∃ more, needed = more + 1 := ⟨needed - 1, by omega⟩
    obtain ⟨allocated, grants, supply', held, -⟩ :=
      BTree.alloc_of_supply supply pageTypeOverflow
    rw [writeOverflowPages_succ value grants held]
    exact ih ((BTree.supply_link ..).trans supply') (by omega)

/-! ## What is read of what was written -/

theorem Chained.isSome (chained : Chained tree pages) {number : UInt64}
    (member : number ∈ entryKeys pages) :
    (tree.page number).isSome := by
  induction pages with
  | nil => cases member
  | cons page rest ih =>
    rcases List.mem_cons.mp member with rfl | later
    · rw [chained.1]
      rfl
    · exact ih chained.2 later

theorem Chained.congr {tree other : BTree} (chained : Chained tree pages)
    (agree : ∀ number ∈ entryKeys pages, other.page number = tree.page number) :
    Chained other pages := by
  induction pages with
  | nil => trivial
  | cons page rest ih =>
    exact ⟨(agree _ List.mem_cons_self).trans chained.1,
      ih chained.2 fun number member =>
        agree number (List.mem_cons_of_mem _ member)⟩

theorem length_contentsOf (pages : List (UInt64 × Memory)) :
    (contentsOf pages).length = payloadSize * pages.length := by
  induction pages with
  | nil => rfl
  | cons page rest ih =>
    have front : contentsOf (page :: rest) = payload page.2 ++ contentsOf rest := rfl
    rw [front, List.length_append, length_payload, ih, List.length_cons,
      Nat.mul_succ, Nat.add_comm]

theorem ready_images {granted : List (UInt64 × Memory)}
    (ready : ∀ page ∈ granted, page.1 ≠ 0 ∧ nextPage page.2 = 0) (remaining : Bytes) :
    ∀ page ∈ images granted remaining, Ready page := by
  induction granted generalizing remaining with
  | nil => exact nofun
  | cons page granted ih =>
    intro image member
    have here := ready page List.mem_cons_self
    rcases List.mem_cons.mp member with rfl | later
    · exact ⟨here.1, pageType_filled .., (nextPage_filled ..).trans here.2⟩
    · exact ih (fun other more => ready other (List.mem_cons_of_mem _ more))
        (remaining.drop payloadSize) image later

def Granted (tree written : BTree) (number : UInt64) : Prop :=
  tree.page number = none ∧ (written.page number).isSome

def grantedTo (tree : BTree) (value : Bytes) : List (UInt64 × Memory) :=
  tree.store.supply.take (pagesNeeded value)

def streamOf (tree : BTree) (value : Bytes) : Bytes :=
  value.take (payloadSize * (grantedTo tree value).length) ++
    (contentsOf (grantedTo tree value)).drop value.length

theorem writeOverflowValue_outcome {value : Bytes} (positive : 0 < value.length)
    (small : value.length < 2 ^ 32) (fresh : ∀ page ∈ tree.store.supply, nextPage page.2 = 0)
    (enough : pagesNeeded value ≤ tree.store.supply.length) :
    ∃ page written, writeOverflowValue tree value = some (page, written) ∧
      (∀ other : BTree,
        (∀ number, Granted tree written number → other.page number = written.page number) →
          readOverflowValue other page =
            collected value.length ((streamOf tree value).drop 4)) ∧
        ∀ number, ¬ Granted tree written number → written.page number = tree.page number := by
  have someNeeded : 0 < pagesNeeded value :=
    Nat.div_pos (show pageSize ≤ value.length + pageSize - 1 by omega) (by decide)
  have supply : tree.store.supply =
      grantedTo tree value ++ tree.store.supply.drop (pagesNeeded value) :=
    (List.take_append_drop _ _).symm
  have count : (grantedTo tree value).length = pagesNeeded value :=
    List.length_take_of_le enough
  have stream : streamOf tree value = contentsOf (images (grantedTo tree value) value) :=
    (contentsOf_images ..).symm
  have known : ∀ page ∈ grantedTo tree value, page.1 ≠ 0 ∧ nextPage page.2 = 0 := by
    intro page member
    have supplied := List.mem_of_mem_take member
    refine ⟨fun isZero => tree.store.nonzero ?_, fresh page supplied⟩
    exact List.mem_map.mpr ⟨page, supplied, isZero⟩
  have apart : (entryKeys (grantedTo tree value)).Nodup :=
    tree.store.distinct.sublist ((List.take_sublist _ _).map _)
  have unused : ∀ number ∈ entryKeys (grantedTo tree value), tree.page number = none :=
    fun number member => tree.store.fresh number
      (((List.take_sublist _ _).map _).subset member)
  rw [stream]
  generalize grantedTo tree value = granted at supply count known apart unused
  cases granted with
  | nil => exact absurd count (by simpa using someNeeded.ne)
  | cons page granted =>
    obtain ⟨allocated, grants, supply', held, others⟩ :=
      BTree.alloc_of_supply supply pageTypeOverflow
    have first : writeOverflowPages value (granted.length + 1) value 0 0 tree = _ :=
      writeOverflowPages_succ value grants held
    rw [if_pos rfl, if_pos rfl, BTree.link, if_pos rfl] at first
    have nonzero := (known page List.mem_cons_self).1
    have headPage : Ready (page.1, headed value (filled page.2 value)) := by
      refine ⟨nonzero, ?_, ?_⟩
      · rw [pageType_headed, pageType_filled]
      · rw [nextPage_headed, nextPage_filled]
        exact (known page List.mem_cons_self).2
    obtain ⟨written, run, chained, kept⟩ := writeOverflowPages_chained value
      (show (allocated.write page.1 (headed value (filled page.2 value))).store.supply = _ from
        supply') nonzero nonzero (BTree.page_write_self held _)
    have chainKeys : entryKeys ((page.1, headed value (filled page.2 value)) ::
        images granted (value.drop payloadSize)) = entryKeys (page :: granted) :=
      congrArg (page.1 :: ·) (entryKeys_images ..)
    have granted_of : ∀ number ∈ entryKeys (page :: granted), Granted tree written number :=
      fun number member => ⟨unused number member, chained.isSome (chainKeys ▸ member)⟩
    refine ⟨page.1, written, ?_, fun other agree => ?_, fun number notGranted => ?_⟩
    · rw [writeOverflowValue]
      change writeOverflowPages value (pagesNeeded value) value 0 0 tree = _
      rw [← count, List.length_cons, first, run]
    · have ready := ready_images (fun page member => known page (List.mem_cons_of_mem _ member))
        (value.drop payloadSize)
      rw [readOverflowValue_chained (List.forall_mem_cons.mpr ⟨headPage, ready⟩)
        (chainKeys ▸ apart)
        (chained.congr fun number member => agree number (granted_of number (chainKeys ▸ member)))
        (readNat_writeNat_self small) positive]
      have four : ∀ front : Memory, 4 ≤ (payload front).length := fun front => by
        rw [length_payload]
        decide
      have headFront : contentsOf ((page.1, headed value (filled page.2 value)) ::
          images granted (value.drop payloadSize)) =
            payload (headed value (filled page.2 value)) ++
              contentsOf (images granted (value.drop payloadSize)) := rfl
      have front : contentsOf (images (page :: granted) value) =
          payload (filled page.2 value) ++
            contentsOf (images granted (value.drop payloadSize)) := rfl
      rw [headFront, front, List.drop_append_of_le_length (four _),
        List.drop_append_of_le_length (four _), payload_headed,
        List.drop_left' (length_littleEndian 4 value.length)]
    · have notMember : number ∉ entryKeys (page :: granted) :=
        fun member => notGranted (granted_of number member)
      have different : number ≠ page.1 := fun same => notMember (same ▸ List.mem_cons_self)
      rw [kept number notMember, BTree.page_write_of_ne different]
      exact others number different

/-- The value is what it is read as, by its own pages, and the others are as they were. -/
structure OverflowRoundTrip (tree : BTree) (value : Bytes) : Prop where
  stored : ∃ page written, writeOverflowValue tree value = some (page, written) ∧
    (∀ other : BTree,
      (∀ number, Granted tree written number → other.page number = written.page number) →
        readOverflowValue other page = some value) ∧
      ∀ number, ¬ Granted tree written number → written.page number = tree.page number

def RepeatsOver (old value : Bytes) : Prop :=
  value.drop 4 ++ (old.drop value.length).take 4 = value

instance (old value : Bytes) : Decidable (RepeatsOver old value) :=
  inferInstanceAs (Decidable (_ = _))

theorem collected_eq_some_iff {value stream : Bytes} :
    collected value.length stream = some value ↔ stream.take value.length = value := by
  rw [collected]
  split_ifs with enough
  · exact Option.some_inj
  · refine ⟨nofun, fun same => absurd ?_ enough⟩
    rw [← same, List.length_take]
    exact Nat.min_le_right ..

theorem take_stream_iff {old value : Bytes} (long : 4 ≤ value.length) :
    ((value.take old.length ++ old.drop value.length).drop 4).take value.length = value ↔
      RepeatsOver old value := by
  rcases Nat.le_total value.length old.length with fits | short
  · rw [List.take_of_length_le fits, List.drop_append_of_le_length long, List.take_append,
      List.take_of_length_le (by simp), List.length_drop]
    have rest : value.length - (value.length - 4) = 4 := by omega
    rw [rest, RepeatsOver]
  · rw [RepeatsOver, List.drop_of_length_le short, List.append_nil, List.take_nil, List.append_nil]
    constructor
    all_goals
      intro same
      have lengths := congrArg List.length same
      simp only [List.length_take, List.length_drop] at lengths
      omega

theorem not_repeatsOver {old value : Bytes} (short : old.length ≤ value.length)
    (long : 0 < value.length) : ¬ RepeatsOver old value := by
  intro same
  rw [RepeatsOver, List.drop_of_length_le short, List.take_nil, List.append_nil] at same
  have lengths := congrArg List.length same
  rw [List.length_drop] at lengths
  omega

theorem overflowRoundTrip_iff_of_enough {value : Bytes} (long : 4 ≤ value.length)
    (small : value.length < 2 ^ 32) (fresh : ∀ page ∈ tree.store.supply, nextPage page.2 = 0)
    (enough : pagesNeeded value ≤ tree.store.supply.length) :
    OverflowRoundTrip tree value ↔ RepeatsOver (contentsOf (grantedTo tree value)) value := by
  obtain ⟨page, written, writes, reads, others⟩ :=
    writeOverflowValue_outcome (by omega) small fresh enough
  have iff : readOverflowValue written page = some value ↔
      RepeatsOver (contentsOf (grantedTo tree value)) value := by
    rw [reads written fun _ _ => rfl, collected_eq_some_iff, streamOf, ← length_contentsOf,
      take_stream_iff long]
  constructor
  · rintro ⟨page', written', writes', reads', -⟩
    rw [writes, Option.some.injEq, Prod.mk.injEq] at writes'
    obtain ⟨rfl, rfl⟩ := writes'
    exact iff.mp (reads' written fun _ _ => rfl)
  · intro repeats
    refine ⟨page, written, writes, fun other agree => ?_, others⟩
    rw [reads other agree, ← reads written fun _ _ => rfl]
    exact iff.mpr repeats

theorem not_overflowRoundTrip {value : Bytes} (few : tree.store.supply.length < pagesNeeded value) :
    ¬ OverflowRoundTrip tree value := by
  rintro ⟨page, written, writes, reads, -⟩
  obtain ⟨exhausted, fails⟩ := writeOverflowPages_exhausted value rfl few
  rw [writeOverflowValue] at writes
  change writeOverflowPages value (pagesNeeded value) value 0 0 tree = _ at writes
  rw [fails, Option.some.injEq, Prod.mk.injEq] at writes
  obtain ⟨rfl, rfl⟩ := writes
  have nothing := reads exhausted fun _ _ => rfl
  rw [readOverflowValue, if_pos rfl] at nothing
  cases nothing

/-- A value comes back from its overflow pages if and only if it repeats itself every four bytes,
up to the four bytes that were in the last page behind it. -/
theorem overflowRoundTrip_iff (tree : BTree) (value : Bytes)
    (large : overflowThreshold < value.length) (small : value.length < 2 ^ 32)
    (fresh : ∀ page ∈ tree.store.supply, nextPage page.2 = 0) :
    OverflowRoundTrip tree value ↔
      RepeatsOver (contentsOf (tree.store.supply.take (pagesNeeded value))) value := by
  have long : 4 ≤ value.length := Nat.le_trans (by decide) large.le
  rcases Nat.lt_or_ge tree.store.supply.length (pagesNeeded value) with few | enough
  · have short : (contentsOf (tree.store.supply.take (pagesNeeded value))).length ≤
        value.length := by
      rw [length_contentsOf, List.take_of_length_le few.le]
      simp only [pagesNeeded, pageSize, payloadSize, pageHeaderSize] at *
      omega
    exact iff_of_false (not_overflowRoundTrip few) (not_repeatsOver short (by omega))
  · exact overflowRoundTrip_iff_of_enough long small fresh enough

/-- A store with one page of zeros to hand out. -/
def onePageLeft : BTree where
  rootPage := 0
  store :=
    { pages := fun _ => none
      supply := [(1, fun _ => 0)]
      distinct := by decide
      nonzero := by decide
      fresh := fun _ _ => rfl }

theorem fresh_onePageLeft : ∀ page ∈ onePageLeft.store.supply, nextPage page.2 = 0 := by
  decide

theorem overflowRoundTrip_zeros : OverflowRoundTrip onePageLeft (List.replicate 2049 0) :=
  (overflowRoundTrip_iff onePageLeft _ (by rw [List.length_replicate]; decide)
    (by rw [List.length_replicate]; decide) fresh_onePageLeft).mpr (by decide +kernel)

/-- The length is where the first byte was. -/
theorem overflowRoundTrip_one_zeros :
    ¬ OverflowRoundTrip onePageLeft (1 :: List.replicate 2048 0) := by
  rw [overflowRoundTrip_iff_of_enough (by decide +kernel) (by decide +kernel) fresh_onePageLeft
    (by decide +kernel)]
  decide +kernel

end Jdbx
