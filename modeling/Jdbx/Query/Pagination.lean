import Jdbx.Query.QueryExecution

/-!
# The pages of a query result

The options name a page and a page size, the query cuts out a window, and
`query_create_pagination_info` counts the pages.  The three agree where a page
has a size and the arithmetic of the window stays within an `int`.
-/

namespace Jdbx

open Library

section Pagination

variable {δ : Type} [CDouble δ] {total size : Nat}

/-- The information about the pages fits a window of `count` documents that starts
after `skip` of `total`. -/
structure Paged (skip limit : Int32) (total count : Nat) (info : PaginationInfo) : Prop where
  totalCount : info.totalCount.toInt = total
  pageCount : info.pageCount.toInt = count
  skipped : skip.toInt = (info.page.toInt - 1) * info.pageSize.toInt
  limited : limit = info.pageSize
  lastPage : (info.totalPages.toInt - 1) * info.pageSize.toInt < total
  allPages : (total : Int) ≤ info.totalPages.toInt * info.pageSize.toInt
  hasNext : info.hasNextPage = true ↔ skip.toInt + count < total
  hasPrev : info.hasPrevPage = true ↔ 0 < skip.toInt

/-- The query has a result, and the information about its pages fits the window. -/
def PaginationHolds (expr : QueryExpr δ) (documents : List (JsonValue δ))
    (optionsJson : JsonValue δ) : Prop :=
  let options := queryParseOptions optionsJson
  ∃ result, queryExecute (some expr) (.array documents) (some options) = some result ∧
    (options.paginationType ≠ .none → matching expr documents ≠ [] →
      ∃ info, result.pagination = some info ∧
        Paged (max 0 options.skip) (max 0 options.limit) (matching expr documents).length
          result.documents.length info)

/-- `page`, from 1. -/
def requestedPage (optionsJson : JsonValue δ) : Int32 :=
  max 1 ((optionInt optionsJson (ascii "page")).getD 1)

/-- `page_size`, 0 where there is none. -/
def requestedPageSize (optionsJson : JsonValue δ) : Int32 :=
  max 0 ((optionInt optionsJson (ascii "page_size")).getD 0)

/-- The options have a number for `page` or for `page_size`. -/
def AsksForPages (optionsJson : JsonValue δ) : Prop :=
  (optionInt optionsJson (ascii "page")).isSome ∨ (optionInt optionsJson (ascii "page_size")).isSome

/-- The page has a size, and neither its start nor the rounding up of `total` leaves
the range of an `int`. -/
def PageFits (page pageSize : Int32) (total : Nat) : Prop :=
  0 < pageSize ∧ (page.toInt - 1) * pageSize.toInt < 2 ^ 31 ∧ total + pageSize.toInt ≤ 2 ^ 31

theorem queryParseOptions_paginationType {optionsJson : JsonValue δ}
    (noCursor : jsonGetString (jsonObjectGet optionsJson (ascii "cursor")) = none) :
    (queryParseOptions optionsJson).paginationType = .offset ∧ AsksForPages optionsJson ∨
      (queryParseOptions optionsJson).paginationType = .none ∧ ¬ AsksForPages optionsJson := by
  by_cases asks : AsksForPages optionsJson
  · left
    refine ⟨?_, asks⟩
    unfold AsksForPages at asks
    simp only [queryParseOptions, noCursor, Option.isSome_none, Bool.false_eq_true, if_false,
      if_pos asks]
  · right
    refine ⟨?_, asks⟩
    unfold AsksForPages at asks
    simp only [queryParseOptions, noCursor, Option.isSome_none, Bool.false_eq_true, if_false,
      if_neg asks]

omit [CDouble δ] in
theorem takenWindow_length {left right : List (JsonValue δ)} (same : left.length = right.length)
    (skip limit : Int32) :
    (takenWindow skip limit left).length = (takenWindow skip limit right).length := by
  unfold takenWindow
  rw [List.length_drop, List.length_take, List.length_drop, List.length_take, same]

theorem queryExecute_results (expr : QueryExpr δ) (documents : List (JsonValue δ))
    (options : PagedOptions δ) :
    ∃ results : List (JsonValue δ),
      results.length =
          (takenWindow (max 0 options.skip) (max 0 options.limit)
            (matching expr documents)).length ∧
        queryExecute (some expr) (.array documents) (some options) =
          (if options.paginationType ≠ PaginationType.none then
              queryCreatePaginationInfo options
                (Int32.ofNat (matching expr documents).length) results
            else some none).map fun pagination =>
            { documents := results
              count := Int32.ofNat results.length
              totalCount := Int32.ofNat (matching expr documents).length
              pagination } := by
  have selected : ((documents.filter fun document =>
      queryMatchDocument (some expr) document).map jsonClone).length =
        (matching expr documents).length := List.length_map _
  have sorted := (sortMatches_perm options.sort ((documents.filter fun document =>
    queryMatchDocument (some expr) document).map jsonClone)).length_eq.trans selected
  refine ⟨?results, ?length, ?executed⟩
  case executed =>
    rw [← selected]
    rfl
  case length => exact (List.length_map _).trans (takenWindow_length sorted _ _)

/-! ## The arithmetic of a page

Every value of a page that fits is a natural number below `2 ^ 31`.
-/

theorem exists_ofNat {value : Int32} (nonneg : 0 ≤ value) :
    ∃ n, n < 2 ^ 31 ∧ value = Int32.ofNat n :=
  ⟨value.toNatClampNeg, value.toNatClampNeg_lt, (Int32.ofNat_toNatClampNeg value nonneg).symm⟩

omit [CDouble δ] in
theorem takenWindow_page {start size : Nat} {documents : List (JsonValue δ)}
    (positive : 0 < size) (startFits : start < 2 ^ 31) (sizeFits : size < 2 ^ 31)
    (countFits : documents.length + size ≤ 2 ^ 31) :
    (takenWindow (Int32.ofNat start) (Int32.ofNat size) documents).length =
      min size (documents.length - start) := by
  have skip : (Int32.ofNat start).toInt = start := toInt_ofNat_eq.mpr startFits
  have limit : (Int32.ofNat size).toInt = size := toInt_ofNat_eq.mpr sizeFits
  have whole : ¬ Truncates (Int32.ofNat start) (Int32.ofNat size) documents.length := by
    unfold Truncates
    omega
  rw [takenWindow_eq documents (by omega) (by omega) (by omega), if_neg whole, skip, limit,
    Int.toNat_natCast, Int.toNat_natCast, windowOf, if_neg positive.ne', List.length_take,
    List.length_drop]

theorem totalPages_toInt (positive : 0 < size) (fits : total + size ≤ 2 ^ 31)
    (sizeFits : size < 2 ^ 31) :
    ((Int32.ofNat total + Int32.ofNat size - 1) / Int32.ofNat size).toInt =
      pageTotal total size := by
  have sizeInt : (Int32.ofNat size).toInt = size := toInt_ofNat_eq.mpr sizeFits
  have notMinusOne : Int32.ofNat size ≠ -1 := by
    intro same
    rw [same] at sizeInt
    simp at sizeInt
  have sum : Int32.ofNat total + Int32.ofNat size - 1 = Int32.ofNat (total + size - 1) := by
    have one : total + size = (total + size - 1) + 1 := by omega
    rw [← Int32.ofNat_add, one, Int32.ofNat_add]
    simp
  rw [Int32.toInt_div_of_ne_right _ _ notMinusOne, sum, sizeInt,
    toInt_ofNat_eq.mpr (by omega : total + size - 1 < 2 ^ 31), ← Int.ofNat_tdiv, pageTotal]

theorem totalPages_nonpos (totalFits : total < 2 ^ 31) (sizeFits : size < 2 ^ 31)
    (large : 2 ^ 31 < total + size) :
    ((Int32.ofNat total + Int32.ofNat size - 1) / Int32.ofNat size).toInt ≤ 0 := by
  have totalInt : (Int32.ofNat total).toInt = total := toInt_ofNat_eq.mpr totalFits
  have sizeInt : (Int32.ofNat size).toInt = size := toInt_ofNat_eq.mpr sizeFits
  have notMinusOne : Int32.ofNat size ≠ -1 := by
    intro same
    rw [same] at sizeInt
    simp at sizeInt
  have sum : (Int32.ofNat total + Int32.ofNat size - 1).toInt ≤ 0 := by
    rw [Int32.toInt_sub, Int32.toInt_add, totalInt, sizeInt, Int32.toInt_one]
    simp only [Int.bmod_def]
    omega
  rw [Int32.toInt_div_of_ne_right _ _ notMinusOne, sizeInt]
  have flipped := Int.neg_tdiv (Int32.ofNat total + Int32.ofNat size - 1).toInt (size : Int)
  have nonneg := Int.tdiv_nonneg (a := -(Int32.ofNat total + Int32.ofNat size - 1).toInt)
    (b := (size : Int)) (by omega) (by omega)
  omega

theorem succ_lt_pageTotal_iff {total size index : Nat} (positive : 0 < size) :
    index + 1 < pageTotal total size ↔ (index + 1) * size < total := by
  rw [pageTotal, Nat.lt_iff_add_one_le, Nat.le_div_iff_mul_le positive, Nat.succ_mul (index + 1)]
  omega

theorem pageTotal_pred_mul_lt (positive : 0 < size) (some : 0 < total) :
    ((pageTotal total size : Int) - 1) * size < total := by
  have below := Nat.div_mul_le_self (total + size - 1) size
  have product : pageTotal total size * size < total + size := by
    rw [pageTotal]
    omega
  rw [Int.sub_mul, Int.one_mul]
  have cast : (pageTotal total size : Int) * size = (pageTotal total size * size : Nat) := by
    push_cast
    rfl
  omega

/-- What `query_create_pagination_info` fills in for a page with a size. -/
def pageInfo (page pageSize totalCount : Int32) (count : Nat) : PaginationInfo :=
  let totalPages := (totalCount + pageSize - 1) / pageSize
  { totalCount
    pageCount := Int32.ofNat count
    page
    pageSize
    totalPages
    hasNextPage := page < totalPages
    hasPrevPage := 1 < page
    nextCursor := none
    prevCursor := none }

theorem queryCreatePaginationInfo_eq {options : PagedOptions δ}
    (offset : options.paginationType = .offset) (totalCount : Int32)
    (documents : List (JsonValue δ)) :
    queryCreatePaginationInfo options totalCount documents =
      if totalCount ≤ 0 then some none
      else if options.pageSize = 0 then none
      else some (some (pageInfo options.page options.pageSize totalCount documents.length)) := by
  simp only [queryCreatePaginationInfo, offset, pageInfo]

section Page

variable {page pageSize : Int32} {documents : List (JsonValue δ)}

theorem le_maxInt (bound value : Int32) : bound ≤ max bound value := by
  change bound ≤ if bound ≤ value then value else bound
  split
  · assumption
  · exact Int32.le_refl bound

/-- The start of a page, as `query_execute` uses it. -/
def pageStart (page pageSize : Int32) : Int32 :=
  max 0 ((page - 1) * pageSize)

omit [CDouble δ] in
theorem pageFits_of_paged (sizePositive : 0 < pageSize)
    (someMatch : documents ≠ []) {count : Nat}
    (paged : Paged (pageStart page pageSize) pageSize documents.length count
      (pageInfo page pageSize (Int32.ofNat documents.length) count)) :
    PageFits page pageSize documents.length := by
  have startInt := paged.skipped
  have startSmall := Int32.toInt_lt (pageStart page pageSize)
  refine ⟨sizePositive, startInt ▸ startSmall, ?_⟩
  obtain ⟨size, sizeFits, rfl⟩ := exists_ofNat (Int32.le_of_lt sizePositive)
  have sizeInt : (Int32.ofNat size).toInt = size := toInt_ofNat_eq.mpr sizeFits
  have totalFits : documents.length < 2 ^ 31 := toInt_ofNat_eq.mp paged.totalCount
  rw [sizeInt]
  by_contra large
  have noPage := totalPages_nonpos totalFits sizeFits (by omega)
  have covered : (documents.length : Int) ≤ _ * _ := paged.allPages
  rw [show (pageInfo page (Int32.ofNat size) (Int32.ofNat documents.length) count).pageSize.toInt =
    size from sizeInt] at covered
  have nothing := Int.mul_le_mul_of_nonneg_right noPage (Int.natCast_nonneg size)
  have length := List.length_pos_iff.mpr someMatch
  have zero : (documents.length : Int) ≤ 0 * size := covered.trans nothing
  omega

omit [CDouble δ] in
theorem paged_of_pageFits (pagePositive : 1 ≤ page) (someMatch : documents ≠ [])
    (fits : PageFits page pageSize documents.length) :
    Paged (pageStart page pageSize) pageSize documents.length
      (takenWindow (pageStart page pageSize) pageSize documents).length
      (pageInfo page pageSize (Int32.ofNat documents.length)
        (takenWindow (pageStart page pageSize) pageSize documents).length) := by
  obtain ⟨sizePositive, startFits, countFits⟩ := fits
  obtain ⟨size, sizeFits, rfl⟩ := exists_ofNat (Int32.le_of_lt sizePositive)
  have sizeInt : (Int32.ofNat size).toInt = size := toInt_ofNat_eq.mpr sizeFits
  have positive : 0 < size := by
    have aboveZero := Int32.lt_iff_toInt_lt.mp sizePositive
    rw [sizeInt] at aboveZero
    exact Int.natCast_pos.mp aboveZero
  obtain ⟨index, pageFits, rfl⟩ : ∃ index, index + 1 < 2 ^ 31 ∧ page = Int32.ofNat (index + 1) := by
    obtain ⟨number, numberFits, rfl⟩ := exists_ofNat (Int32.le_trans (by decide) pagePositive)
    have aboveOne := Int32.le_iff_toInt_le.mp pagePositive
    rw [toInt_ofNat_eq.mpr numberFits] at aboveOne
    cases number with
    | zero => simp at aboveOne
    | succ index => exact ⟨index, numberFits, rfl⟩
  have pageInt : (Int32.ofNat (index + 1)).toInt = (index + 1 : Nat) :=
    toInt_ofNat_eq.mpr pageFits
  have total := List.length_pos_iff.mpr someMatch
  rw [sizeInt] at countFits
  have countFits : documents.length + size ≤ 2 ^ 31 := by omega
  have startSmall : index * size < 2 ^ 31 := by
    rw [pageInt, sizeInt, Int.natCast_succ, Int.add_sub_cancel] at startFits
    exact_mod_cast startFits
  have start : pageStart (Int32.ofNat (index + 1)) (Int32.ofNat size) =
      Int32.ofNat (index * size) := by
    have before : Int32.ofNat (index + 1) - 1 = Int32.ofNat index := by
      rw [Int32.ofNat_add]
      simp
    rw [pageStart, before, ← Int32.ofNat_mul]
    apply max_zero_of_nonneg
    rw [Int32.le_iff_toInt_le, toInt_ofNat_eq.mpr startSmall]
    exact Int.natCast_nonneg _
  have startInt : (pageStart (Int32.ofNat (index + 1)) (Int32.ofNat size)).toInt =
      (index * size : Nat) := by
    rw [start, toInt_ofNat_eq.mpr startSmall]
  have pages := totalPages_toInt positive countFits sizeFits
  have taken : (takenWindow (pageStart (Int32.ofNat (index + 1)) (Int32.ofNat size))
      (Int32.ofNat size) documents).length = min size (documents.length - index * size) := by
    rw [start, takenWindow_page positive startSmall sizeFits countFits]
  constructor
  · exact toInt_ofNat_eq.mpr (by omega)
  · exact toInt_ofNat_eq.mpr (by omega)
  · simp only [pageInfo]
    rw [startInt, pageInt, sizeInt]
    push_cast
    rw [Int.add_sub_cancel]
  · rfl
  · simp only [pageInfo]
    rw [pages, sizeInt]
    exact pageTotal_pred_mul_lt positive total
  · simp only [pageInfo]
    rw [pages, sizeInt]
    exact_mod_cast le_pageTotal_mul positive
  · have next : Int32.ofNat (index + 1) <
        (Int32.ofNat documents.length + Int32.ofNat size - 1) / Int32.ofNat size ↔
          (index + 1) * size < documents.length := by
      rw [Int32.lt_iff_toInt_lt, pageInt, pages, Int.ofNat_lt, succ_lt_pageTotal_iff positive]
    simp only [pageInfo, decide_eq_true_iff, next]
    rw [startInt, taken, Nat.succ_mul]
    omega
  · simp only [pageInfo, decide_eq_true_iff]
    rw [Int32.lt_iff_toInt_lt, pageInt, startInt, Int32.toInt_one]
    have started : 0 < index * size ↔ 0 < index := by
      rw [Nat.mul_pos_iff_of_pos_right positive]
    omega

end Page

theorem queryParseOptions_sized {optionsJson : JsonValue δ}
    (sized : 0 < requestedPageSize optionsJson) :
    max 0 (queryParseOptions optionsJson).skip =
        pageStart (requestedPage optionsJson) (requestedPageSize optionsJson) ∧
      max 0 (queryParseOptions optionsJson).limit = requestedPageSize optionsJson := by
  unfold requestedPageSize at sized
  constructor
  · simp only [queryParseOptions, if_pos sized]
    rfl
  · simp only [queryParseOptions, if_pos sized]
    exact max_zero_of_nonneg (Int32.le_of_lt sized)

omit [CDouble δ] in
theorem pageFits_count {page pageSize : Int32} {total : Nat} (someMatch : 0 < total)
    (fits : PageFits page pageSize total) : 0 < Int32.ofNat total := by
  obtain ⟨sizePositive, -, countFits⟩ := fits
  have sizeInt : 0 < pageSize.toInt := Int32.lt_iff_toInt_lt.mp sizePositive
  rw [Int32.lt_iff_toInt_lt, toInt_ofNat_eq.mpr (by omega)]
  exact Int.natCast_pos.mpr someMatch

omit [CDouble δ] in
theorem length_takenWindow_le {skip limit : Int32} (skipNonneg : 0 ≤ skip)
    (limitPositive : 0 < limit) (documents : List (JsonValue δ)) :
    (takenWindow skip limit documents).length ≤ limit.toInt.toNat := by
  have positive : 0 < limit.toInt := Int32.lt_iff_toInt_lt.mp limitPositive
  have nonneg : 0 ≤ skip.toInt := Int32.le_iff_toInt_le.mp skipNonneg
  have skipSmall := Int32.toInt_lt skip
  have limitSmall := Int32.toInt_lt limit
  have sum : (skip + limit).toInt ≤ skip.toInt + limit.toInt := by
    rw [Int32.toInt_add, Int.bmod_def]
    omega
  have last : (maxIndex skip limit documents.length).toInt ≤ (skip + limit).toInt := by
    unfold maxIndex
    simp only [if_pos limitPositive]
    split
    · exact le_refl _
    · rename_i within
      exact Int32.le_iff_toInt_le.mp (Int32.not_lt.mp within)
  rw [takenWindow, List.length_drop, List.length_take]
  omega

/-- Whatever the options, an answer has at most `limit` documents, all of them matches and none
more often than it was found. -/
theorem queryExecute_selects (expr : QueryExpr δ) (documents : List (JsonValue δ))
    (options : PagedOptions δ) {result : QueryResult δ}
    (executed : queryExecute (some expr) (.array documents) (some options) = some result) :
    ∃ selected : List (JsonValue δ), selected.Subperm ((matching expr documents).map jsonClone) ∧
      result.documents = selected.map (fun document =>
        options.projection.elim (jsonClone document) (queryApplyProjection document)) ∧
        (0 < options.limit → selected.length ≤ options.limit.toInt.toNat) := by
  obtain ⟨pagination, -, rfl⟩ := Option.map_eq_some_iff.mp executed
  refine ⟨takenWindow (max 0 options.skip) (max 0 options.limit)
    (sortMatches options.sort ((matching expr documents).map jsonClone)), ?_, ?_, ?_⟩
  · rw [takenWindow]
    exact ((List.drop_sublist _ _).trans (List.take_sublist _ _)).subperm.trans
      (sortMatches_perm _ _).subperm
  · cases projects : options.projection <;> simp [projects, takenWindow, matching]
  · intro positive
    rw [max_zero_of_nonneg (Int32.le_of_lt positive)]
    exact length_takenWindow_le (le_maxInt 0 _) positive _

/-- For options without a cursor, no page is divided by zero and the information about
the pages fits the window just where the page has a size and its arithmetic stays
within an `int`, or no page is asked for, or nothing matches. -/
theorem pagination_holds_iff (expr : QueryExpr δ) (documents : List (JsonValue δ))
    {optionsJson : JsonValue δ}
    (noCursor : jsonGetString (jsonObjectGet optionsJson (ascii "cursor")) = none) :
    PaginationHolds expr documents optionsJson ↔
      (AsksForPages optionsJson → matching expr documents ≠ [] →
        PageFits (requestedPage optionsJson) (requestedPageSize optionsJson)
          (matching expr documents).length) := by
  obtain ⟨results, length, executed⟩ :=
    queryExecute_results expr documents (queryParseOptions optionsJson)
  unfold PaginationHolds
  simp only
  rw [executed]
  obtain ⟨offset, asks⟩ | ⟨unpaged, asksNot⟩ := queryParseOptions_paginationType noCursor
  · have paged : (queryParseOptions optionsJson).paginationType ≠ .none := by
      rw [offset]
      decide
    have page : (queryParseOptions optionsJson).page = requestedPage optionsJson := rfl
    have pageSize : (queryParseOptions optionsJson).pageSize = requestedPageSize optionsJson := rfl
    rw [if_pos paged, queryCreatePaginationInfo_eq offset, page, pageSize]
    by_cases someMatch : matching expr documents = []
    · simp [someMatch]
    have total := List.length_pos_iff.mpr someMatch
    by_cases counted : Int32.ofNat (matching expr documents).length ≤ 0
    · rw [if_pos counted]
      constructor
      · rintro ⟨result, same, information⟩
        obtain ⟨info, held, -⟩ := information paged someMatch
        rw [← Option.some.inj same] at held
        cases held
      · intro fits
        exact absurd counted (Int32.not_le.mpr (pageFits_count total (fits asks someMatch)))
    by_cases sized : requestedPageSize optionsJson = 0
    · rw [if_neg counted, if_pos sized]
      constructor
      · rintro ⟨result, same, -⟩
        cases same
      · intro fits
        exact absurd (fits asks someMatch).1 (by rw [sized]; decide)
    have sizePositive : 0 < requestedPageSize optionsJson :=
      Int32.lt_of_le_of_ne (le_maxInt 0 _) (Ne.symm sized)
    obtain ⟨start, limit⟩ := queryParseOptions_sized sizePositive
    rw [start, limit] at length
    rw [if_neg counted, if_neg sized, length, start, limit]
    constructor
    · rintro ⟨result, same, information⟩ - -
      obtain ⟨info, held, fits⟩ := information paged someMatch
      cases same
      cases held
      simp only [length] at fits
      exact pageFits_of_paged sizePositive someMatch fits
    · intro fits
      refine ⟨_, rfl, fun _ _ => ⟨_, rfl, ?_⟩⟩
      simp only [length]
      exact paged_of_pageFits (le_maxInt 1 _) someMatch (fits asks someMatch)
  · rw [if_neg (by rw [unpaged]; simp)]
    constructor
    · intro _ asks
      exact absurd asks asksNot
    · intro _
      exact ⟨_, rfl, fun paged => absurd unpaged paged⟩

end Pagination

theorem queryExecute_selects_largeLimit :
    ∃ (result : QueryResult Rat) (selected : List (JsonValue Rat)),
      queryExecute (some sampleExpr) (.array [sampleDocument, sampleDocument])
        (some (windowOptions 1 2147483647 none)) = some result ∧
      selected.Subperm ((matching sampleExpr [sampleDocument, sampleDocument]).map jsonClone) ∧
        result.documents.length = selected.length := by
  have answers : (queryExecute (some sampleExpr) (.array [sampleDocument, sampleDocument])
      (some (windowOptions 1 2147483647 none))).isSome := by
    decide
  obtain ⟨result, executed⟩ := Option.isSome_iff_exists.mp answers
  obtain ⟨selected, found, projected, -⟩ := queryExecute_selects _ _ _ executed
  exact ⟨result, selected, executed, found, by rw [projected, List.length_map]⟩

theorem pagination_holds_secondPage :
    PaginationHolds sampleExpr [sampleDocument, sampleDocument, sampleDocument]
      (pageRequest 2 2 none) := by
  apply (pagination_holds_iff sampleExpr _ _).mpr
  · intro _ _
    refine ⟨?_, ?_, ?_⟩ <;> decide
  · decide

/-- `{"page":1}` divides by the page size of 0. -/
theorem not_paginationHolds_withoutSize :
    ¬ PaginationHolds sampleExpr [sampleDocument] (.object [(ascii "page", .integer 1)]) := by
  rintro ⟨result, executed, -⟩
  have divided : (queryExecute (some sampleExpr) (.array [sampleDocument])
      (some (queryParseOptions (.object [(ascii "page", .integer 1)])))).isNone = true := by
    decide
  rw [executed] at divided
  cases divided

end Jdbx
