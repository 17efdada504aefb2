import Jdbx.Query.QueryLanguage
import Jdbx.Utils.JsonStringify

/-!
# Executing a query

`query_execute` filters the documents, sorts the matches and cuts out a window
of them; `query_parse_options` computes the window of a page.  An `int` wraps
around.  A division by zero gives no result.
-/

namespace Jdbx

open Library

inductive PaginationType where
  | none
  | offset
  | cursor
  deriving DecidableEq, Repr

/-- `query_options_t`. -/
structure PagedOptions (δ : Type) extends QueryOptions δ where
  page : Int32
  pageSize : Int32
  paginationType : PaginationType
  cursor : Option Bytes

structure PaginationInfo where
  totalCount : Int32
  pageCount : Int32
  page : Int32
  pageSize : Int32
  totalPages : Int32
  hasNextPage : Bool
  hasPrevPage : Bool
  nextCursor : Option Bytes
  prevCursor : Option Bytes
  deriving DecidableEq, Repr

structure QueryResult (δ : Type) where
  documents : List (JsonValue δ)
  count : Int32
  totalCount : Int32
  pagination : Option PaginationInfo

section Execution

variable {δ : Type} [CDouble δ] {skip limit : Int32}

/-- The sign of `strcmp`. -/
def strcmpSign (left right : Bytes) : Int :=
  if left < right then -1 else if right < left then 1 else 0

def compareValues : JsonValue δ → JsonValue δ → Int
  | .boolean a, .boolean b => (if a then 1 else 0) - (if b then 1 else 0)
  | .integer a, .integer b => if a < b then -1 else if b < a then 1 else 0
  | .number a, .number b => if CDouble.lt a b then -1 else if CDouble.lt b a then 1 else 0
  | .string a, .string b => strcmpSign a b
  | _, _ => 0

def compareDocuments (a b : JsonValue δ) (field : Bytes) (ascending : Bool) : Int :=
  match queryExtractField a field, queryExtractField b field with
  | none, none => 0
  | none, some _ => if ascending then -1 else 1
  | some _, none => if ascending then 1 else -1
  | some aValue, some bValue =>
      let result : Int :=
        if aValue.type ≠ bValue.type then
          (typeNumber aValue.type).toNat - (typeNumber bValue.type).toNat
        else compareValues aValue bValue
      if ascending then result else -result

def sortField (entry : Bytes × JsonValue δ) : Bytes × Bool :=
  match entry.2 with
  | .integer direction => (entry.1, 0 ≤ direction)
  | .string direction => (entry.1, direction = ascii "asc")
  | _ => (entry.1, true)

def swaps (sortFields : List (Bytes × Bool)) (a b : JsonValue δ) : Bool :=
  match sortFields with
  | [] => false
  | (field, ascending) :: rest =>
      let cmp := compareDocuments a b field ascending
      if cmp < 0 then false else if 0 < cmp then true else swaps rest a b

/-- The body of the bubble sort at `j`. -/
def bubbleStep (sortFields : List (Bytes × Bool)) (documents : List (JsonValue δ)) (j : Nat) :
    List (JsonValue δ) :=
  match documents[j]?, documents[j + 1]? with
  | some a, some b => if swaps sortFields a b then (documents.set j b).set (j + 1) a else documents
  | _, _ => documents

/-- `query_apply_sort` on the items of an array.  The bounds of both loops wrap
around on an empty array. -/
def queryApplySort (documents : List (JsonValue δ)) : JsonValue δ → List (JsonValue δ)
  | .object [] => documents
  | .object entries =>
      let sortFields := entries.map sortField
      let size := UInt64.ofNat documents.length
      (List.range (size - 1).toNat).foldl
        (fun documents i =>
          (List.range (size - UInt64.ofNat i - 1).toNat).foldl (bubbleStep sortFields) documents)
        documents
  | _ => documents

def projectionFlag : JsonValue δ → Option Bool
  | .integer integer => some (integer.toInt32 ≠ 0)
  | .boolean boolean => some boolean
  | _ => none

/-- Whether the projection includes or excludes fields: `some none` where it
names none, and `none` where it mixes the two. -/
def projectionMode : List (Bytes × JsonValue δ) → Option Bool → Option (Option Bool)
  | [], mode => some mode
  | (key, value) :: entries, mode =>
      if key = ascii "uuid" then projectionMode entries mode
      else
        match projectionFlag value, mode with
        | none, _ => projectionMode entries mode
        | some flag, none => projectionMode entries (some flag)
        | some flag, some includeMode =>
            if flag = includeMode then projectionMode entries mode else none

def projectedDocument (entries projection : List (Bytes × JsonValue δ)) (includeMode : Bool) :
    JsonValue δ :=
  let includeId := ((getEntry (ascii "uuid") projection).bind projectionFlag).getD true
  let start : JsonValue δ :=
    match getEntry (ascii "uuid") entries with
    | some id => if includeId then jsonObjectSet (.object []) (ascii "uuid") (jsonClone id)
        else .object []
    | none => .object []
  entries.foldl
    (fun result entry =>
      if entry.1 = ascii "uuid" then result
      else
        let includeField :=
          ((getEntry entry.1 projection).bind projectionFlag).getD !includeMode
        if includeField = includeMode then jsonObjectSet result entry.1 (jsonClone entry.2)
        else result)
    start

def queryApplyProjection (document projection : JsonValue δ) : JsonValue δ :=
  match document, projection with
  | .object entries, .object projection =>
      match projectionMode projection none with
      | some (some includeMode) => projectedDocument entries projection includeMode
      | _ => jsonClone document
  | _, _ => jsonClone document

def queryGenerateCursor (document : JsonValue δ) (options : PagedOptions δ) : Option Bytes :=
  match options.sort with
  | some (.object entries) =>
      some (jsonStringify (entries.foldl
        (fun cursorData entry =>
          match queryExtractField document entry.1 with
          | some fieldValue => jsonObjectSet cursorData entry.1 (jsonClone fieldValue)
          | none => cursorData)
        (.object [])))
  | _ => none

/-- `query_create_pagination_info`.  The outer `none` is a division by zero. -/
def queryCreatePaginationInfo (options : PagedOptions δ) (totalCount : Int32)
    (documents : List (JsonValue δ)) : Option (Option PaginationInfo) :=
  if totalCount ≤ 0 then some none
  else
    let pageCount := Int32.ofNat documents.length
    match options.paginationType with
    | .offset =>
        if options.pageSize = 0 then none
        else
          let totalPages := (totalCount + options.pageSize - 1) / options.pageSize
          some (some
            { totalCount
              pageCount
              page := options.page
              pageSize := options.pageSize
              totalPages
              hasNextPage := options.page < totalPages
              hasPrevPage := 1 < options.page
              nextCursor := none
              prevCursor := none })
    | .cursor =>
        let hasNextPage := pageCount == options.limit
        some (some
          { totalCount
            pageCount
            page := 0
            pageSize := options.limit
            totalPages := 0
            hasNextPage
            hasPrevPage := options.cursor.isSome
            nextCursor :=
              if hasNextPage then
                documents.getLast?.bind fun last => queryGenerateCursor last options
              else none
            prevCursor := options.cursor })
    | .none =>
        some (some
          { totalCount
            pageCount
            page := 1
            pageSize := totalCount
            totalPages := 1
            hasNextPage := false
            hasPrevPage := false
            nextCursor := none
            prevCursor := none })

def sortMatches (sort : Option (JsonValue δ)) (documents : List (JsonValue δ)) :
    List (JsonValue δ) :=
  match sort with
  | some sort => queryApplySort documents sort
  | none => documents

/-- The end of the window in `matches`. -/
def maxIndex (skip limit : Int32) (size : Nat) : Int32 :=
  let size := Int32.ofNat size
  if 0 < limit then
    if skip + limit < size then skip + limit else size
  else size

def queryExecute (expr : Option (QueryExpr δ)) (documents : JsonValue δ)
    (options : Option (PagedOptions δ)) : Option (QueryResult δ) :=
  match expr, documents with
  | some expr, .array documents =>
      let selected :=
        (documents.filter fun document => queryMatchDocument (some expr) document).map jsonClone
      let totalCount := Int32.ofNat selected.length
      let sorted := sortMatches (options.bind fun options => options.sort) selected
      let skip := max 0 ((options.map fun options => options.skip).getD 0)
      let limit := max 0 ((options.map fun options => options.limit).getD 0)
      let window :=
        (sorted.take (maxIndex skip limit sorted.length).toInt.toNat).drop skip.toInt.toNat
      let results := window.map fun document =>
        match options.bind fun options => options.projection with
        | some projection => queryApplyProjection document projection
        | none => jsonClone document
      let pagination :=
        match options with
        | some options =>
            if options.paginationType ≠ PaginationType.none then
              queryCreatePaginationInfo options totalCount results
            else some none
        | none => some none
      pagination.map fun pagination =>
        { documents := results
          count := Int32.ofNat results.length
          totalCount
          pagination }
  | _, _ => some { documents := [], count := 0, totalCount := 0, pagination := none }

/-- A number of the options as an `int`. -/
def optionInt (optionsJson : JsonValue δ) (key : Bytes) : Option Int32 :=
  match jsonObjectGet optionsJson key with
  | some (.integer integer) => some integer.toInt32
  | some (.number number) => some (CDouble.toInt32 number)
  | _ => none

def optionObject (optionsJson : JsonValue δ) (key : Bytes) : Option (JsonValue δ) :=
  match jsonObjectGet optionsJson key with
  | some (.object entries) => some (jsonClone (.object entries))
  | _ => none

/-- `query_parse_options`.  The cursor is parsed and sets nothing. -/
def queryParseOptions (optionsJson : JsonValue δ) : PagedOptions δ :=
  let limit := max 0 ((optionInt optionsJson (ascii "limit")).getD 0)
  let skip := max 0 ((optionInt optionsJson (ascii "skip")).getD 0)
  let pageValue := optionInt optionsJson (ascii "page")
  let page := max 1 (pageValue.getD 1)
  let sizeValue := optionInt optionsJson (ascii "page_size")
  let pageSize := max 0 (sizeValue.getD 0)
  let cursor := jsonGetString (jsonObjectGet optionsJson (ascii "cursor"))
  { limit := if 0 < pageSize then pageSize else limit
    skip := if 0 < pageSize then (page - 1) * pageSize else skip
    sort := optionObject optionsJson (ascii "sort")
    projection := optionObject optionsJson (ascii "projection")
    page
    pageSize
    paginationType :=
      if cursor.isSome then .cursor
      else if pageValue.isSome ∨ sizeValue.isSome then .offset
      else .none
    cursor }

theorem bubbleStep_perm (sortFields : List (Bytes × Bool)) (documents : List (JsonValue δ))
    (j : Nat) : (bubbleStep sortFields documents j).Perm documents := by
  unfold bubbleStep
  split
  · rename_i a b first second
    obtain ⟨firstInside, rfl⟩ := List.getElem?_eq_some_iff.mp first
    obtain ⟨secondInside, rfl⟩ := List.getElem?_eq_some_iff.mp second
    split
    · exact List.set_set_perm firstInside secondInside
    · exact .refl documents
  · exact .refl documents

theorem foldl_perm {ι α : Type} {step : List α → ι → List α}
    (keeps : ∀ items index, (step items index).Perm items) (indices : List ι) (items : List α) :
    (indices.foldl step items).Perm items := by
  induction indices generalizing items with
  | nil => exact .refl items
  | cons index indices ih => exact (ih (step items index)).trans (keeps items index)

theorem queryApplySort_perm (documents : List (JsonValue δ)) (sort : JsonValue δ) :
    (queryApplySort documents sort).Perm documents := by
  unfold queryApplySort
  split
  · exact .refl documents
  · apply foldl_perm
    intro items _
    exact foldl_perm (bubbleStep_perm _) _ items
  · exact .refl documents

theorem sortMatches_perm (sort : Option (JsonValue δ)) (documents : List (JsonValue δ)) :
    (sortMatches sort documents).Perm documents := by
  cases sort with
  | none => exact .refl documents
  | some sort => exact queryApplySort_perm documents sort

omit [CDouble δ] in
theorem map_jsonClone_eq_self {documents : List (JsonValue δ)}
    (wellFormed : ∀ document ∈ documents, WellFormed document) :
    documents.map jsonClone = documents := by
  conv_rhs => rw [← List.map_id documents]
  apply List.map_congr_left
  intro document member
  exact jsonClone_eq_self (wellFormed document member)

/-! ## The window of a query -/

def matching (expr : QueryExpr δ) (documents : List (JsonValue δ)) : List (JsonValue δ) :=
  documents.filter fun document => queryMatchDocument (some expr) document

/-- `skip` documents dropped and `limit` kept, all where `limit` is 0. -/
def windowOf (skip limit : Nat) (documents : List (JsonValue δ)) : List (JsonValue δ) :=
  if limit = 0 then documents.drop skip else (documents.drop skip).take limit

def windowOptions (skip limit : Int32) (sort : Option (JsonValue δ)) : PagedOptions δ where
  limit
  skip
  sort
  projection := none
  page := 1
  pageSize := 0
  paginationType := .none
  cursor := none

/-- A window whose end is no `int`. -/
def Truncates (skip limit : Int32) (size : Nat) : Prop :=
  0 < limit.toInt ∧ 2 ^ 31 ≤ skip.toInt + limit.toInt ∧ skip.toInt < size

instance (skip limit : Int32) (size : Nat) : Decidable (Truncates skip limit size) :=
  inferInstanceAs (Decidable (_ ∧ _ ∧ _))

theorem toInt_ofNat_eq {n : Nat} : (Int32.ofNat n).toInt = n ↔ n < 2 ^ 31 := by
  constructor
  · intro same
    have small := Int32.toInt_lt (Int32.ofNat n)
    omega
  · intro small
    exact Int32.toInt_ofNat_of_lt small

theorem max_zero_of_nonneg {value : Int32} (nonneg : 0 ≤ value) : max 0 value = value :=
  if_pos nonneg

theorem maxIndex_eq {size : Nat} (skipNonneg : 0 ≤ skip.toInt) (limitNonneg : 0 ≤ limit.toInt)
    (small : size < 2 ^ 31) (fits : ¬ Truncates skip limit size) (inside : skip.toInt < size) :
    (maxIndex skip limit size).toInt =
      if limit.toInt = 0 then (size : Int) else min (skip.toInt + limit.toInt) size := by
  have sizeInt : (Int32.ofNat size).toInt = size := toInt_ofNat_eq.mpr small
  unfold maxIndex
  simp only [Int32.lt_iff_toInt_lt, Int32.toInt_zero]
  by_cases positive : 0 < limit.toInt
  · have fitsInt : skip.toInt + limit.toInt < 2 ^ 31 := by
      by_contra large
      exact fits ⟨positive, not_lt.mp large, inside⟩
    have sum : (skip + limit).toInt = skip.toInt + limit.toInt := by
      rw [Int32.toInt_add, Int.bmod_def]
      omega
    rw [if_pos positive, if_neg positive.ne', sum, sizeInt]
    split
    · rw [sum]
      omega
    · rw [sizeInt]
      omega
  · rw [if_neg positive, if_pos (by omega), sizeInt]

theorem maxIndex_of_truncates {size : Nat} (small : size < 2 ^ 31)
    (truncates : Truncates skip limit size) : (maxIndex skip limit size).toInt < 0 := by
  obtain ⟨positive, large, -⟩ := truncates
  have sizeInt : (Int32.ofNat size).toInt = size := toInt_ofNat_eq.mpr small
  have skipSmall := Int32.toInt_lt skip
  have limitSmall := Int32.toInt_lt limit
  have sum : (skip + limit).toInt < 0 := by
    rw [Int32.toInt_add, Int.bmod_def]
    omega
  unfold maxIndex
  simp only [Int32.lt_iff_toInt_lt, Int32.toInt_zero]
  rw [if_pos positive, sizeInt, if_pos (by omega)]
  exact sum

def takenWindow (skip limit : Int32) (documents : List (JsonValue δ)) : List (JsonValue δ) :=
  (documents.take (maxIndex skip limit documents.length).toInt.toNat).drop skip.toInt.toNat

omit [CDouble δ] in
theorem takenWindow_eq (documents : List (JsonValue δ)) (skipNonneg : 0 ≤ skip.toInt)
    (limitNonneg : 0 ≤ limit.toInt) (small : documents.length < 2 ^ 31) :
    takenWindow skip limit documents =
      if Truncates skip limit documents.length then []
      else windowOf skip.toInt.toNat limit.toInt.toNat documents := by
  split
  · rename_i truncates
    have negative := maxIndex_of_truncates small truncates
    rw [takenWindow, Int.toNat_of_nonpos negative.le, List.take_zero, List.drop_nil]
  · rename_i fits
    by_cases inside : skip.toInt < documents.length
    · have last := maxIndex_eq skipNonneg limitNonneg small fits inside
      rw [takenWindow, last, windowOf]
      by_cases unlimited : limit.toInt = 0
      · simp [unlimited]
      · have positive : limit.toInt.toNat ≠ 0 := by omega
        rw [if_neg unlimited, if_neg positive, List.drop_take]
        by_cases whole : skip.toInt + limit.toInt ≤ documents.length
        · congr 1
          omega
        · rw [List.take_of_length_le, List.take_of_length_le]
          · rw [List.length_drop]
            omega
          · rw [List.length_drop]
            omega
    · have past : documents.length ≤ skip.toInt.toNat := by omega
      have noneTaken : takenWindow skip limit documents = [] := by
        apply List.drop_eq_nil_of_le
        exact (List.length_take_le' _ _).trans past
      rw [noneTaken, windowOf, List.drop_eq_nil_of_le past]
      simp

section Answer

variable {expr : QueryExpr δ} {documents : List (JsonValue δ)} {options : PagedOptions δ}

theorem queryExecute_eq (noProjection : options.projection = none)
    (skipNonneg : 0 ≤ options.skip) (limitNonneg : 0 ≤ options.limit)
    (wellFormed : ∀ document ∈ documents, WellFormed document) :
    queryExecute (some expr) (.array documents) (some options) =
      (if options.paginationType ≠ PaginationType.none then
          queryCreatePaginationInfo options (Int32.ofNat (matching expr documents).length)
            (takenWindow options.skip options.limit
              (sortMatches options.sort (matching expr documents)))
        else some none).map fun pagination =>
        { documents := takenWindow options.skip options.limit
            (sortMatches options.sort (matching expr documents))
          count := Int32.ofNat (takenWindow options.skip options.limit
            (sortMatches options.sort (matching expr documents))).length
          totalCount := Int32.ofNat (matching expr documents).length
          pagination } := by
  have matchingFormed : ∀ document ∈ matching expr documents, WellFormed document :=
    fun document member => wellFormed document (List.mem_of_mem_filter member)
  have clones : (documents.filter fun document =>
      queryMatchDocument (some expr) document).map jsonClone = matching expr documents :=
    map_jsonClone_eq_self matchingFormed
  have windowFormed : ∀ document ∈ takenWindow options.skip options.limit
      (sortMatches options.sort (matching expr documents)), WellFormed document := by
    intro document member
    have sorted := List.mem_of_mem_take (List.mem_of_mem_drop member)
    exact matchingFormed document ((sortMatches_perm _ _).mem_iff.mp sorted)
  have windowClones := map_jsonClone_eq_self windowFormed
  unfold takenWindow at windowClones ⊢
  simp only [queryExecute, clones, Option.bind_some, Option.map_some, Option.getD_some,
    noProjection, max_zero_of_nonneg skipNonneg, max_zero_of_nonneg limitNonneg, windowClones]

theorem queryExecute_offset (expr : QueryExpr δ) (options : PagedOptions δ)
    (offset : options.paginationType = .offset)
    (sized : options.pageSize ≠ 0) (noProjection : options.projection = none)
    (skipNonneg : 0 ≤ options.skip) (limitNonneg : 0 ≤ options.limit)
    (wellFormed : ∀ document ∈ documents, WellFormed document) :
    ∃ result, queryExecute (some expr) (.array documents) (some options) = some result ∧
      result.documents = takenWindow options.skip options.limit
        (sortMatches options.sort (matching expr documents)) := by
  rw [queryExecute_eq noProjection skipNonneg limitNonneg wellFormed]
  unfold queryCreatePaginationInfo
  rw [offset]
  simp only [sized, if_false]
  split
  · split
    · exact ⟨_, rfl, rfl⟩
    · exact ⟨_, rfl, rfl⟩
  · exact ⟨_, rfl, rfl⟩

/-- The query returns the window of the sorted matches, and their number. -/
def AnswersWindow (expr : QueryExpr δ) (documents : List (JsonValue δ))
    (sort : Option (JsonValue δ)) (skip limit : Int32) : Prop :=
  ∃ result,
    queryExecute (some expr) (.array documents) (some (windowOptions skip limit sort)) =
        some result ∧
      result.documents = windowOf skip.toInt.toNat limit.toInt.toNat
        (sortMatches sort (matching expr documents)) ∧
      result.totalCount.toInt = (matching expr documents).length

omit [CDouble δ] in
theorem windowOf_ne_nil {skip limit : Int32} {documents : List (JsonValue δ)}
    (skipNonneg : 0 ≤ skip.toInt) (truncates : Truncates skip limit documents.length) :
    windowOf skip.toInt.toNat limit.toInt.toNat documents ≠ [] := by
  obtain ⟨positive, -, inside⟩ := truncates
  intro empty
  have length := congrArg List.length empty
  rw [windowOf, if_neg (by omega), List.length_take, List.length_drop, List.length_nil] at length
  omega

theorem answersWindow_iff {sort : Option (JsonValue δ)} {skip limit : Int32}
    (wellFormed : ∀ document ∈ documents, WellFormed document) (skipNonneg : 0 ≤ skip)
    (limitNonneg : 0 ≤ limit) :
    AnswersWindow expr documents sort skip limit ↔
      (matching expr documents).length < 2 ^ 31 ∧
        ¬ Truncates skip limit (matching expr documents).length := by
  have skipInt : 0 ≤ skip.toInt := Int32.le_iff_toInt_le.mp skipNonneg
  have limitInt : 0 ≤ limit.toInt := Int32.le_iff_toInt_le.mp limitNonneg
  have size := (sortMatches_perm sort (matching expr documents)).length_eq
  have executed : queryExecute (some expr) (.array documents)
      (some (windowOptions skip limit sort)) = _ :=
    queryExecute_eq rfl skipNonneg limitNonneg wellFormed
  unfold AnswersWindow
  rw [executed]
  constructor
  · rintro ⟨result, same, window, counted⟩
    cases same
    have small := toInt_ofNat_eq.mp counted
    refine ⟨small, fun truncates => ?_⟩
    have taken : takenWindow skip limit (sortMatches sort (matching expr documents)) =
        windowOf skip.toInt.toNat limit.toInt.toNat (sortMatches sort (matching expr documents)) :=
      window
    rw [takenWindow_eq _ skipInt limitInt (by rwa [size]), if_pos (by rwa [size])] at taken
    exact windowOf_ne_nil skipInt (by rwa [size]) taken.symm
  · rintro ⟨small, fits⟩
    refine ⟨_, rfl, ?_, toInt_ofNat_eq.mpr small⟩
    change takenWindow skip limit (sortMatches sort (matching expr documents)) = _
    rw [takenWindow_eq _ skipInt limitInt (by rwa [size]), if_neg (by rwa [size])]

end Answer

/-! ## The pages of a query -/

def pageRequest (page : Nat) (pageSize : Int32) (sort : Option (JsonValue δ)) : JsonValue δ :=
  .object
    ((ascii "page", .integer (Int64.ofNat page)) ::
      (ascii "page_size", .integer pageSize.toInt64) ::
      (sort.map fun sort => (ascii "sort", sort)).toList)

omit [CDouble δ] in
theorem getEntry_pageRequest (page : Nat) (pageSize : Int32) (sort : Option (JsonValue δ)) :
    jsonObjectGet (pageRequest page pageSize sort) (ascii "page") =
        some (.integer (Int64.ofNat page)) ∧
      jsonObjectGet (pageRequest page pageSize sort) (ascii "page_size") =
        some (.integer pageSize.toInt64) ∧
      jsonObjectGet (pageRequest page pageSize sort) (ascii "sort") = sort ∧
      jsonObjectGet (pageRequest page pageSize sort) (ascii "projection") = none ∧
      jsonObjectGet (pageRequest page pageSize sort) (ascii "cursor") = none := by
  cases sort <;> simp [pageRequest, jsonObjectGet, getEntry, ascii]

theorem sortMatches_optionObject {sort : Option (JsonValue δ)}
    (sortFormed : ∀ definition ∈ sort, WellFormed definition) (page : Nat) (pageSize : Int32)
    (documents : List (JsonValue δ)) :
    sortMatches (optionObject (pageRequest page pageSize sort) (ascii "sort")) documents =
      sortMatches sort documents := by
  rw [optionObject, (getEntry_pageRequest page pageSize sort).2.2.1]
  cases sort with
  | none => rfl
  | some definition =>
      cases definition with
      | object entries => simp only [jsonClone_eq_self (sortFormed _ rfl)]
      | _ => rfl

theorem optionInt_integer {optionsJson : JsonValue δ} {key : Bytes} {integer : Int64}
    (held : jsonObjectGet optionsJson key = some (.integer integer)) :
    optionInt optionsJson key = some integer.toInt32 := by
  simp only [optionInt, held]

theorem queryParseOptions_pageRequest (sort : Option (JsonValue δ)) {index : Nat}
    {pageSize : Int32} (early : index + 1 < 2 ^ 31) (positive : 0 < pageSize) :
    queryParseOptions (pageRequest (index + 1) pageSize sort) =
      { limit := pageSize
        skip := Int32.ofNat index * pageSize
        sort := optionObject (pageRequest (index + 1) pageSize sort) (ascii "sort")
        projection := none
        page := Int32.ofNat (index + 1)
        pageSize
        paginationType := .offset
        cursor := none } := by
  obtain ⟨page, size, -, projection, cursor⟩ := getEntry_pageRequest (index + 1) pageSize sort
  have pageInt : max 1 (Int32.ofNat (index + 1)) = Int32.ofNat (index + 1) := by
    apply if_pos
    rw [Int32.le_iff_toInt_le, toInt_ofNat_eq.mpr early]
    simp
  have sizeInt : max 0 pageSize = pageSize := max_zero_of_nonneg (Int32.le_of_lt positive)
  have before : Int32.ofNat (index + 1) - 1 = Int32.ofNat index := by
    rw [Int32.ofNat_add]
    simp
  have pageValue : optionInt (pageRequest (index + 1) pageSize sort) (ascii "page") =
      some (Int32.ofNat (index + 1)) := by
    rw [optionInt_integer page, Int64.toInt32_ofNat']
  have sizeValue : optionInt (pageRequest (index + 1) pageSize sort) (ascii "page_size") =
      some pageSize := by
    rw [optionInt_integer size, Int32.toInt32_toInt64]
  have noProjection : optionObject (pageRequest (index + 1) pageSize sort) (ascii "projection") =
      none := by
    rw [optionObject, projection]
  simp only [queryParseOptions, pageValue, sizeValue, noProjection, cursor, jsonGetString,
    Option.getD_some, pageInt, sizeInt, before, if_pos positive, Option.isSome_some,
    Option.isSome_none, Bool.false_eq_true, if_false, true_or, if_true]

theorem flatMap_pages {α : Type} (items : List α) (size : Nat) (pages : Nat) :
    (List.range pages).flatMap (fun index => (items.drop (index * size)).take size) =
      items.take (pages * size) := by
  induction pages with
  | zero => simp
  | succ pages ih =>
      rw [List.range_succ, List.flatMap_append, ih, List.flatMap_singleton,
        Nat.succ_mul, List.take_add]

def pageTotal (size pageSize : Nat) : Nat :=
  (size + pageSize - 1) / pageSize

theorem le_pageTotal_mul {size pageSize : Nat} (positive : 0 < pageSize) :
    size ≤ pageTotal size pageSize * pageSize := by
  have divided := Nat.div_add_mod (size + pageSize - 1) pageSize
  have remainder := Nat.mod_lt (size + pageSize - 1) positive
  rw [pageTotal, Nat.mul_comm]
  omega

theorem mul_lt_of_lt_pageTotal {size pageSize index : Nat} (positive : 0 < pageSize)
    (inside : index < pageTotal size pageSize) : index * pageSize < size := by
  have whole : (index + 1) * pageSize ≤ size + pageSize - 1 :=
    (Nat.le_div_iff_mul_le positive).mp inside
  rw [Nat.succ_mul] at whole
  omega

section Pages

variable {expr : QueryExpr δ} {documents : List (JsonValue δ)} {sort : Option (JsonValue δ)}
  {pageSize : Int32}

/-- Every page has a result, and the pages together are the sorted matches. -/
def PagesAnswer (expr : QueryExpr δ) (documents : List (JsonValue δ))
    (sort : Option (JsonValue δ)) (pageSize : Int32) : Prop :=
  let pages := pageTotal (matching expr documents).length pageSize.toInt.toNat
  ∃ result : Nat → QueryResult δ,
    (∀ index < pages,
      queryExecute (some expr) (.array documents)
        (some (queryParseOptions (pageRequest (index + 1) pageSize sort))) =
          some (result index)) ∧
      (List.range pages).flatMap (fun index => (result index).documents) =
        sortMatches sort (matching expr documents)

theorem skip_toInt (index : Nat) (positive : 0 < pageSize)
    (fits : index * pageSize.toInt.toNat < 2 ^ 31) :
    (Int32.ofNat index * pageSize).toInt = (index * pageSize.toInt.toNat : Nat) := by
  have sizeInt : 0 < pageSize.toInt := Int32.lt_iff_toInt_lt.mp positive
  have size : pageSize = Int32.ofNat pageSize.toInt.toNat := by
    apply Int32.toInt.inj
    rw [Int32.toInt_ofNat_of_lt]
    · omega
    · have small := Int32.toInt_lt pageSize
      omega
  conv_lhs => rw [size, ← Int32.ofNat_mul]
  exact toInt_ofNat_eq.mpr fits

theorem page_executed (wellFormed : ∀ document ∈ documents, WellFormed document)
    (sortFormed : ∀ definition ∈ sort, WellFormed definition) (positive : 0 < pageSize)
    (small : (matching expr documents).length < 2 ^ 31) {index : Nat}
    (inside : index < pageTotal (matching expr documents).length pageSize.toInt.toNat) :
    ∃ result,
      queryExecute (some expr) (.array documents)
        (some (queryParseOptions (pageRequest (index + 1) pageSize sort))) = some result ∧
        result.documents =
          if 2 ^ 31 ≤ (index + 1) * pageSize.toInt.toNat then []
          else ((sortMatches sort (matching expr documents)).drop
            (index * pageSize.toInt.toNat)).take pageSize.toInt.toNat := by
  have sizeInt : 0 < pageSize.toInt := Int32.lt_iff_toInt_lt.mp positive
  have sizePositive : 0 < pageSize.toInt.toNat := by omega
  have starts := mul_lt_of_lt_pageTotal sizePositive inside
  have indexLe : index ≤ index * pageSize.toInt.toNat := Nat.le_mul_of_pos_right index sizePositive
  have skip := skip_toInt index positive (starts.trans small)
  have skipNonneg : 0 ≤ Int32.ofNat index * pageSize := by
    rw [Int32.le_iff_toInt_le, skip]
    exact Int.natCast_nonneg _
  have early : index + 1 < 2 ^ 31 := by omega
  have options := queryParseOptions_pageRequest sort early positive
  have size := (sortMatches_perm sort (matching expr documents)).length_eq
  have truncates : Truncates (Int32.ofNat index * pageSize) pageSize
      (matching expr documents).length ↔ 2 ^ 31 ≤ (index + 1) * pageSize.toInt.toNat := by
    unfold Truncates
    rw [skip, Nat.succ_mul]
    omega
  have notZero : pageSize ≠ 0 := (Int32.ne_of_lt positive).symm
  obtain ⟨result, executed, window⟩ := queryExecute_offset expr
    (queryParseOptions (pageRequest (index + 1) pageSize sort)) (by rw [options])
    (by rw [options]; exact notZero) (by rw [options]) (by rw [options]; exact skipNonneg)
    (by rw [options]; exact Int32.le_of_lt positive) wellFormed
  refine ⟨result, executed, ?_⟩
  rw [window, options]
  have sorted := sortMatches_optionObject sortFormed (index + 1) pageSize
    (matching expr documents)
  have taken := takenWindow_eq (sortMatches sort (matching expr documents))
    (Int32.le_iff_toInt_le.mp skipNonneg) sizeInt.le (by rwa [size])
  simp only [sorted]
  rw [taken, size]
  simp only [truncates]
  split
  · rfl
  · rw [windowOf, if_neg sizePositive.ne', skip, Int.toNat_natCast]

theorem pagesAnswer_iff (wellFormed : ∀ document ∈ documents, WellFormed document)
    (sortFormed : ∀ definition ∈ sort, WellFormed definition) (positive : 0 < pageSize)
    (small : (matching expr documents).length < 2 ^ 31) :
    PagesAnswer expr documents sort pageSize ↔
      pageTotal (matching expr documents).length pageSize.toInt.toNat * pageSize.toInt.toNat <
        2 ^ 31 := by
  have sizeInt : 0 < pageSize.toInt := Int32.lt_iff_toInt_lt.mp positive
  have sizePositive : 0 < pageSize.toInt.toNat := by omega
  have length := (sortMatches_perm sort (matching expr documents)).length_eq
  have executed (index : Nat)
      (inside : index < pageTotal (matching expr documents).length pageSize.toInt.toNat) :=
    page_executed wellFormed sortFormed positive small inside
  unfold PagesAnswer
  simp only
  generalize pages : pageTotal (matching expr documents).length pageSize.toInt.toNat = total
    at executed ⊢
  constructor
  · rintro ⟨result, results, together⟩
    have documentsOf (index : Nat) (inside : index < total) :
        (result index).documents =
          if 2 ^ 31 ≤ (index + 1) * pageSize.toInt.toNat then []
          else ((sortMatches sort (matching expr documents)).drop
            (index * pageSize.toInt.toNat)).take pageSize.toInt.toNat := by
      obtain ⟨page, pageExecuted, window⟩ := executed index inside
      rw [← window, Option.some.inj ((results index inside).symm.trans pageExecuted)]
    by_contra large
    -- Only the last page can end past the largest `int`, and it is lost then.
    obtain ⟨last, rfl⟩ : ∃ last, total = last + 1 := by
      cases total with
      | zero => simp at large
      | succ last => exact ⟨last, rfl⟩
    have starts : last * pageSize.toInt.toNat < (matching expr documents).length := by
      apply mul_lt_of_lt_pageTotal sizePositive
      rw [pages]
      exact Nat.lt_succ_self last
    have lost : (result last).documents = [] := by
      rw [documentsOf last (Nat.lt_succ_self last), if_pos (Nat.le_of_not_lt large)]
    have before : (List.range last).flatMap (fun index => (result index).documents) =
        (sortMatches sort (matching expr documents)).take (last * pageSize.toInt.toNat) := by
      rw [← flatMap_pages]
      apply List.flatMap_congr
      intro index member
      have inside : index < last := List.mem_range.mp member
      have ends : (index + 1) * pageSize.toInt.toNat ≤ last * pageSize.toInt.toNat :=
        Nat.mul_le_mul_right _ inside
      rw [documentsOf index (Nat.lt_succ_of_lt inside), if_neg (by omega)]
    rw [List.range_succ, List.flatMap_append, List.flatMap_singleton, lost, List.append_nil,
      before] at together
    have shorter := congrArg List.length together
    rw [List.length_take, length] at shorter
    omega
  · intro fits
    let noResult : QueryResult δ :=
      { documents := [], count := 0, totalCount := 0, pagination := none }
    refine ⟨fun index => (queryExecute (some expr) (.array documents)
      (some (queryParseOptions (pageRequest (index + 1) pageSize sort)))).getD noResult, ?_, ?_⟩
    · intro index inside
      obtain ⟨page, pageExecuted, -⟩ := executed index inside
      simp only [pageExecuted, Option.getD_some]
    · have whole : (sortMatches sort (matching expr documents)).take
          (total * pageSize.toInt.toNat) = sortMatches sort (matching expr documents) := by
        apply List.take_of_length_le
        rw [length, ← pages]
        exact le_pageTotal_mul sizePositive
      rw [← whole, ← flatMap_pages]
      apply List.flatMap_congr
      intro index member
      have inside : index < total := List.mem_range.mp member
      have ends : (index + 1) * pageSize.toInt.toNat ≤ total * pageSize.toInt.toNat :=
        Nat.mul_le_mul_right _ inside
      obtain ⟨page, pageExecuted, window⟩ := executed index inside
      simp only [pageExecuted, Option.getD_some, window]
      rw [if_neg (by omega)]

end Pages

end Execution

/-- `{"a":1}` -/
def sampleDocument : JsonValue Rat :=
  .object [(ascii "a", .integer 1)]

def sampleExpr : QueryExpr Rat :=
  queryCreateFieldExpr (some (ascii "a")) .opEq (.integer 1)

end Jdbx
