import Jdbx.Query.QuerySemantics

/-!
# Queries that are read as they are meant

`query_parse` keeps one entry of a root object with a logical operator, reads
the operand of `$not` without its field, and ignores the operand of a logical
operator or `$elemMatch` inside an operator object.  For every query that does
none of this, and whose logical operands are non-empty arrays of filters, the
expression tree matches exactly the documents that satisfy the query.
-/

namespace Jdbx

open Library

def isComparisonKey (key : Bytes) : Bool :=
  isOperatorKey key && !isLogical (queryParseOperator key) &&
    queryParseOperator key ≠ .opElemMatch

section Supported

variable {δ : Type}

mutual

/-- A field value: the keys of an operator object are all comparison operators. -/
def supportedField : JsonValue δ → Bool
  | .object entries =>
    if entries.any fun entry => isOperatorKey entry.1 then
      entries.all fun entry => isComparisonKey entry.1
    else supportedNested entries
  | _ => true
termination_by structural value => value

def supportedNested : List (Bytes × JsonValue δ) → Bool
  | [] => true
  | (_, value) :: entries => supportedField value && supportedNested entries
termination_by structural entries => entries

end

mutual

/-- The operand of a logical operator is a non-empty array of filters, and the
operator is not `$not`. -/
def supportedEntry (key : Bytes) : JsonValue δ → Bool
  | .array items =>
    !isLogicalKey key ||
      (queryParseOperator key ≠ .opNot && !items.isEmpty && supportedFilters items)
  | value => !isLogicalKey key && supportedField value
termination_by structural value => value

def supportedEntries : List (Bytes × JsonValue δ) → Bool
  | [] => true
  | (key, value) :: entries => supportedEntry key value && supportedEntries entries
termination_by structural entries => entries

def supportedFilters : List (JsonValue δ) → Bool
  | [] => true
  | filter :: filters => supportedFilter filter && supportedFilters filters
termination_by structural filters => filters

def supportedFilter : JsonValue δ → Bool
  | .object entries => supportedEntries entries
  | _ => false
termination_by structural filter => filter

end

def supportedRoot : JsonValue δ → Bool
  | .object entries =>
    supportedEntries entries && !entries.isEmpty &&
      (entries.length = 1 || entries.all fun entry => !isLogicalKey entry.1)
  | _ => false

def supportedQuery (query : JsonValue δ) : Bool :=
  match jsonObjectGet query (ascii "query") with
  | some filter => supportedRoot filter
  | none => supportedRoot query

end Supported

/-! ## Fields -/

section Fields

variable {δ : Type} [CDouble δ] {value : JsonValue δ} {path : Bytes}
  {entries : List (Bytes × JsonValue δ)}

theorem matchAll_map {α : Type} (expr : α → QueryExpr δ) (items : List α)
    (document : JsonValue δ) :
    matchAll (items.map fun item => some (expr item)) document =
      items.all fun item => matchExpr (expr item) document := by
  induction items with
  | nil => rfl
  | cons item items ih => simp [matchAll, matchChild, ih]

theorem matchAny_map {α : Type} (expr : α → QueryExpr δ) (items : List α)
    (document : JsonValue δ) :
    matchAny (items.map fun item => some (expr item)) document =
      items.any fun item => matchExpr (expr item) document := by
  induction items with
  | nil => rfl
  | cons item items ih => simp [matchAny, matchChild, ih]

theorem matchExpr_and (children : List (Option (QueryExpr δ))) (document : JsonValue δ) :
    matchExpr (queryCreateLogicalExpr .opAnd children) document = matchAll children document := by
  rw [queryCreateLogicalExpr, matchExpr]

theorem matchExpr_comparison {op : QueryOperator} (wellFormed : WellFormed value)
    (notLogical : isLogical op = false) (notElemMatch : op ≠ .opElemMatch)
    (notRoot : op ≠ .opRoot) (document : JsonValue δ) :
    matchExpr (queryCreateFieldExpr (some path) op value) document =
      matchComparisonOperator op (queryExtractField document path) value := by
  rw [queryCreateFieldExpr, jsonClone_eq_self wellFormed]
  cases op with
  | opAnd | opOr | opNot | opNor => cases notLogical
  | opElemMatch => exact absurd rfl notElemMatch
  | opRoot => exact absurd rfl notRoot
  | opField =>
    cases field : queryExtractField document path <;>
      simp [matchExpr, matchComparisonOperator]
  | opEq | opNe | opGt | opGte | opLt | opLte | opIn | opNin | opAll | opSize | opExists
  | opType => simp [matchExpr]

theorem matchExpr_equality (wellFormed : WellFormed value) (document : JsonValue δ) :
    matchExpr (queryCreateFieldExpr (some path) .opEq value) document = true ↔
      FieldCompares document path .opEq value := by
  rw [matchExpr_comparison wellFormed rfl (by decide) (by decide), FieldCompares]

theorem matchComparisonOperator_field (field : Option (JsonValue δ)) (value : JsonValue δ) :
    matchComparisonOperator .opField field value = false := by
  cases field <;> rfl

theorem matchExpr_operator {path name : Bytes} (wellFormed : WellFormed value)
    (comparison : isComparisonKey name = true) (document : JsonValue δ) :
    matchExpr (queryCreateFieldExpr (some path) (queryParseOperator name) value) document =
        true ↔
      OperatorHolds document path name value := by
  simp only [isComparisonKey, Bool.and_eq_true, Bool.not_eq_true', decide_eq_true_eq] at comparison
  obtain ⟨⟨_, notLogical⟩, notElemMatch⟩ := comparison
  rw [queryParseOperator_eq] at notLogical notElemMatch ⊢
  cases found : operatorNamed name with
  | none =>
    rw [Option.getD_none, matchExpr_comparison wellFormed rfl (by decide) (by decide),
      matchComparisonOperator_field]
    cases value <;> simp [OperatorHolds, found]
  | some op =>
    have known := operators_name _ (mem_of_getEntry_eq_some found)
    rw [found, Option.getD_some] at notLogical notElemMatch
    rw [Option.getD_some, matchExpr_comparison wellFormed notLogical notElemMatch known.2.2.2]
    have notNot : op ≠ .opNot := by
      rintro rfl
      cases notLogical
    cases value <;> simp [OperatorHolds, found, notLogical, FieldCompares]

theorem all_operators_iff (path : Bytes) (wellFormed : WellFormedEntries entries)
    (comparisons : ∀ entry ∈ entries, isComparisonKey entry.1 = true) (document : JsonValue δ) :
    (∀ entry ∈ entries,
        matchExpr (queryCreateFieldExpr (some path) (queryParseOperator entry.1) entry.2)
          document = true) ↔
      FieldEntriesHold document path entries := by
  induction entries with
  | nil => simp [FieldEntriesHold]
  | cons entry entries ih =>
    obtain ⟨name, value⟩ := entry
    obtain ⟨_, headWellFormed, tailWellFormed⟩ := wellFormed
    have comparison := comparisons (name, value) List.mem_cons_self
    have operatorKey : isOperatorKey name = true := by
      simp only [isComparisonKey, Bool.and_eq_true] at comparison
      exact comparison.1.1
    have rest := ih tailWellFormed
      (fun entry member => comparisons entry (List.mem_cons_of_mem _ member))
    rw [List.forall_mem_cons, rest, FieldEntriesHold, if_pos operatorKey,
      matchExpr_operator headWellFormed comparison]

theorem parseComparisonExpr_correct (wellFormed : WellFormedEntries entries)
    (nonempty : entries ≠ []) (comparisons : ∀ entry ∈ entries, isComparisonKey entry.1 = true) :
    ∃ expr, parseComparisonExpr (some path) (.object entries) = some expr ∧
      ∀ document, matchExpr expr document = true ↔ FieldEntriesHold document path entries := by
  have meaning (document : JsonValue δ) :=
    all_operators_iff path wellFormed comparisons document
  match entries, nonempty with
  | [(name, value)], _ =>
    refine ⟨_, rfl, ?_⟩
    intro document
    rw [← meaning document]
    simp
  | first :: second :: entries, _ =>
    refine ⟨_, rfl, ?_⟩
    intro document
    rw [← meaning document, matchExpr_and, matchAll_map, List.all_eq_true]

theorem equality_correct (wellFormed : WellFormed value)
    (parsed : parseFieldExpr path value =
      some (queryCreateFieldExpr (some path) .opEq value))
    (meaning : ∀ document,
      EntryHolds document path value ↔ FieldCompares document path .opEq value) :
    ∃ expr, parseFieldExpr path value = some expr ∧
      ∀ document, matchExpr expr document = true ↔ EntryHolds document path value := by
  refine ⟨_, parsed, ?_⟩
  intro document
  rw [matchExpr_equality wellFormed, meaning]

theorem isLogicalKey_path (path key : Bytes) : isLogicalKey (path ++ 46 :: key) = false := by
  rw [isLogicalKey_eq, logicalNamed_path]
  rfl

mutual

theorem parseFieldExpr_field :
    ∀ {value : JsonValue δ}, WellFormed value → supportedField value = true →
      ∀ path : Bytes, isLogicalKey path = false →
        ∃ expr, parseFieldExpr path value = some expr ∧
          ∀ document, matchExpr expr document = true ↔ EntryHolds document path value
  | .null, wellFormed, _ | .boolean _, wellFormed, _ | .number _, wellFormed, _
  | .integer _, wellFormed, _ | .string _, wellFormed, _ | .array _, wellFormed, _ => by
    intro path field
    have unnamed : logicalNamed path = none := by simpa [isLogicalKey_eq] using field
    apply equality_correct wellFormed
    · simp [parseFieldExpr, field]
    · simp [EntryHolds, unnamed]
  | .object entries, wellFormed, supported => by
    intro path field
    have unnamed : logicalNamed path = none := by simpa [isLogicalKey_eq] using field
    rw [supportedField] at supported
    cases entries with
    | nil =>
      apply equality_correct wellFormed
      · simp [parseFieldExpr, field]
      · simp [EntryHolds, unnamed]
    | cons first entries =>
      have holds (document : JsonValue δ) :
          EntryHolds document path (.object (first :: entries)) =
            FieldEntriesHold document path (first :: entries) := by
        simp [EntryHolds, unnamed]
      simp only [holds]
      by_cases operators : (first :: entries).any fun entry => isOperatorKey entry.1
      · rw [if_pos operators] at supported
        have parsed : parseFieldExpr path (.object (first :: entries)) =
            parseComparisonExpr (some path) (.object (first :: entries)) := by
          simp only [parseFieldExpr, field, operators]
          rfl
        rw [parsed]
        apply parseComparisonExpr_correct wellFormed.2 (List.cons_ne_nil _ _)
        exact List.all_eq_true.mp supported
      · rw [if_neg operators] at supported
        have parsed : parseFieldExpr path (.object (first :: entries)) =
            some
              (queryCreateLogicalExpr .opAnd (parseNested path (first :: entries))) := by
          simp only [parseFieldExpr, field, operators]
          rfl
        have plain : ∀ entry ∈ first :: entries, isOperatorKey entry.1 = false := by
          simpa using operators
        refine ⟨_, parsed, ?_⟩
        intro document
        rw [matchExpr_and]
        exact parseNested_correct wellFormed.2 supported plain path document

theorem parseNested_correct :
    ∀ {entries : List (Bytes × JsonValue δ)}, WellFormedEntries entries →
      supportedNested entries = true → (∀ entry ∈ entries, isOperatorKey entry.1 = false) →
        ∀ (path : Bytes) (document : JsonValue δ),
          matchAll (parseNested path entries) document = true ↔
            FieldEntriesHold document path entries
  | [], _, _, _ => by
    intro path document
    simp [parseNested, matchAll, FieldEntriesHold]
  | (key, value) :: entries, ⟨_, headWellFormed, tailWellFormed⟩, supported, plain => by
    intro path document
    rw [supportedNested, Bool.and_eq_true] at supported
    obtain ⟨expr, parsed, meaning⟩ :=
      parseFieldExpr_field headWellFormed supported.1 _ (isLogicalKey_path path key)
    have rest := parseNested_correct tailWellFormed supported.2
      (fun entry member => plain entry (List.mem_cons_of_mem _ member)) path document
    have plainKey := plain (key, value) List.mem_cons_self
    rw [parseNested, matchAll, Bool.and_eq_true, rest, parsed, matchChild, meaning document,
      FieldEntriesHold, if_neg (by simp [plainKey])]

end

end Fields

section Filters

variable {δ : Type} [CDouble δ]

theorem logicalOfArray_correct {op : QueryOperator} {filters : List (QueryExpr δ)}
    (logical : isLogical op = true) (notNot : op ≠ .opNot) (nonempty : filters ≠ []) :
    ∃ expr, logicalOfArray op (some filters) = some expr ∧
      ∀ document, matchExpr expr document = true ↔
        combination op ((filters.all fun filter => matchExpr filter document) = true)
          ((filters.any fun filter => matchExpr filter document) = true) := by
  obtain ⟨first, rest, rfl⟩ := List.exists_cons_of_ne_nil nonempty
  cases op with
  | opAnd =>
    refine ⟨_, rfl, ?_⟩
    intro document
    rw [matchExpr_and, combination, ← matchAll_map]
  | opOr =>
    refine ⟨_, rfl, ?_⟩
    intro document
    rw [queryCreateLogicalExpr, matchExpr, combination, ← matchAny_map]
  | opNor =>
    refine ⟨_, rfl, ?_⟩
    intro document
    rw [queryCreateLogicalExpr, matchExpr, combination, ← matchAny_map, Bool.not_eq_true',
      Bool.not_eq_true]
  | opNot => exact absurd rfl notNot
  | opEq | opNe | opGt | opGte | opLt | opLte | opIn | opNin | opAll | opElemMatch | opSize
  | opExists | opType | opField | opRoot => cases logical

theorem filterOfEntries_correct (exprs : List (QueryExpr δ)) :
    ∃ expr, filterOfEntries (exprs.map some) = some expr ∧
      ∀ document, matchExpr expr document = exprs.all fun entry => matchExpr entry document := by
  match exprs with
  | [expr] => exact ⟨expr, rfl, by simp⟩
  | [] =>
    refine ⟨_, rfl, ?_⟩
    intro document
    rw [matchExpr_and]
    rfl
  | first :: second :: exprs =>
    refine ⟨_, rfl, ?_⟩
    intro document
    rw [matchExpr_and, ← matchAll_map]
    rfl

mutual

theorem parseFieldExpr_correct :
    ∀ {value : JsonValue δ}, WellFormed value → ∀ key : Bytes, supportedEntry key value = true →
      ∃ expr, parseFieldExpr key value = some expr ∧
        ∀ document, matchExpr expr document = true ↔ EntryHolds document key value
  | .null, wellFormed | .boolean _, wellFormed | .number _, wellFormed
  | .integer _, wellFormed | .string _, wellFormed | .object _, wellFormed => by
    intro key supported
    simp only [supportedEntry, Bool.and_eq_true, Bool.not_eq_true'] at supported
    exact parseFieldExpr_field wellFormed supported.2 key supported.1
  | .array items, wellFormed => by
    intro key supported
    cases named : logicalNamed key with
    | none =>
      have field : isLogicalKey key = false := by simp [isLogicalKey_eq, named]
      exact parseFieldExpr_field wellFormed rfl key field
    | some op =>
      have found := Option.filter_eq_some_iff.mp named
      have parsedOperator : queryParseOperator key = op := by
        rw [queryParseOperator_eq, found.1, Option.getD_some]
      have logical : isLogicalKey key = true := by simp [isLogicalKey_eq, named]
      simp only [supportedEntry, logical, parsedOperator, Bool.not_true, Bool.false_or,
        Bool.and_eq_true, decide_eq_true_eq, Bool.not_eq_true'] at supported
      obtain ⟨⟨notNot, nonempty⟩, filtersSupported⟩ := supported
      obtain ⟨filters, parsed, sameLength, meaning⟩ :=
        parseFilters_correct wellFormed filtersSupported
      have filtersNonempty : filters ≠ [] := by
        rintro rfl
        cases items with
        | nil => cases nonempty
        | cons item items => cases sameLength
      obtain ⟨expr, combined, matches'⟩ :=
        logicalOfArray_correct found.2 notNot filtersNonempty
      refine ⟨expr, ?_, ?_⟩
      · rw [parseFieldExpr, if_pos logical, parsedOperator, parsed, combined]
      · intro document
        simp only [matches', (meaning document).1, (meaning document).2, EntryHolds, named]

theorem parseEntries_correct :
    ∀ {entries : List (Bytes × JsonValue δ)}, WellFormedEntries entries →
      supportedEntries entries = true →
        ∃ exprs : List (QueryExpr δ), parseEntries entries = exprs.map some ∧
          ∀ document, (exprs.all fun expr => matchExpr expr document) = true ↔
            EntriesHold document entries
  | [], _, _ => ⟨[], rfl, by simp [EntriesHold]⟩
  | (key, value) :: entries, ⟨_, headWellFormed, tailWellFormed⟩, supported => by
    rw [supportedEntries, Bool.and_eq_true] at supported
    obtain ⟨expr, parsed, meaning⟩ := parseFieldExpr_correct headWellFormed key supported.1
    obtain ⟨exprs, restParsed, restMeaning⟩ := parseEntries_correct tailWellFormed supported.2
    refine ⟨expr :: exprs, ?_, ?_⟩
    · rw [parseEntries, parsed, restParsed, List.map_cons]
    · intro document
      rw [List.all_cons, Bool.and_eq_true, meaning, restMeaning, EntriesHold]

theorem parseFilters_correct :
    ∀ {items : List (JsonValue δ)}, WellFormedItems items → supportedFilters items = true →
      ∃ filters : List (QueryExpr δ), parseFilters items = some filters ∧ filters.length = items.length ∧
        ∀ document,
          ((filters.all fun filter => matchExpr filter document) = true ↔
            AllFiltersHold document items) ∧
          ((filters.any fun filter => matchExpr filter document) = true ↔
            AnyFilterHolds document items)
  | [], _, _ => ⟨[], rfl, rfl, by simp [AllFiltersHold, AnyFilterHolds]⟩
  | item :: items, ⟨headWellFormed, tailWellFormed⟩, supported => by
    rw [supportedFilters, Bool.and_eq_true] at supported
    obtain ⟨filter, parsed, meaning⟩ := parseFilter_correct headWellFormed supported.1
    obtain ⟨filters, restParsed, sameLength, restMeaning⟩ :=
      parseFilters_correct tailWellFormed supported.2
    refine ⟨filter :: filters, ?_, ?_, ?_⟩
    · rw [parseFilters, parsed, restParsed]
    · simp [sameLength]
    · intro document
      rw [List.all_cons, List.any_cons, Bool.and_eq_true, Bool.or_eq_true, meaning,
        (restMeaning document).1, (restMeaning document).2, AllFiltersHold, AnyFilterHolds]
      exact ⟨Iff.rfl, Iff.rfl⟩

theorem parseFilter_correct :
    ∀ {filter : JsonValue δ}, WellFormed filter → supportedFilter filter = true →
      ∃ expr, parseFilter filter = some expr ∧
        ∀ document, matchExpr expr document = true ↔ FilterHolds document filter
  | .object entries, ⟨_, wellFormed⟩, supported => by
    rw [supportedFilter] at supported
    obtain ⟨exprs, parsed, meaning⟩ := parseEntries_correct wellFormed supported
    obtain ⟨expr, conjunction, matches'⟩ := filterOfEntries_correct exprs
    refine ⟨expr, ?_, ?_⟩
    · rw [parseFilter, parsed, conjunction]
    · intro document
      rw [matches', meaning, FilterHolds]
  | .null, _, supported | .boolean _, _, supported | .number _, _, supported
  | .integer _, _, supported | .string _, _, supported | .array _, _, supported => by
    simp [supportedFilter] at supported

end

omit [CDouble δ] in
theorem parseFieldExpr_of_logical {key : Bytes} (logical : isLogicalKey key = true)
    (value : JsonValue δ) : parseFieldExpr key value = parseLogicalExpr key value := by
  cases value <;> simp [parseFieldExpr, parseLogicalExpr, logical]

theorem parseRoot_correct (options : QueryOptions δ) {filter : JsonValue δ}
    (wellFormed : WellFormed filter) (supported : supportedRoot filter = true) :
    (parseRoot options filter).error = none ∧
      ∃ expr, (parseRoot options filter).expr = some expr ∧
        ∀ document, matchExpr expr document = true ↔ FilterHolds document filter := by
  cases filter with
  | null | boolean _ | number _ | integer _ | string _ | array _ => cases supported
  | object entries =>
    simp only [supportedRoot, Bool.and_eq_true, Bool.not_eq_true'] at supported
    obtain ⟨⟨entriesSupported, nonempty⟩, alone⟩ := supported
    obtain ⟨exprs, parsed, meaning⟩ := parseEntries_correct wellFormed.2 entriesSupported
    cases root : entries.find? fun entry => isLogicalKey entry.1 with
    | none =>
      refine ⟨by simp [parseRoot, root, nonempty], ?_⟩
      refine ⟨queryCreateLogicalExpr .opAnd (parseEntries entries),
        by simp [parseRoot, root, nonempty], ?_⟩
      intro document
      rw [matchExpr_and, parsed, FilterHolds, ← meaning, ← matchAll_map]
    | some entry =>
      obtain ⟨key, value⟩ := entry
      have logical : isLogicalKey key = true := by simpa using List.find?_some root
      have member : (key, value) ∈ entries := List.mem_of_find?_eq_some root
      have single : entries = [(key, value)] := by
        rcases Bool.or_eq_true_iff.mp alone with one | noLogical
        · obtain ⟨only, rfl⟩ := List.length_eq_one_iff.mp (of_decide_eq_true one)
          rw [List.mem_singleton.mp member]
        · have plain := List.all_eq_true.mp noLogical (key, value) member
          simp [logical] at plain
      subst single
      have parsedRoot : parseRoot options (.object [(key, value)]) =
          { expr := parseLogicalExpr key value, options := options, error := none } := by
        rw [parseRoot, root]
      rw [parsedRoot]
      refine ⟨rfl, ?_⟩
      rw [supportedEntries, Bool.and_eq_true] at entriesSupported
      obtain ⟨expr, parsedEntry, entryMeaning⟩ :=
        parseFieldExpr_correct wellFormed.2.2.1 key entriesSupported.1
      refine ⟨expr, ?_, ?_⟩
      · rw [← parseFieldExpr_of_logical logical]
        exact parsedEntry
      · intro document
        rw [entryMeaning, FilterHolds, EntriesHold, EntriesHold, and_true]

omit [CDouble δ] in
theorem wellFormed_jsonObjectGet {object field : JsonValue δ} {key : Bytes}
    (wellFormed : WellFormed object) (found : jsonObjectGet object key = some field) :
    WellFormed field := by
  cases object with
  | object entries =>
    have member : (key, field) ∈ entries := mem_of_getEntry_eq_some found
    exact (wellFormedEntries_iff.mp wellFormed.2 _ member).2
  | null | boolean _ | number _ | integer _ | string _ | array _ => cases found

/-- A supported query parses, and its expression matches exactly the documents
that satisfy it. -/
theorem queryMatchDocument_iff_satisfied {query : JsonValue δ} (wellFormed : WellFormed query)
    (supported : supportedQuery query = true) :
    (queryParse (some query)).error = none ∧
      ∃ expr, (queryParse (some query)).expr = some expr ∧
        ∀ document, queryMatchDocument (some expr) document = true ↔
          QuerySatisfied document query := by
  rw [supportedQuery] at supported
  simp only [queryParse, QuerySatisfied, queryMatchDocument, matchChild]
  cases wrapped : jsonObjectGet query (ascii "query") with
  | none =>
    rw [wrapped] at supported
    exact parseRoot_correct noOptions wellFormed supported
  | some filter =>
    rw [wrapped] at supported
    exact parseRoot_correct (parseOptions query)
      (wellFormed_jsonObjectGet wellFormed wrapped) supported

end Filters

theorem queryMatchDocument_iff_satisfied_example :
    let query : JsonValue Rat :=
      .object
        [(ascii "$or",
          .array
            [.object [(ascii "age", .object [(ascii "$gt", .integer 30)])],
              .object
                [(ascii "name", .string (ascii "ada")),
                  (ascii "address", .object [(ascii "city", .string (ascii "turin"))])]])]
    (queryParse (some query)).error = none ∧
      ∃ expr, (queryParse (some query)).expr = some expr ∧
        ∀ document, queryMatchDocument (some expr) document = true ↔
          QuerySatisfied document query :=
  queryMatchDocument_iff_satisfied (by decide +kernel) (by decide +kernel)

/-- Beside a logical operator the other entries of the root object are dropped:
the document has `a` equal to 1 but no `b` equal to 3. -/
theorem queryMatchDocument_droppedEntry :
    let query : JsonValue Rat :=
      .object
        [(ascii "$or", .array [.object [(ascii "a", .integer 1)]]), (ascii "b", .integer 3)]
    let document : JsonValue Rat := .object [(ascii "a", .integer 1)]
    WellFormed query ∧ (queryParse (some query)).error = none ∧
      queryMatchDocument (queryParse (some query)).expr document = true ∧
      ¬ QuerySatisfied document query := by
  refine ⟨by decide +kernel, by decide +kernel, by decide +kernel, ?_⟩
  rintro ⟨_, ⟨_, compares⟩, _⟩
  rw [FieldCompares] at compares
  exact absurd compares (by decide +kernel)

end Jdbx
