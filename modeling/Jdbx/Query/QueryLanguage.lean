import Jdbx.Library.Strtok
import Jdbx.Utils.Json

/-!
# The query language

`query_parse` turns a JSON query into an expression tree and
`query_match_document` evaluates the tree on a document.  A child of an
expression can be `NULL`, which matches nothing.  Field paths are split with
`strtok`, here as a function of the path alone.
-/

namespace Jdbx

open Library

/-! ## Operators -/

inductive QueryOperator where
  | opEq
  | opNe
  | opGt
  | opGte
  | opLt
  | opLte
  | opIn
  | opNin
  | opAnd
  | opOr
  | opNot
  | opNor
  | opAll
  | opElemMatch
  | opSize
  | opExists
  | opType
  | opField
  | opRoot
  deriving DecidableEq, Repr

def operatorHashSize : Nat := 32

/-- `hash_operator_name`.  A `char` is signed. -/
def hashOperatorName (name : Bytes) : Nat :=
  let step (hash : UInt32) (byte : UInt8) : UInt32 :=
    (hash <<< 5) + hash + byte.toInt8.toInt32.toUInt32
  (name.foldl step 5381).toNat % operatorHashSize

/-- The names that `init_operator_hash_table` enters. -/
def operators : List (Bytes × QueryOperator) :=
  [(ascii "$eq", .opEq),
    (ascii "$ne", .opNe),
    (ascii "$gt", .opGt),
    (ascii "$gte", .opGte),
    (ascii "$lt", .opLt),
    (ascii "$lte", .opLte),
    (ascii "$in", .opIn),
    (ascii "$nin", .opNin),
    (ascii "$and", .opAnd),
    (ascii "$or", .opOr),
    (ascii "$not", .opNot),
    (ascii "$nor", .opNor),
    (ascii "$all", .opAll),
    (ascii "$elemMatch", .opElemMatch),
    (ascii "$size", .opSize),
    (ascii "$exists", .opExists),
    (ascii "$type", .opType)]

abbrev OperatorTable := List (Option (Bytes × QueryOperator))

def freeSlot (table : OperatorTable) : Nat → Nat → Nat
  | 0, hash => hash
  | probes + 1, hash =>
    if (table[hash]?.join).isSome then freeSlot table probes ((hash + 1) % operatorHashSize)
    else hash

def insertOperator (table : OperatorTable) (entry : Bytes × QueryOperator) : OperatorTable :=
  table.set (freeSlot table operatorHashSize (hashOperatorName entry.1)) (some entry)

/-- The table behind `init_operator_hash_table`. -/
def operatorHashTable : OperatorTable :=
  operators.foldl insertOperator (List.replicate operatorHashSize none)

/-- The probing loop of `query_parse_operator`. -/
def probeOperator (table : OperatorTable) (name : Bytes) : Nat → Nat → QueryOperator
  | 0, _ => .opField
  | probes + 1, index =>
    match table[index]?.join with
    | none => .opField
    | some (stored, operator) =>
      if stored = name then operator
      else probeOperator table name probes ((index + 1) % operatorHashSize)

def queryParseOperator (name : Bytes) : QueryOperator :=
  probeOperator operatorHashTable name operatorHashSize (hashOperatorName name)

/-- The operator is one of `$and`, `$or`, `$not` and `$nor`. -/
def isLogical : QueryOperator → Bool
  | .opAnd | .opOr | .opNot | .opNor => true
  | _ => false

/-- A key that starts with `$`. -/
def isOperatorKey (key : Bytes) : Bool :=
  key.head? = some 36

/-- A key that `query_parse` and `parse_field_expr` hand to
`parse_logical_expr`. -/
def isLogicalKey (key : Bytes) : Bool :=
  isOperatorKey key && isLogical (queryParseOperator key)

/-! ## Expressions -/

inductive QueryExpr (δ : Type) where
  | node (op : QueryOperator) (fieldPath : Option Bytes) (value : Option (JsonValue δ))
      (children : List (Option (QueryExpr δ)))

section Parsing

variable {δ : Type}

def queryCreateFieldExpr (fieldPath : Option Bytes) (op : QueryOperator)
    (value : JsonValue δ) : QueryExpr δ :=
  .node op fieldPath (some (jsonClone value)) []

def queryCreateLogicalExpr (op : QueryOperator) (children : List (Option (QueryExpr δ))) :
    QueryExpr δ :=
  .node op none none children

def parseComparisonExpr (fieldPath : Option Bytes) : JsonValue δ → Option (QueryExpr δ)
  | .object [] => none
  | .object [(name, value)] => some (queryCreateFieldExpr fieldPath (queryParseOperator name) value)
  | .object entries =>
    some
      (queryCreateLogicalExpr .opAnd
        (entries.map fun entry =>
          some (queryCreateFieldExpr fieldPath (queryParseOperator entry.1) entry.2)))
  | _ => none

/-- `parse_logical_expr` on an object: only `$not` takes one. -/
def logicalOfObject (op : QueryOperator) (entries : List (Bytes × JsonValue δ)) :
    Option (QueryExpr δ) :=
  match op with
  | .opNot =>
    (parseComparisonExpr none (.object entries)).map fun child =>
      queryCreateLogicalExpr .opNot [some child]
  | _ => none

/-- `parse_logical_expr` on an array of filters, `none` when a filter does not
parse. -/
def logicalOfArray (op : QueryOperator) (filters : Option (List (QueryExpr δ))) :
    Option (QueryExpr δ) :=
  match op, filters with
  | .opNot, _ => none
  | _, none => none
  | _, some [] => none
  | op, some children => some (queryCreateLogicalExpr op (children.map some))

/-- A filter with one entry is the expression of the entry, any other filter is
the conjunction of its entries. -/
def filterOfEntries : List (Option (QueryExpr δ)) → Option (QueryExpr δ)
  | [child] => child
  | children => some (queryCreateLogicalExpr .opAnd children)

mutual

def parseFieldExpr (fieldPath : Bytes) : JsonValue δ → Option (QueryExpr δ)
  | .array items =>
    if isLogicalKey fieldPath then
      logicalOfArray (queryParseOperator fieldPath) (parseFilters items)
    else some (queryCreateFieldExpr (some fieldPath) .opEq (.array items))
  | .object entries =>
    if isLogicalKey fieldPath then logicalOfObject (queryParseOperator fieldPath) entries
    else if entries.isEmpty then
      some (queryCreateFieldExpr (some fieldPath) .opEq (.object entries))
    else if entries.any fun entry => isOperatorKey entry.1 then
      parseComparisonExpr (some fieldPath) (.object entries)
    else some (queryCreateLogicalExpr .opAnd (parseNested fieldPath entries))
  | value =>
    if isLogicalKey fieldPath then none
    else some (queryCreateFieldExpr (some fieldPath) .opEq value)
termination_by structural value => value

/-- The filters of a `$and`, `$or` or `$nor` array. -/
def parseFilters : List (JsonValue δ) → Option (List (QueryExpr δ))
  | [] => some []
  | item :: items =>
    match parseFilter item, parseFilters items with
    | some filter, some filters => some (filter :: filters)
    | _, _ => none
termination_by structural items => items

/-- One filter of a logical array.  `parse_field_expr` hands a logical key to
`parse_logical_expr` itself. -/
def parseFilter : JsonValue δ → Option (QueryExpr δ)
  | .object entries => filterOfEntries (parseEntries entries)
  | _ => none
termination_by structural filter => filter

def parseEntries : List (Bytes × JsonValue δ) → List (Option (QueryExpr δ))
  | [] => []
  | (key, value) :: entries => parseFieldExpr key value :: parseEntries entries
termination_by structural entries => entries

def parseNested (fieldPath : Bytes) :
    List (Bytes × JsonValue δ) → List (Option (QueryExpr δ))
  | [] => []
  | (key, value) :: entries =>
    parseFieldExpr (fieldPath ++ 46 :: key) value :: parseNested fieldPath entries
termination_by structural entries => entries

end

def parseLogicalExpr (opName : Bytes) : JsonValue δ → Option (QueryExpr δ)
  | .object entries => logicalOfObject (queryParseOperator opName) entries
  | .array items => logicalOfArray (queryParseOperator opName) (parseFilters items)
  | _ => none

/-- The part of `query_options_t` that `query_parse` sets. -/
structure QueryOptions (δ : Type) where
  limit : Int32
  skip : Int32
  sort : Option (JsonValue δ)
  projection : Option (JsonValue δ)

structure QueryParseResult (δ : Type) where
  expr : Option (QueryExpr δ)
  options : QueryOptions δ
  error : Option String

/-- The options of the format with `query`, `limit`, `skip`, `sort` and
`projection`. -/
def parseOptions (queryJson : JsonValue δ) : QueryOptions δ where
  limit :=
    match jsonObjectGet queryJson (ascii "limit") with
    | some (.integer limit) => limit.toInt32
    | _ => 0
  skip :=
    match jsonObjectGet queryJson (ascii "skip") with
    | some (.integer skip) => skip.toInt32
    | _ => 0
  sort :=
    match jsonObjectGet queryJson (ascii "sort") with
    | some (.object entries) => some (jsonClone (.object entries))
    | _ => none
  projection :=
    match jsonObjectGet queryJson (ascii "projection") with
    | some (.object entries) => some (jsonClone (.object entries))
    | _ => none

def noOptions : QueryOptions δ where
  limit := 0
  skip := 0
  sort := none
  projection := none

/-- The end of `query_parse`: only the first logical entry of the root object is
parsed.  `BUFFER_ALLOC(0)` is `NULL`. -/
def parseRoot (options : QueryOptions δ) : JsonValue δ → QueryParseResult δ
  | .object entries =>
    match entries.find? fun entry => isLogicalKey entry.1 with
    | some (key, value) =>
      { expr := parseLogicalExpr key value, options := options, error := none }
    | none =>
      if entries.isEmpty then
        { expr := none, options := options, error := some "Out of memory" }
      else
        { expr := some (queryCreateLogicalExpr .opAnd (parseEntries entries))
          options := options
          error := none }
  | _ => { expr := none, options := options, error := some "Query must be a JSON object" }

def queryParse : Option (JsonValue δ) → QueryParseResult δ
  | none => { expr := none, options := noOptions, error := some "Query JSON is NULL" }
  | some queryJson =>
    match jsonObjectGet queryJson (ascii "query") with
    | some query => parseRoot (parseOptions queryJson) query
    | none => parseRoot noOptions queryJson

end Parsing

section Matching

variable {δ : Type}

/-- `json_object_get` on a value that has to be an object. -/
def objectField (current : JsonValue δ) (key : Bytes) : Option (JsonValue δ) :=
  match current with
  | .object _ => jsonObjectGet current key
  | _ => none

/-- One token of a field path, with an optional array index in brackets. -/
def extractToken (current : JsonValue δ) (token : Bytes) : Option (JsonValue δ) :=
  let name := token.takeWhile (· ≠ 91)
  if name.length = token.length then objectField current token
  else
    let afterBracket := token.drop (name.length + 1)
    let indexStr := afterBracket.takeWhile (· ≠ 93)
    if indexStr.length = afterBracket.length then none
    else
      match if name.isEmpty then some current else objectField current name with
      | some (.array items) =>
        let index := (atoi indexStr).toInt
        if 0 ≤ index then items[index.toNat]? else none
      | _ => none

/-- The loop of `query_extract_field`.  Each round takes at least one byte of
the path. -/
def extractTokens : Nat → Bytes → JsonValue δ → Option (JsonValue δ)
  | 0, _, current => some current
  | rounds + 1, path, current =>
    match strtok [46] path with
    | none => some current
    | some (token, rest) =>
      match extractToken current token with
      | none => none
      | some next => extractTokens rounds rest next

def queryExtractField (document : JsonValue δ) (fieldPath : Bytes) : Option (JsonValue δ) :=
  if fieldPath.contains 46 then extractTokens (fieldPath.length + 1) fieldPath document
  else objectField document fieldPath

/-- The comparison of `$gt`, `$gte`, `$lt` and `$lte`: numbers with numbers,
strings with strings. -/
def compareOrdered [CDouble δ] (integers : Int64 → Int64 → Bool) (doubles : δ → δ → Bool)
    (strings : Bytes → Bytes → Bool) : JsonValue δ → JsonValue δ → Bool
  | .integer field, .integer query => integers field query
  | .number field, .number query => doubles field query
  | .integer field, .number query => doubles (CDouble.ofInt64 field) query
  | .number field, .integer query => doubles field (CDouble.ofInt64 query)
  | .string field, .string query => strings field query
  | _, _ => false

/-- The value of a member of `json_type_t`. -/
def typeNumber : JsonType → UInt32
  | .null => 0
  | .boolean => 1
  | .number => 2
  | .integer => 3
  | .string => 4
  | .array => 5
  | .object => 6

/-- The type that the operand of `$type` names, `-1` when it names none. -/
def namedType : JsonValue δ → UInt32
  | .integer number => number.toUInt64.toUInt32
  | .string name =>
    if name = ascii "null" then typeNumber .null
    else if name = ascii "boolean" then typeNumber .boolean
    else if name = ascii "integer" then typeNumber .integer
    else if name = ascii "number" then typeNumber .number
    else if name = ascii "string" then typeNumber .string
    else if name = ascii "array" then typeNumber .array
    else if name = ascii "object" then typeNumber .object
    else 0xFFFFFFFF
  | _ => 0xFFFFFFFF

def matchComparisonOperator [CDouble δ] (op : QueryOperator)
    (fieldValue : Option (JsonValue δ)) (queryValue : JsonValue δ) : Bool :=
  match fieldValue with
  | none =>
    match op with
    | .opEq => queryValue.type = .null
    | .opNe => queryValue.type ≠ .null
    | .opExists =>
      match queryValue with
      | .boolean boolean => !boolean
      | _ => false
    | _ => false
  | some field =>
    match op with
    | .opEq => jsonEquals field queryValue
    | .opNe => !jsonEquals field queryValue
    | .opGt =>
      compareOrdered (fun a b => b < a) (fun a b => CDouble.lt b a) (fun a b => b < a)
        field queryValue
    | .opGte =>
      compareOrdered (fun a b => b ≤ a) (fun a b => CDouble.lt b a || CDouble.eq a b)
        (fun a b => b ≤ a) field queryValue
    | .opLt =>
      compareOrdered (fun a b => a < b) (fun a b => CDouble.lt a b) (fun a b => a < b)
        field queryValue
    | .opLte =>
      compareOrdered (fun a b => a ≤ b) (fun a b => CDouble.lt a b || CDouble.eq a b)
        (fun a b => a ≤ b) field queryValue
    | .opIn =>
      match queryValue with
      | .array items => items.any fun item => jsonEquals field item
      | _ => false
    | .opNin =>
      match queryValue with
      | .array items => !items.any fun item => jsonEquals field item
      | _ => true
    | .opExists =>
      match queryValue with
      | .boolean boolean => boolean
      | _ => false
    | .opType => typeNumber field.type = namedType queryValue
    | .opAll =>
      match field, queryValue with
      | .array fieldItems, .array items =>
        items.all fun item => fieldItems.any fun fieldItem => jsonEquals fieldItem item
      | _, _ => false
    | .opSize =>
      match field, queryValue with
      | .array fieldItems, .integer size => Int32.ofNat fieldItems.length = size.toInt32
      | .array fieldItems, .number size => Int32.ofNat fieldItems.length = CDouble.toInt32 size
      | _, _ => false
    | _ => false

mutual

/-- `query_match_document` on an expression. -/
def matchExpr [CDouble δ] : QueryExpr δ → JsonValue δ → Bool
  | .node op fieldPath value children, document =>
    let fieldValue := fieldPath.bind (queryExtractField document)
    match op with
    | .opRoot | .opAnd => matchAll children document
    | .opOr => matchAny children document
    | .opNot =>
      match children with
      | [some child] => !matchExpr child document
      | _ => false
    | .opNor => !matchAny children document
    | .opElemMatch =>
      match fieldValue with
      | some (.array items) =>
        items.any fun element =>
          match element with
          | .object _ => matchAll children element
          | _ => false
      | _ => false
    | .opField => false
    | comparison =>
      -- every comparison that is built has a value
      matchComparisonOperator comparison fieldValue (value.getD .null)
termination_by structural expr => expr

/-- `query_match_document` on a child, which can be `NULL`. -/
def matchChild [CDouble δ] : Option (QueryExpr δ) → JsonValue δ → Bool
  | none, _ => false
  | some child, document => matchExpr child document
termination_by structural child => child

def matchAll [CDouble δ] : List (Option (QueryExpr δ)) → JsonValue δ → Bool
  | [], _ => true
  | child :: children, document => matchChild child document && matchAll children document
termination_by structural children => children

def matchAny [CDouble δ] : List (Option (QueryExpr δ)) → JsonValue δ → Bool
  | [], _ => false
  | child :: children, document => matchChild child document || matchAny children document
termination_by structural children => children

end

def queryMatchDocument [CDouble δ] (expr : Option (QueryExpr δ)) (document : JsonValue δ) :
    Bool :=
  matchChild expr document

end Matching

end Jdbx
