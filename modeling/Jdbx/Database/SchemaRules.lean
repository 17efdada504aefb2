import Jdbx.Database.StoreRuns
import Jdbx.Library.Tokens

/-!
# Schemas

A schema is a list of rules, each about the value at one field path.  It is validated rule by
rule, written as a JSON object with an object for each rule, and read back from such an object.
Regular expressions are a parameter.
-/

namespace Jdbx

open Library

variable {δ : Type}

mutual

inductive Schema (δ : Type) where
  | mk (name : Bytes) (description : Option Bytes) (rules : List (Bytes × RuleParams δ))

/-- The type of a `schema_rule_t` with its `params`. -/
inductive RuleParams (δ : Type) where
  | typeCheck (typeValue : Int32)
  | required (required : Int32)
  | minLength (minLength : Int32)
  | maxLength (maxLength : Int32)
  | minValue (minValue : δ)
  | maxValue (maxValue : δ)
  | pattern (pattern : Option Bytes)
  | enum (enumValues : Option (JsonValue δ))
  | nested (nested : Option (Schema δ))

end

/-- `regcomp` and `regexec`: which patterns compile, and which strings a pattern matches. -/
structure Regex where
  compiles : Bytes → Bool
  accepts : Bytes → Bytes → Bool

def Schema.rules : Schema δ → List (Bytes × RuleParams δ)
  | .mk _ _ rules => rules

def dbCreateSchema (name : Bytes) (description : Option Bytes) : Schema δ :=
  .mk name description []

/-- `db_add_schema_rule`, which refuses a pattern that does not compile. -/
def dbAddSchemaRule (regex : Regex) (schema : Schema δ) (rule : Bytes × RuleParams δ) :
    Option (Schema δ) :=
  match schema with
  | .mk name description rules =>
      match rule.2 with
      | .pattern (some pattern) =>
          if regex.compiles pattern then some (.mk name description (rules ++ [rule])) else none
      | _ => some (.mk name description (rules ++ [rule]))

/-- A schema to which rules were added one by one.  No object in the values of an enumeration has
a key twice. -/
inductive BuiltSchema (regex : Regex) : Schema δ → Prop where
  | create (name : Bytes) (description : Option Bytes) :
      BuiltSchema regex (dbCreateSchema name description)
  | add {schema next : Schema δ} {rule : Bytes × RuleParams δ} :
      BuiltSchema regex schema →
        (∀ values, rule.2 = .enum (some values) → DistinctKeys values) →
          (∀ inner, rule.2 = .nested (some inner) → BuiltSchema regex inner) →
            dbAddSchemaRule regex schema rule = some next → BuiltSchema regex next

/-! ## Validation -/

/-- The index that `strtol` reads from the whole of a token, if it is not negative. -/
def arrayIndex (token : Bytes) : Option Nat :=
  let digits :=
    match token.dropWhile isspace with
    | 45 :: rest => rest
    | 43 :: rest => rest
    | rest => rest
  if digits ≠ [] ∧ digits.all isdigit = true ∧ 0 ≤ (atol token).toInt then
    some (atol token).toInt.toNat
  else none

/-- One turn of the loop of `get_json_value_at_path`. -/
def pathStep (current : JsonValue δ) (token : Bytes) : Option (JsonValue δ) :=
  match current with
  | .object _ => jsonObjectGet current token
  | .array _ => (arrayIndex token).bind (jsonArrayGet current)
  | _ => none

def getJsonValueAtPath (root : JsonValue δ) (path : Bytes) : Option (JsonValue δ) :=
  ((tokens [46] path.length path).map Prod.fst).foldlM pathStep root

structure ValidationResult where
  isValid : Bool
  errorField : Option Bytes
  errorMessage : Option Bytes

def validDocument : ValidationResult :=
  { isValid := true, errorField := none, errorMessage := none }

def failsAt (fieldPath message : Bytes) : ValidationResult :=
  { isValid := false, errorField := some fieldPath, errorMessage := some message }

/-- `json_type_t` as an `int`. -/
def JsonType.code : JsonType → Int32
  | .null => 0
  | .boolean => 1
  | .number => 2
  | .integer => 3
  | .string => 4
  | .array => 5
  | .object => 6

/-- `(size_t)length` of an `int`. -/
def sizeOfInt (length : Int32) : Nat :=
  length.toInt64.toUInt64.toNat

section Validation

variable [CDouble δ]

def comparedNumber : JsonValue δ → Option δ
  | .number number => some number
  | .integer integer => some (CDouble.ofInt64 integer)
  | _ => none

/-- The check of a rule other than a nested schema: the message of its failure. -/
def ruleFailure (regex : Regex) (value : Option (JsonValue δ)) : RuleParams δ → Option Bytes
  | .typeCheck typeValue =>
      match value with
      | some value => if value.type.code = typeValue then none else some (ascii "Type mismatch")
      | none => none
  | .required required =>
      if required ≠ 0 ∧ value.isNone then some (ascii "Required field missing") else none
  | .minLength minLength =>
      match value with
      | some (.string string) =>
          if string.length < sizeOfInt minLength then some (ascii "String too short") else none
      | _ => none
  | .maxLength maxLength =>
      match value with
      | some (.string string) =>
          if string.length > sizeOfInt maxLength then some (ascii "String too long") else none
      | _ => none
  | .minValue minValue =>
      match value.bind comparedNumber with
      | some number => if CDouble.lt number minValue then some (ascii "Value too small") else none
      | none => none
  | .maxValue maxValue =>
      match value.bind comparedNumber with
      | some number => if CDouble.lt maxValue number then some (ascii "Value too large") else none
      | none => none
  | .pattern (some pattern) =>
      match value with
      | some (.string string) =>
          if regex.accepts pattern string then none else some (ascii "Pattern match failed")
      | _ => none
  | .pattern none => none
  | .enum enumValues =>
      match value, enumValues with
      | some value, some (.array items) =>
          if items.any (jsonEquals value) then none else some (ascii "Value not in enum")
      | _, _ => none
  | .nested _ => none

/-- A nested schema that fails: its field goes behind the field of the rule. -/
def nestedFailure (fieldPath : Bytes) (result : ValidationResult) : ValidationResult :=
  { isValid := false
    errorField :=
      match result.errorField with
      | some field => some (fieldPath ++ ascii "." ++ field)
      | none => some fieldPath
    errorMessage := result.errorMessage }

mutual

def dbValidateDocument (regex : Regex) : Schema δ → JsonValue δ → ValidationResult
  | .mk _ _ rules, document => validateRules regex rules document
termination_by structural schema => schema

/-- The loop of `db_validate_document`. -/
def validateRules (regex : Regex) : List (Bytes × RuleParams δ) → JsonValue δ → ValidationResult
  | [], _ => validDocument
  | (fieldPath, params) :: rules, document =>
      let result := validateRule regex params fieldPath (getJsonValueAtPath document fieldPath)
      if result.isValid then validateRules regex rules document else result
termination_by structural rules => rules

def validateRule (regex : Regex) : RuleParams δ → Bytes → Option (JsonValue δ) → ValidationResult
  | .nested (some schema), fieldPath, some value =>
      let result := dbValidateDocument regex schema value
      if result.isValid then validDocument else nestedFailure fieldPath result
  | params, fieldPath, value =>
      match ruleFailure regex value params with
      | some message => failsAt fieldPath message
      | none => validDocument
termination_by structural params => params

end

end Validation

/-! ## As JSON -/

def typeValueName (typeValue : Int32) : Bytes :=
  if typeValue = 0 then ascii "null"
  else if typeValue = 1 then ascii "boolean"
  else if typeValue = 3 then ascii "integer"
  else if typeValue = 2 then ascii "number"
  else if typeValue = 4 then ascii "string"
  else if typeValue = 5 then ascii "array"
  else if typeValue = 6 then ascii "object"
  else ascii "any"

def readTypeValue (name : Bytes) : Int32 :=
  if name = ascii "null" then 0
  else if name = ascii "boolean" then 1
  else if name = ascii "integer" then 3
  else if name = ascii "number" then 2
  else if name = ascii "string" then 4
  else if name = ascii "array" then 5
  else 6

/-- The `type_str` of a rule. -/
def ruleTypeName : RuleParams δ → Bytes
  | .typeCheck _ => ascii "type"
  | .required _ => ascii "required"
  | .minLength _ => ascii "minLength"
  | .maxLength _ => ascii "maxLength"
  | .minValue _ => ascii "minValue"
  | .maxValue _ => ascii "maxValue"
  | .pattern _ => ascii "pattern"
  | .enum _ => ascii "enum"
  | .nested _ => ascii "nested"

/-- The `rule_obj` of a rule, with its value if there is one. -/
def ruleObject (fieldPath typeName : Bytes) (value : Option (JsonValue δ)) : JsonValue δ :=
  let ruleObj := jsonObjectSet (.object []) (ascii "field") (.string fieldPath)
  let ruleObj := jsonObjectSet ruleObj (ascii "type") (.string typeName)
  value.elim ruleObj (jsonObjectSet ruleObj (ascii "value"))

mutual

def dbSchemaToJson : Schema δ → JsonValue δ
  | .mk name description rules =>
      let json := jsonObjectSet (.object []) (ascii "name") (.string name)
      let json :=
        description.elim json fun description =>
          jsonObjectSet json (ascii "description") (.string description)
      jsonObjectSet json (ascii "rules") (.array (rulesToJson rules))
termination_by structural schema => schema

/-- The loop of `db_schema_to_json`. -/
def rulesToJson : List (Bytes × RuleParams δ) → List (JsonValue δ)
  | [] => []
  | (fieldPath, params) :: rules =>
      ruleObject fieldPath (ruleTypeName params) (paramsToJson params) :: rulesToJson rules
termination_by structural rules => rules

def paramsToJson : RuleParams δ → Option (JsonValue δ)
  | .typeCheck typeValue => some (.string (typeValueName typeValue))
  | .required required => some (.boolean (required ≠ 0))
  | .minLength minLength => some (.integer minLength.toInt64)
  | .maxLength maxLength => some (.integer maxLength.toInt64)
  | .minValue minValue => some (.number minValue)
  | .maxValue maxValue => some (.number maxValue)
  | .pattern pattern => pattern.map .string
  | .enum enumValues => enumValues.map jsonClone
  | .nested (some schema) => some (dbSchemaToJson schema)
  | .nested none => none
termination_by structural params => params

end

section Reading

variable [CDouble δ]

def readLength (value : Option (JsonValue δ)) (default : Int32) : Int32 :=
  match value with
  | some (.integer integer) => integer.toInt32
  | some (.number number) => CDouble.toInt32 number
  | _ => default

/-- A rule of the type with this name: its defaults, and its value where it is of the right
kind. -/
def readParams (typeName : Bytes) (value : Option (JsonValue δ)) (nested : Option (Schema δ)) :
    Option (RuleParams δ) :=
  if typeName = ascii "type" then
    some (.typeCheck ((jsonGetString value).elim 6 readTypeValue))
  else if typeName = ascii "required" then
    some (.required
      (match value with
        | some (.boolean boolean) => if boolean then 1 else 0
        | _ => 1))
  else if typeName = ascii "minLength" then some (.minLength (readLength value 0))
  else if typeName = ascii "maxLength" then some (.maxLength (readLength value 1024))
  else if typeName = ascii "minValue" then
    some (.minValue ((value.bind comparedNumber).getD (CDouble.ofInt64 0)))
  else if typeName = ascii "maxValue" then
    some (.maxValue ((value.bind comparedNumber).getD (CDouble.ofInt64 1000000)))
  else if typeName = ascii "pattern" then some (.pattern (jsonGetString value))
  else if typeName = ascii "enum" then
    some (.enum
      (match value with
        | some (.array items) => some (jsonClone (.array items))
        | _ => none))
  else if typeName = ascii "nested" then some (.nested nested)
  else none

def readRule (entries : List (Bytes × JsonValue δ)) (nested : Option (Schema δ)) :
    Option (Bytes × RuleParams δ) :=
  match getEntry (ascii "field") entries, getEntry (ascii "type") entries with
  | some (.string fieldPath), some (.string typeName) =>
      (readParams typeName (getEntry (ascii "value") entries) nested).map (fieldPath, ·)
  | _, _ => none

mutual

def dbSchemaFromJson (regex : Regex) : JsonValue δ → Option (Schema δ)
  | .object entries =>
      match getEntry (ascii "name") entries with
      | some (.string name) =>
          rulesEntry regex entries
            (dbCreateSchema name (jsonGetString (getEntry (ascii "description") entries)))
      | _ => none
  | _ => none
termination_by structural json => json

/-- The rules under the key `rules`. -/
def rulesEntry (regex : Regex) :
    List (Bytes × JsonValue δ) → Schema δ → Option (Schema δ)
  | [], _ => none
  | (key, value) :: entries, schema =>
      if key = ascii "rules" then rulesValue regex value schema
      else rulesEntry regex entries schema
termination_by structural entries => entries

def rulesValue (regex : Regex) : JsonValue δ → Schema δ → Option (Schema δ)
  | .array items, schema => some (readRules regex items schema)
  | _, _ => none
termination_by structural value => value

/-- The rule loop of `db_schema_from_json`, which skips what it cannot read or add. -/
def readRules (regex : Regex) : List (JsonValue δ) → Schema δ → Schema δ
  | [], schema => schema
  | item :: items, schema =>
      readRules regex items
        (((readItem regex item).bind (dbAddSchemaRule regex schema)).getD schema)
termination_by structural items => items

def readItem (regex : Regex) : JsonValue δ → Option (Bytes × RuleParams δ)
  | .object entries => readRule entries (nestedEntry regex entries)
  | _ => none
termination_by structural item => item

/-- The schema under the key `value`. -/
def nestedEntry (regex : Regex) : List (Bytes × JsonValue δ) → Option (Schema δ)
  | [] => none
  | (key, value) :: entries =>
      if key = ascii "value" then dbSchemaFromJson regex value else nestedEntry regex entries
termination_by structural entries => entries

end

end Reading

end Jdbx
