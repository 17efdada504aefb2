import Jdbx.Database.SchemaRules
import Jdbx.Utils.JsonEquality

/-!
# The JSON Schema validator

`json_schema_validate` walks a schema and a value together.  The keywords of a schema are
looked at only behind its `type`, each at the values of that type.  Conversions of doubles
that the other modules do not need are parameters.
-/

namespace Jdbx

open Library

variable {δ : Type}

/-- The names that `validate_value` knows. -/
inductive SchemaType where
  | object
  | array
  | string
  | number
  | integer
  | boolean
  | null
deriving DecidableEq

/-- The name of a type. -/
def SchemaType.name : SchemaType → Bytes
  | .object => ascii "object"
  | .array => ascii "array"
  | .string => ascii "string"
  | .number => ascii "number"
  | .integer => ascii "integer"
  | .boolean => ascii "boolean"
  | .null => ascii "null"

def schemaTypes : List SchemaType :=
  [.object, .array, .string, .number, .integer, .boolean, .null]

def SchemaType.accepts : SchemaType → JsonValue δ → Bool
  | .object, .object _ => true
  | .array, .array _ => true
  | .string, .string _ => true
  | .number, .number _ => true
  | .number, .integer _ => true
  | .integer, .integer _ => true
  | .boolean, .boolean _ => true
  | .null, .null => true
  | _, _ => false

/-- The type under the key `type`, if its name is known. -/
def schemaType (entries : List (Bytes × JsonValue δ)) : Option SchemaType :=
  match getEntry (ascii "type") entries with
  | some (.string expectedType) => schemaTypes.find? fun type => expectedType = type.name
  | _ => none

/-! ## Keywords -/

/-- `(size_t)d` and `fmod`. -/
structure DoubleMath (δ : Type) where
  toSize : δ → UInt64
  fmod : δ → δ → δ

def ValidationResult.andThen (result next : ValidationResult) : ValidationResult :=
  if result.isValid then next else result

def checkKeyword (path : Bytes) : Option Bytes → ValidationResult
  | some error => failsAt path (error.take 255)
  | none => validDocument

def extendPath (path part : Bytes) : Bytes :=
  (path ++ part).take 255

def sizeBound (math : DoubleMath δ) (entries : List (Bytes × JsonValue δ)) (keyword : Bytes) :
    Option UInt64 :=
  match getEntry keyword entries with
  | some (.integer integer) => some integer.toUInt64
  | some (.number number) => some (math.toSize number)
  | _ => none

section Keywords

variable [CDouble δ] (math : DoubleMath δ) (entries : List (Bytes × JsonValue δ))

def missingProperty (fields : List (Bytes × JsonValue δ)) : Option Bytes :=
  match getEntry (ascii "required") entries with
  | some (.array required) =>
      required.findSome? fun reqProp =>
        match reqProp with
        | .string propName =>
            if jsonObjectHas (.object fields) propName then none
            else some (ascii "Missing required property: " ++ propName)
        | _ => none
  | _ => none

/-- The message for the first property that no property of the schema allows. -/
def additionalProperty (fields : List (Bytes × JsonValue δ)) : Option Bytes :=
  match getEntry (ascii "additionalProperties") entries, getEntry (ascii "properties") entries with
  | some (.boolean false), some properties =>
      fields.findSome? fun field =>
        if jsonObjectHas properties field.1 then none
        else some (ascii "Additional property not allowed: " ++ field.1)
  | _, _ => none

/-- `minItems`, compared as `int`. -/
def tooFewItems (items : List (JsonValue δ)) : Option Bytes :=
  (sizeBound math entries (ascii "minItems")).bind fun min =>
    if Int32.ofNat items.length < Int32.ofNat min.toNat then
      some (ascii "Array has " ++ decimal items.length ++ ascii " items, minimum is " ++
        decimal min.toNat)
    else none

/-- `maxItems`, compared as `int`. -/
def tooManyItems (items : List (JsonValue δ)) : Option Bytes :=
  (sizeBound math entries (ascii "maxItems")).bind fun max =>
    if Int32.ofNat items.length > Int32.ofNat max.toNat then
      some (ascii "Array has " ++ decimal items.length ++ ascii " items, maximum is " ++
        decimal max.toNat)
    else none

/-- `minLength`. -/
def tooShort (string : Bytes) : Option Bytes :=
  (sizeBound math entries (ascii "minLength")).bind fun min =>
    if string.length < min.toNat then
      some (ascii "String length " ++ decimal string.length ++ ascii " is less than minimum " ++
        decimal min.toNat)
    else none

/-- `maxLength`. -/
def tooLong (string : Bytes) : Option Bytes :=
  (sizeBound math entries (ascii "maxLength")).bind fun max =>
    if string.length > max.toNat then
      some (ascii "String length " ++ decimal string.length ++ ascii " exceeds maximum " ++
        decimal max.toNat)
    else none

def isString (string : Bytes) : JsonValue δ → Bool
  | .string other => string == other
  | _ => false

/-- `enum`, among the strings of the array. -/
def notEnumerated (string : Bytes) : Option Bytes :=
  match getEntry (ascii "enum") entries with
  | some (.array values) =>
      if values.any (isString string) then none else some (ascii "Value not in enumeration")
  | _ => none

/-- `minimum`. -/
def belowMinimum (num : δ) : Option Bytes :=
  ((getEntry (ascii "minimum") entries).bind comparedNumber).bind fun min =>
    if CDouble.lt num min then
      some (ascii "Value " ++ CDouble.formatG num ++ ascii " is less than minimum " ++
        CDouble.formatG min)
    else none

/-- `maximum`. -/
def aboveMaximum (num : δ) : Option Bytes :=
  ((getEntry (ascii "maximum") entries).bind comparedNumber).bind fun max =>
    if CDouble.lt max num then
      some (ascii "Value " ++ CDouble.formatG num ++ ascii " exceeds maximum " ++
        CDouble.formatG max)
    else none

/-- `multipleOf`, which a zero turns off. -/
def notMultiple (num : δ) : Option Bytes :=
  ((getEntry (ascii "multipleOf") entries).bind comparedNumber).bind fun divisor =>
    if CDouble.eq divisor (CDouble.ofInt64 0) then none
    else if CDouble.eq (math.fmod num divisor) (CDouble.ofInt64 0) then none
    else
      some (ascii "Value " ++ CDouble.formatG num ++ ascii " is not a multiple of " ++
        CDouble.formatG divisor)

/-- `validate_object` behind its properties. -/
def checkObject (fields : List (Bytes × JsonValue δ)) (path : Bytes) : ValidationResult :=
  (checkKeyword path (missingProperty entries fields)).andThen
    (checkKeyword path (additionalProperty entries fields))

/-- `validate_array` behind its items. -/
def checkArray (items : List (JsonValue δ)) (path : Bytes) : ValidationResult :=
  (checkKeyword path (tooFewItems math entries items)).andThen
    (checkKeyword path (tooManyItems math entries items))

def validateString (string path : Bytes) : ValidationResult :=
  (checkKeyword path (tooShort math entries string)).andThen
    ((checkKeyword path (tooLong math entries string)).andThen
      (checkKeyword path (notEnumerated entries string)))

def validateNumber (num : δ) (path : Bytes) : ValidationResult :=
  (checkKeyword path (belowMinimum entries num)).andThen
    ((checkKeyword path (aboveMaximum entries num)).andThen
      (checkKeyword path (notMultiple math entries num)))

end Keywords

/-- The item loop of `validate_array`. -/
def validateItems (validate : JsonValue δ → Bytes → ValidationResult) (path : Bytes) :
    Nat → List (JsonValue δ) → ValidationResult
  | _, [] => validDocument
  | index, item :: items =>
      (validate item (extendPath path (ascii "[" ++ decimal index ++ ascii "]"))).andThen
        (validateItems validate path (index + 1) items)

section Walk

variable [CDouble δ]

mutual

def validateValue (math : DoubleMath δ) :
    JsonValue δ → JsonValue δ → Bytes → ValidationResult
  | .object entries, value, path =>
      match schemaType entries with
      | some type =>
          if type.accepts value then
            match value with
            | .object fields =>
                (validateProperties math entries fields path).andThen
                  (checkObject entries fields path)
            | .array items =>
                (validateArrayItems math entries items path).andThen
                  (checkArray math entries items path)
            | .string string => validateString math entries string path
            | .integer integer => validateNumber math entries (CDouble.ofInt64 integer) path
            | .number number => validateNumber math entries number path
            | .boolean _ | .null => validDocument
          else failsAt path (ascii "Expected " ++ type.name)
      | none => validDocument
  | _, _, path => failsAt path (ascii "Invalid schema")
termination_by structural schema => schema

/-- The properties of `validate_object`, under the key `properties`. -/
def validateProperties (math : DoubleMath δ) :
    List (Bytes × JsonValue δ) → List (Bytes × JsonValue δ) → Bytes → ValidationResult
  | [], _, _ => validDocument
  | (key, value) :: entries, fields, path =>
      if key = ascii "properties" then propertiesValue math value fields path
      else validateProperties math entries fields path
termination_by structural entries => entries

def propertiesValue (math : DoubleMath δ) :
    JsonValue δ → List (Bytes × JsonValue δ) → Bytes → ValidationResult
  | .object properties, fields, path => propertyLoop math properties fields path
  | _, _, _ => validDocument
termination_by structural properties => properties

/-- The property loop of `validate_object`. -/
def propertyLoop (math : DoubleMath δ) :
    List (Bytes × JsonValue δ) → List (Bytes × JsonValue δ) → Bytes → ValidationResult
  | [], _, _ => validDocument
  | (propName, propSchema) :: properties, fields, path =>
      match getEntry propName fields with
      | some propValue =>
          (validateValue math propSchema propValue
            (extendPath path (ascii "." ++ propName))).andThen
              (propertyLoop math properties fields path)
      | none => propertyLoop math properties fields path
termination_by structural properties => properties

/-- The items of `validate_array`, under the key `items`. -/
def validateArrayItems (math : DoubleMath δ) :
    List (Bytes × JsonValue δ) → List (JsonValue δ) → Bytes → ValidationResult
  | [], _, _ => validDocument
  | (key, value) :: entries, items, path =>
      if key = ascii "items" then validateItems (validateValue math value) path 0 items
      else validateArrayItems math entries items path
termination_by structural entries => entries

end

/-- `json_schema_validate`, with its message in a buffer of 512 bytes. -/
def jsonSchemaValidate (math : DoubleMath δ) (schema value : JsonValue δ) : Bool × Option Bytes :=
  let result := validateValue math schema value (ascii "$")
  if result.isValid then (true, none)
  else
    (false, some ((ascii "Validation failed at " ++
      result.errorField.getD (ascii "unknown") ++ ascii ": " ++
      result.errorMessage.getD (ascii "unknown error")).take 511))

end Walk

end Jdbx
