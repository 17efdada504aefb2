import Jdbx.Database.JsonSchemaValidator

/-!
# What the validator accepts

The meaning of a schema, with a choice of how its keywords are read: on their own, as JSON
Schema has them, or each behind the `type` of the schema, as the validator does.
-/

namespace Jdbx

open Library

variable {δ : Type}

/-- A way to read the keywords of a schema. -/
structure Reading (δ : Type) where
  /-- The value meets what stands under `type`. -/
  typed : JsonValue δ → JsonValue δ → Prop
  /-- The keywords for values of this type count. -/
  applies : List (Bytes × JsonValue δ) → SchemaType → Prop
  /-- `enum` counts. -/
  enumerates : List (Bytes × JsonValue δ) → Prop
  /-- `additionalProperties` counts. -/
  closes : List (Bytes × JsonValue δ) → Prop
  /-- The length of a string. -/
  characters : Bytes → Nat
  /-- The first of two numbers is less. -/
  less : JsonValue δ → JsonValue δ → Prop

def sizeLimit (math : DoubleMath δ) (entries : List (Bytes × JsonValue δ)) (keyword : Bytes) :
    Option Int :=
  match getEntry keyword entries with
  | some (.integer integer) => some integer.toInt
  | some (.number number) => some (math.toSize number).toNat
  | _ => none

@[mk_iff]
structure KeywordsHold [CDouble δ] (reading : Reading δ) (math : DoubleMath δ)
    (entries : List (Bytes × JsonValue δ)) (value : JsonValue δ) : Prop where
  type : ∀ constraint, getEntry (ascii "type") entries = some constraint →
    reading.typed constraint value
  required : reading.applies entries .object → ∀ fields, value = .object fields → ∀ names name,
    getEntry (ascii "required") entries = some (.array names) → .string name ∈ names →
      name ∈ entryKeys fields
  additionalProperties : reading.applies entries .object → reading.closes entries →
    getEntry (ascii "additionalProperties") entries = some (.boolean false) →
      ∀ fields, value = .object fields → ∀ key ∈ entryKeys fields,
        ∃ props, getEntry (ascii "properties") entries = some (.object props) ∧
          key ∈ entryKeys props
  minItems : reading.applies entries .array → ∀ items, value = .array items → ∀ min,
    sizeLimit math entries (ascii "minItems") = some min → min ≤ items.length
  maxItems : reading.applies entries .array → ∀ items, value = .array items → ∀ max,
    sizeLimit math entries (ascii "maxItems") = some max → items.length ≤ max
  minLength : reading.applies entries .string → ∀ string, value = .string string → ∀ min,
    sizeLimit math entries (ascii "minLength") = some min → min ≤ reading.characters string
  maxLength : reading.applies entries .string → ∀ string, value = .string string → ∀ max,
    sizeLimit math entries (ascii "maxLength") = some max → reading.characters string ≤ max
  enum : reading.enumerates entries → ∀ values,
    getEntry (ascii "enum") entries = some (.array values) → ∃ item ∈ values, SameValue value item
  minimum : reading.applies entries .number → ∀ bound,
    getEntry (ascii "minimum") entries = some bound → ¬ reading.less value bound
  maximum : reading.applies entries .number → ∀ bound,
    getEntry (ascii "maximum") entries = some bound → ¬ reading.less bound value
  multipleOf : reading.applies entries .number → ∀ num, comparedNumber value = some num →
    ∀ divisor, (getEntry (ascii "multipleOf") entries).bind comparedNumber = some divisor →
      CDouble.eq divisor (CDouble.ofInt64 0) = false →
        CDouble.eq (math.fmod num divisor) (CDouble.ofInt64 0) = true

/-- The value satisfies the schema. -/
inductive Satisfies [CDouble δ] (reading : Reading δ) (math : DoubleMath δ) :
    JsonValue δ → JsonValue δ → Prop where
  | schema {entries : List (Bytes × JsonValue δ)} {value : JsonValue δ}
      (keywords : KeywordsHold reading math entries value)
      (properties : reading.applies entries .object → ∀ fields props, value = .object fields →
        getEntry (ascii "properties") entries = some (.object props) →
          ∀ propName propSchema propValue, (propName, propSchema) ∈ props →
            getEntry propName fields = some propValue →
              Satisfies reading math propSchema propValue)
      (items : reading.applies entries .array → ∀ values itemSchema, value = .array values →
        getEntry (ascii "items") entries = some itemSchema →
          ∀ item ∈ values, Satisfies reading math itemSchema item) :
      Satisfies reading math (.object entries) value

section Readings

variable [CDouble δ]

def utf8Length (string : Bytes) : Nat :=
  string.countP fun byte => byte &&& 192 != 128

/-- JSON Schema: every keyword on its own, lengths in characters, exact comparisons of
integers. -/
def jsonSchemaReading : Reading δ :=
  { typed := fun constraint value =>
      match constraint with
      | .string name => ∃ type : SchemaType, type.name = name ∧ type.accepts value = true
      | .array names => ∃ type : SchemaType, .string type.name ∈ names ∧ type.accepts value = true
      | _ => True
    applies := fun _ _ => True
    enumerates := fun _ => True
    closes := fun _ => True
    characters := utf8Length
    less := fun value other =>
      match value, other with
      | .integer integer, .integer otherInteger => integer.toInt < otherInteger.toInt
      | value, other =>
        ∃ num otherNum, comparedNumber value = some num ∧ comparedNumber other = some otherNum ∧
          CDouble.lt num otherNum = true }

/-- The validator: the keywords of the type that the schema names, an enumeration of strings
only, additional properties only next to `properties`, lengths in bytes, comparisons of
doubles. -/
def validatorReading : Reading δ :=
  { typed := fun constraint value =>
      match constraint with
      | .string name => ∀ type : SchemaType, type.name = name → type.accepts value = true
      | _ => True
    applies := fun entries type =>
      schemaType entries = some type ∨ type = .number ∧ schemaType entries = some .integer
    enumerates := fun entries => schemaType entries = some .string
    closes := fun entries => getEntry (ascii "properties") entries ≠ none
    characters := List.length
    less := fun value other =>
      ∃ num otherNum, comparedNumber value = some num ∧ comparedNumber other = some otherNum ∧
        CDouble.lt num otherNum = true }

end Readings

/-- No size keyword is negative, and the numbers of items fit into an `int`. -/
structure SizesFit (math : DoubleMath δ) (entries : List (Bytes × JsonValue δ)) : Prop where
  items : ∀ keyword ∈ [ascii "minItems", ascii "maxItems"], ∀ limit,
    sizeLimit math entries keyword = some limit → 0 ≤ limit ∧ limit < 2 ^ 31
  lengths : ∀ keyword ∈ [ascii "minLength", ascii "maxLength"], ∀ limit,
    sizeLimit math entries keyword = some limit → 0 ≤ limit

/-- The sizes of the schema fit, and of all the schemas in it. -/
inductive BoundedSchema (math : DoubleMath δ) : JsonValue δ → Prop where
  | object {entries : List (Bytes × JsonValue δ)} (sizes : SizesFit math entries)
      (properties : ∀ props, getEntry (ascii "properties") entries = some (.object props) →
        ∀ prop ∈ props, BoundedSchema math prop.2)
      (items : ∀ itemSchema, getEntry (ascii "items") entries = some itemSchema →
        BoundedSchema math itemSchema) :
      BoundedSchema math (.object entries)
  | other {schema : JsonValue δ} (notObject : ∀ entries, schema ≠ .object entries) :
      BoundedSchema math schema

/-- The lengths of the arrays fit into an `int`. -/
inductive SmallArrays : JsonValue δ → Prop where
  | array {items : List (JsonValue δ)} (small : items.length < 2 ^ 31)
      (each : ∀ item ∈ items, SmallArrays item) : SmallArrays (.array items)
  | object {fields : List (Bytes × JsonValue δ)} (each : ∀ field ∈ fields, SmallArrays field.2) :
      SmallArrays (.object fields)
  | scalar {value : JsonValue δ} (notArray : ∀ items, value ≠ .array items)
      (notObject : ∀ fields, value ≠ .object fields) : SmallArrays value

/-! ## The checks -/

@[simp]
theorem andThen_isValid (result next : ValidationResult) :
    (result.andThen next).isValid = true ↔ result.isValid = true ∧ next.isValid = true := by
  rw [ValidationResult.andThen]
  split
  · rename_i valid
    simp [valid]
  · rename_i invalid
    simp [invalid]

@[simp]
theorem checkKeyword_isValid (path : Bytes) (error : Option Bytes) :
    (checkKeyword path error).isValid = true ↔ error = none := by
  cases error <;> simp [checkKeyword, validDocument, failsAt]

theorem sizeBound_eq {math : DoubleMath δ} {entries : List (Bytes × JsonValue δ)}
    {keyword : Bytes}
    (fits : ∀ limit, sizeLimit math entries keyword = some limit → 0 ≤ limit) :
    (sizeBound math entries keyword).map (fun size => (size.toNat : Int)) =
      sizeLimit math entries keyword := by
  rw [sizeBound, sizeLimit]
  rw [sizeLimit] at fits
  cases held : getEntry keyword entries with
  | none => rfl
  | some value =>
    cases value with
    | integer integer =>
      have nonneg : 0 ≤ integer.toInt := fits integer.toInt (by rw [held])
      have nonneg64 : 0 ≤ integer := by
        rw [Int64.le_iff_toInt_le]
        exact nonneg
      have same := Int64.toNat_toUInt64_of_le nonneg64
      simp only [Option.map_some, Option.some.injEq]
      rw [same, Int64.toNatClampNeg, Int.toNat_of_nonneg nonneg]
    | _ => rfl

section Messages

variable [CDouble δ] {math : DoubleMath δ} {entries : List (Bytes × JsonValue δ)}

omit [CDouble δ] in
theorem missingProperty_eq_none (fields : List (Bytes × JsonValue δ)) :
    missingProperty entries fields = none ↔ ∀ names name,
      getEntry (ascii "required") entries = some (.array names) → .string name ∈ names →
        name ∈ entryKeys fields := by
  have has : ∀ name, jsonObjectHas (.object fields) name = true ↔ name ∈ entryKeys fields := by
    intro name
    rw [jsonObjectHas, jsonObjectGet, Option.isSome_iff_ne_none, ne_eq, getEntry_eq_none_iff,
      not_not]
  rw [missingProperty]
  split
  · rename_i required held
    rw [List.findSome?_eq_none_iff]
    constructor
    · intro none names name same member
      obtain rfl : required = names := by
        rw [held] at same
        cases same
        rfl
      have present := none _ member
      simp only [ite_eq_left_iff, reduceCtorEq, imp_false, not_not] at present
      exact (has name).mp present
    · intro all reqProp member
      cases reqProp with
      | string name => simpa using (has name).mpr (all required name held member)
      | _ => rfl
  · rename_i absent
    exact iff_of_true rfl fun names name same => absurd same (absent names)

omit [CDouble δ] in
theorem additionalProperty_eq_none (fields : List (Bytes × JsonValue δ)) :
    additionalProperty entries fields = none ↔
      (getEntry (ascii "properties") entries ≠ none →
        getEntry (ascii "additionalProperties") entries = some (.boolean false) →
          ∀ key ∈ entryKeys fields, ∃ props,
            getEntry (ascii "properties") entries = some (.object props) ∧
              key ∈ entryKeys props) := by
  rw [additionalProperty]
  split
  · rename_i properties closed held
    have defined : ∀ key, jsonObjectHas properties key = true ↔
        ∃ props, properties = .object props ∧ key ∈ entryKeys props := by
      intro key
      cases properties with
      | object props =>
        simp [jsonObjectHas, jsonObjectGet, Option.isSome_iff_ne_none, getEntry_eq_none_iff]
      | _ => simp [jsonObjectHas, jsonObjectGet]
    rw [List.findSome?_eq_none_iff]
    simp only [ite_eq_left_iff, reduceCtorEq, imp_false, not_not, defined, closed, held, ne_eq,
      not_false_eq_true, forall_const, Option.some.injEq, entryKeys, List.forall_mem_map]
  · rename_i open_
    refine iff_of_true rfl fun present closed => ?_
    obtain ⟨properties, held⟩ := Option.ne_none_iff_exists'.mp present
    exact absurd held (open_ properties closed)

omit [CDouble δ] in
theorem sizeCheck_eq_none {keyword : Bytes} (fails : UInt64 → Prop) [DecidablePred fails]
    (holds : Int → Prop) (text : UInt64 → Bytes)
    (fits : ∀ limit, sizeLimit math entries keyword = some limit → 0 ≤ limit)
    (same : ∀ size, sizeLimit math entries keyword = some (size.toNat : Int) →
      (¬ fails size ↔ holds size.toNat)) :
    ((sizeBound math entries keyword).bind fun size =>
        if fails size then some (text size) else none) = none ↔
      ∀ limit, sizeLimit math entries keyword = some limit → holds limit := by
  have limits := sizeBound_eq fits
  cases bound : sizeBound math entries keyword with
  | none =>
    rw [bound, Option.map_none] at limits
    simp [← limits]
  | some size =>
    rw [bound, Option.map_some] at limits
    have meets := same size limits.symm
    simp only [Option.bind_some, ite_eq_right_iff, reduceCtorEq, imp_false, ← limits,
      Option.some.injEq, forall_eq']
    exact meets

omit [CDouble δ] in
theorem int32_ofNat_lt {size limit : Nat} (sizeSmall : size < 2 ^ 31)
    (limitSmall : limit < 2 ^ 31) :
    Int32.ofNat size < Int32.ofNat limit ↔ size < limit := by
  rw [Int32.lt_iff_toInt_lt, Int32.toInt_ofNat_of_lt sizeSmall, Int32.toInt_ofNat_of_lt limitSmall]
  omega

omit [CDouble δ] in
theorem tooFewItems_eq_none (sizes : SizesFit math entries) {items : List (JsonValue δ)}
    (small : items.length < 2 ^ 31) :
    tooFewItems math entries items = none ↔
      ∀ min, sizeLimit math entries (ascii "minItems") = some min → min ≤ items.length := by
  have fits := sizes.items (ascii "minItems") (by simp)
  refine sizeCheck_eq_none (fun min => Int32.ofNat items.length < Int32.ofNat min.toNat) _ _
    (fun limit held => (fits limit held).1) fun min held => ?_
  have limitSmall := (fits _ held).2
  rw [int32_ofNat_lt small (by omega)]
  omega

omit [CDouble δ] in
theorem tooManyItems_eq_none (sizes : SizesFit math entries) {items : List (JsonValue δ)}
    (small : items.length < 2 ^ 31) :
    tooManyItems math entries items = none ↔
      ∀ max, sizeLimit math entries (ascii "maxItems") = some max → items.length ≤ max := by
  have fits := sizes.items (ascii "maxItems") (by simp)
  refine sizeCheck_eq_none (fun max => Int32.ofNat items.length > Int32.ofNat max.toNat) _ _
    (fun limit held => (fits limit held).1) fun max held => ?_
  have limitSmall := (fits _ held).2
  rw [gt_iff_lt, int32_ofNat_lt (by omega) small]
  omega

omit [CDouble δ] in
theorem tooShort_eq_none (sizes : SizesFit math entries) (string : Bytes) :
    tooShort math entries string = none ↔
      ∀ min, sizeLimit math entries (ascii "minLength") = some min → min ≤ string.length := by
  refine sizeCheck_eq_none (fun min => string.length < min.toNat) _ _
    (sizes.lengths (ascii "minLength") (by simp)) fun min _ => ?_
  omega

omit [CDouble δ] in
theorem tooLong_eq_none (sizes : SizesFit math entries) (string : Bytes) :
    tooLong math entries string = none ↔
      ∀ max, sizeLimit math entries (ascii "maxLength") = some max → string.length ≤ max := by
  refine sizeCheck_eq_none (fun max => string.length > max.toNat) _ _
    (sizes.lengths (ascii "maxLength") (by simp)) fun max _ => ?_
  omega

omit [CDouble δ] in
theorem notEnumerated_eq_none (string : Bytes) :
    notEnumerated entries string = none ↔ ∀ values,
      getEntry (ascii "enum") entries = some (.array values) →
        ∃ item ∈ values, SameValue (.string string) item := by
  have isMember : ∀ item : JsonValue δ,
      isString string item = true ↔ SameValue (.string string) item := by
    intro item
    cases item <;> simp [isString, SameValue]
  rw [notEnumerated]
  split
  · rename_i values held
    simp only [ite_eq_left_iff, reduceCtorEq, imp_false, not_not, List.any_eq_true, isMember, held,
      Option.some.injEq, JsonValue.array.injEq, forall_eq']
  · rename_i absent
    exact iff_of_true rfl fun values same => absurd same (absent values)

theorem less_validatorReading {value other : JsonValue δ} :
    validatorReading.less value other ↔ ∃ num otherNum, comparedNumber value = some num ∧
      comparedNumber other = some otherNum ∧ CDouble.lt num otherNum = true :=
  Iff.rfl

theorem belowMinimum_eq_none {value : JsonValue δ} {num : δ}
    (isNum : comparedNumber value = some num) :
    belowMinimum entries num = none ↔ ∀ bound,
      getEntry (ascii "minimum") entries = some bound → ¬ validatorReading.less value bound := by
  rw [belowMinimum]
  cases getEntry (ascii "minimum") entries with
  | none => simp
  | some bound =>
    simp only [Option.bind_some, Option.some.injEq, forall_eq', less_validatorReading, isNum]
    cases comparedNumber bound <;> simp

theorem aboveMaximum_eq_none {value : JsonValue δ} {num : δ}
    (isNum : comparedNumber value = some num) :
    aboveMaximum entries num = none ↔ ∀ bound,
      getEntry (ascii "maximum") entries = some bound → ¬ validatorReading.less bound value := by
  rw [aboveMaximum]
  cases getEntry (ascii "maximum") entries with
  | none => simp
  | some bound =>
    simp only [Option.bind_some, Option.some.injEq, forall_eq', less_validatorReading, isNum]
    cases comparedNumber bound <;> simp

theorem notMultiple_eq_none (num : δ) :
    notMultiple math entries num = none ↔ ∀ divisor,
      (getEntry (ascii "multipleOf") entries).bind comparedNumber = some divisor →
        CDouble.eq divisor (CDouble.ofInt64 0) = false →
          CDouble.eq (math.fmod num divisor) (CDouble.ofInt64 0) = true := by
  rw [notMultiple]
  cases (getEntry (ascii "multipleOf") entries).bind comparedNumber with
  | none => simp
  | some divisor => simp

end Messages

/-! ## The walk -/

section Walk

variable [CDouble δ] {math : DoubleMath δ} {entries : List (Bytes × JsonValue δ)}
  {value : JsonValue δ}

omit [CDouble δ] in
theorem validateItems_isValid {validate : JsonValue δ → Bytes → ValidationResult}
    {accepted : JsonValue δ → Prop} (path : Bytes) (index : Nat) {items : List (JsonValue δ)}
    (each : ∀ item ∈ items, ∀ itemPath, (validate item itemPath).isValid = true ↔ accepted item) :
    (validateItems validate path index items).isValid = true ↔ ∀ item ∈ items, accepted item := by
  induction items generalizing index with
  | nil => simp [validateItems, validDocument]
  | cons item items ih =>
    have rest := ih (index + 1) fun item member =>
      each item (List.mem_cons_of_mem _ member)
    rw [validateItems, andThen_isValid, List.forall_mem_cons, each item List.mem_cons_self, rest]

theorem validateArrayItems_eq (items : List (JsonValue δ)) (path : Bytes) :
    validateArrayItems math entries items path =
      match getEntry (ascii "items") entries with
      | some itemSchema => validateItems (validateValue math itemSchema) path 0 items
      | none => validDocument := by
  induction entries with
  | nil => rfl
  | cons entry entries ih =>
    obtain ⟨key, value⟩ := entry
    rw [validateArrayItems, getEntry]
    by_cases isItems : key = ascii "items"
    · simp [isItems]
    · simp [isItems, ih]

theorem validateProperties_eq (fields : List (Bytes × JsonValue δ)) (path : Bytes) :
    validateProperties math entries fields path =
      match getEntry (ascii "properties") entries with
      | some properties => propertiesValue math properties fields path
      | none => validDocument := by
  induction entries with
  | nil => rfl
  | cons entry entries ih =>
    obtain ⟨key, value⟩ := entry
    rw [validateProperties, getEntry]
    by_cases isProperties : key = ascii "properties"
    · simp [isProperties]
    · simp [isProperties, ih]

theorem propertyLoop_isValid {fields : List (Bytes × JsonValue δ)} (path : Bytes)
    {accepted : JsonValue δ → JsonValue δ → Prop} {properties : List (Bytes × JsonValue δ)}
    (each : ∀ property ∈ properties, ∀ propValue, getEntry property.1 fields = some propValue →
      ∀ propPath, (validateValue math property.2 propValue propPath).isValid = true ↔
        accepted property.2 propValue) :
    (propertyLoop math properties fields path).isValid = true ↔
      ∀ propName propSchema propValue, (propName, propSchema) ∈ properties →
        getEntry propName fields = some propValue → accepted propSchema propValue := by
  induction properties with
  | nil => simp [propertyLoop, validDocument]
  | cons property properties ih =>
    obtain ⟨propName, propSchema⟩ := property
    have rest := ih fun property member =>
      each property (List.mem_cons_of_mem _ member)
    have first := each (propName, propSchema) List.mem_cons_self
    rw [propertyLoop]
    cases found : getEntry propName fields with
    | none =>
      simp only [rest, List.mem_cons, Prod.mk.injEq]
      constructor
      · rintro all name schema value (⟨rfl, rfl⟩ | member) held
        · cases held.symm.trans found
        · exact all name schema value member held
      · exact fun all name schema value member => all name schema value (.inr member)
    | some propValue =>
      simp only [andThen_isValid, rest, first propValue found, List.mem_cons, Prod.mk.injEq]
      constructor
      · rintro ⟨valid, all⟩ name schema value (⟨rfl, rfl⟩ | member) held
        · obtain rfl := Option.some.inj (held.symm.trans found)
          exact valid
        · exact all name schema value member held
      · intro all
        exact ⟨all propName propSchema propValue (.inl ⟨rfl, rfl⟩) found,
          fun name schema value member => all name schema value (.inr member)⟩

theorem SchemaType.name_injective : Function.Injective SchemaType.name := by
  intro type other same
  cases type <;> cases other <;> first | rfl | exact absurd same (by decide)

omit [CDouble δ] in
theorem schemaType_eq_some {type : SchemaType} (named : schemaType entries = some type) :
    getEntry (ascii "type") entries = some (.string type.name) := by
  rw [schemaType] at named
  split at named
  · rename_i expectedType held
    have same := List.find?_some named
    rw [held, of_decide_eq_true same]
  · cases named

omit [CDouble δ] in
theorem schemaType_eq_none (unnamed : schemaType entries = none) {name : Bytes}
    (held : getEntry (ascii "type") entries = some (.string name)) (type : SchemaType) :
    type.name ≠ name := by
  rw [schemaType, held] at unnamed
  rintro rfl
  have passed := List.find?_eq_none.mp unnamed type (by cases type <;> decide)
  exact passed (decide_eq_true rfl)

theorem typed_validatorReading (type : SchemaType) (value : JsonValue δ) :
    validatorReading.typed (.string type.name) value ↔ type.accepts value = true := by
  constructor
  · intro typed
    exact typed type rfl
  · intro accepts other same
    rw [SchemaType.name_injective same]
    exact accepts

theorem keywordsHold_object (named : schemaType entries = some .object)
    (fields : List (Bytes × JsonValue δ)) :
    KeywordsHold validatorReading math entries (.object fields) ↔
      missingProperty entries fields = none ∧ additionalProperty entries fields = none := by
  have typed := typed_validatorReading .object (.object fields)
  rw [missingProperty_eq_none, additionalProperty_eq_none, keywordsHold_iff]
  simp only [schemaType_eq_some named, Option.some.injEq, forall_eq', typed]
  simp [validatorReading, named, SchemaType.accepts]

theorem keywordsHold_array (named : schemaType entries = some .array)
    (sizes : SizesFit math entries) {items : List (JsonValue δ)} (small : items.length < 2 ^ 31) :
    KeywordsHold validatorReading math entries (.array items) ↔
      tooFewItems math entries items = none ∧ tooManyItems math entries items = none := by
  have typed := typed_validatorReading .array (.array items)
  rw [tooFewItems_eq_none sizes small, tooManyItems_eq_none sizes small, keywordsHold_iff]
  simp only [schemaType_eq_some named, Option.some.injEq, forall_eq', typed]
  simp [validatorReading, named, SchemaType.accepts]

theorem keywordsHold_string (named : schemaType entries = some .string)
    (sizes : SizesFit math entries) (string : Bytes) :
    KeywordsHold validatorReading math entries (.string string) ↔
      tooShort math entries string = none ∧ tooLong math entries string = none ∧
        notEnumerated entries string = none := by
  have typed := typed_validatorReading .string (.string string : JsonValue δ)
  rw [tooShort_eq_none sizes, tooLong_eq_none sizes, notEnumerated_eq_none, keywordsHold_iff]
  simp only [schemaType_eq_some named, Option.some.injEq, forall_eq', typed]
  simp [validatorReading, named, SchemaType.accepts]

theorem keywordsHold_number {type : SchemaType} (named : schemaType entries = some type)
    (isNumber : type = .number ∨ type = .integer) {num : δ} (accepted : type.accepts value = true)
    (isNum : comparedNumber value = some num) :
    KeywordsHold validatorReading math entries value ↔
      belowMinimum entries num = none ∧ aboveMaximum entries num = none ∧
        notMultiple math entries num = none := by
  have typed := typed_validatorReading type value
  rw [belowMinimum_eq_none isNum, aboveMaximum_eq_none isNum, notMultiple_eq_none,
    keywordsHold_iff]
  simp only [schemaType_eq_some named, Option.some.injEq, forall_eq', typed, accepted]
  rcases isNumber with rfl | rfl <;> simp [validatorReading, named, isNum]

theorem keywordsHold_plain
    (named : ∀ type, schemaType entries = some type →
      (type = .boolean ∨ type = .null) ∧ type.accepts value = true) :
    KeywordsHold validatorReading math entries value := by
  have unapplied : ∀ type, type ≠ .boolean → type ≠ .null →
      ¬ validatorReading.applies entries type := by
    rintro type notBoolean notNull (same | ⟨-, same⟩)
    · rcases (named type same).1 with rfl | rfl
      · exact notBoolean rfl
      · exact notNull rfl
    · have := (named .integer same).1
      simp at this
  have noObject := unapplied .object (by decide) (by decide)
  have noArray := unapplied .array (by decide) (by decide)
  have noString := unapplied .string (by decide) (by decide)
  have noNumber := unapplied .number (by decide) (by decide)
  refine
    { type := fun constraint held => ?_
      required := fun applies => absurd applies noObject
      additionalProperties := fun applies => absurd applies noObject
      minItems := fun applies => absurd applies noArray
      maxItems := fun applies => absurd applies noArray
      minLength := fun applies => absurd applies noString
      maxLength := fun applies => absurd applies noString
      enum := fun applies => absurd (.inl applies) noString
      minimum := fun applies => absurd applies noNumber
      maximum := fun applies => absurd applies noNumber
      multipleOf := fun applies => absurd applies noNumber }
  cases constraint with
  | string name =>
    intro type same
    subst same
    cases known : schemaType entries with
    | none => exact absurd rfl (schemaType_eq_none known held type)
    | some other =>
      have name := Option.some.inj (held.symm.trans (schemaType_eq_some known))
      rw [SchemaType.name_injective (JsonValue.string.inj name)]
      exact (named other known).2
  | _ => trivial

theorem satisfies_iff_keywords
    (noProperties : validatorReading.applies entries .object → ∀ fields, value ≠ .object fields)
    (noItems : validatorReading.applies entries .array → ∀ items, value ≠ .array items) :
    Satisfies validatorReading math (.object entries) value ↔
      KeywordsHold validatorReading math entries value := by
  constructor
  · rintro ⟨keywords, -, -⟩
    exact keywords
  · intro keywords
    exact .schema keywords
      (fun applies fields _ same => absurd same (noProperties applies fields))
      (fun applies items _ same => absurd same (noItems applies items))

theorem satisfies_object (named : schemaType entries = some .object)
    (fields : List (Bytes × JsonValue δ)) :
    Satisfies validatorReading math (.object entries) (.object fields) ↔
      (∀ props, getEntry (ascii "properties") entries = some (.object props) →
        ∀ propName propSchema propValue, (propName, propSchema) ∈ props →
          getEntry propName fields = some propValue →
            Satisfies validatorReading math propSchema propValue) ∧
      KeywordsHold validatorReading math entries (.object fields) := by
  constructor
  · rintro ⟨keywords, properties, -⟩
    exact ⟨fun props => properties (.inl named) fields props rfl, keywords⟩
  · rintro ⟨properties, keywords⟩
    refine .schema keywords (fun _ others props same => ?_) fun _ values _ same => ?_
    · cases same
      exact properties props
    · cases same

theorem satisfies_array (named : schemaType entries = some .array) (items : List (JsonValue δ)) :
    Satisfies validatorReading math (.object entries) (.array items) ↔
      (∀ itemSchema, getEntry (ascii "items") entries = some itemSchema →
        ∀ item ∈ items, Satisfies validatorReading math itemSchema item) ∧
      KeywordsHold validatorReading math entries (.array items) := by
  constructor
  · rintro ⟨keywords, -, each⟩
    exact ⟨fun itemSchema => each (.inl named) items itemSchema rfl, keywords⟩
  · rintro ⟨each, keywords⟩
    refine .schema keywords (fun _ fields _ same => ?_) fun _ values itemSchema same => ?_
    · cases same
    · cases same
      exact each itemSchema

omit [CDouble δ] in
theorem SmallArrays.fields {fields : List (Bytes × JsonValue δ)}
    (small : SmallArrays (.object fields)) {name : Bytes}
    (held : getEntry name fields = some value) : SmallArrays value := by
  cases small with
  | object each => exact each _ (mem_of_getEntry_eq_some held)
  | scalar _ notObject => exact absurd rfl (notObject fields)

omit [CDouble δ] in
theorem SmallArrays.items {items : List (JsonValue δ)} (small : SmallArrays (.array items)) :
    items.length < 2 ^ 31 ∧ ∀ item ∈ items, SmallArrays item := by
  cases small with
  | array small each => exact ⟨small, each⟩
  | scalar notArray _ => exact absurd rfl (notArray items)

theorem validateString_isValid (named : schemaType entries = some .string)
    (sizes : SizesFit math entries) (string path : Bytes) :
    (validateString math entries string path).isValid = true ↔
      Satisfies validatorReading math (.object entries) (.string string) := by
  rw [satisfies_iff_keywords (fun _ fields => by simp) fun _ items => by simp,
    keywordsHold_string named sizes, validateString, andThen_isValid, andThen_isValid,
    checkKeyword_isValid, checkKeyword_isValid, checkKeyword_isValid]

theorem validateNumber_isValid {type : SchemaType} (named : schemaType entries = some type)
    (isNumber : type = .number ∨ type = .integer) {num : δ} (accepted : type.accepts value = true)
    (isNum : comparedNumber value = some num) (path : Bytes) :
    (validateNumber math entries num path).isValid = true ↔
      Satisfies validatorReading math (.object entries) value := by
  have noObject : ∀ fields, value ≠ .object fields := by
    rintro fields rfl
    cases isNum
  have noArray : ∀ items, value ≠ .array items := by
    rintro items rfl
    cases isNum
  rw [validateNumber, satisfies_iff_keywords (fun _ => noObject) fun _ => noArray,
    keywordsHold_number named isNumber accepted isNum, andThen_isValid, andThen_isValid,
    checkKeyword_isValid, checkKeyword_isValid, checkKeyword_isValid]

theorem satisfies_plain
    (named : ∀ type, schemaType entries = some type →
      (type = .boolean ∨ type = .null) ∧ type.accepts value = true) :
    Satisfies validatorReading math (.object entries) value := by
  have unapplied : ∀ type, type = .object ∨ type = .array →
      ¬ validatorReading.applies entries type := by
    rintro type kind (same | ⟨rfl, -⟩)
    · rcases kind with rfl | rfl <;> simpa using (named _ same).1
    · simp at kind
  exact .schema (keywordsHold_plain named)
    (fun applies => absurd applies (unapplied .object (.inl rfl)))
    (fun applies => absurd applies (unapplied .array (.inr rfl)))

/-- The validator accepts just what satisfies the schema, read its way. -/
theorem validateValue_isValid {schema : JsonValue δ} (bounded : BoundedSchema math schema)
    (small : SmallArrays value) (path : Bytes) :
    (validateValue math schema value path).isValid = true ↔
      Satisfies validatorReading math schema value := by
  induction bounded generalizing value path with
  | @other schema notObject =>
    refine iff_of_false ?_ ?_
    · cases schema with
      | object entries => exact absurd rfl (notObject entries)
      | _ => simp [validateValue, failsAt]
    · rintro ⟨⟩
      exact notObject _ rfl
  | @object entries sizes properties items propertiesHypothesis itemsHypothesis =>
    simp only [validateValue]
    cases named : schemaType entries with
    | none =>
      exact iff_of_true rfl (satisfies_plain fun type same => by cases named.symm.trans same)
    | some type =>
      by_cases accepted : type.accepts value = true
      · simp only [accepted, if_true]
        cases value with
        | object fields =>
          obtain rfl : type = .object := by
            cases type <;> first | rfl | cases accepted
          rw [satisfies_object named, keywordsHold_object named, andThen_isValid, checkObject,
            andThen_isValid, checkKeyword_isValid, checkKeyword_isValid]
          refine and_congr ?_ Iff.rfl
          rw [validateProperties_eq]
          cases held : getEntry (ascii "properties") entries with
          | none => simp [validDocument]
          | some value =>
            cases value with
            | object props =>
              simp only [propertiesValue, Option.some.injEq, JsonValue.object.injEq,
                forall_eq']
              refine propertyLoop_isValid path fun property member propValue found => ?_
              exact propertiesHypothesis props held property member (small.fields found)
            | _ => simp [propertiesValue, validDocument]
        | array values =>
          obtain rfl : type = .array := by
            cases type <;> first | rfl | cases accepted
          rw [satisfies_array named, keywordsHold_array named sizes small.items.1,
            andThen_isValid, checkArray, andThen_isValid, checkKeyword_isValid,
            checkKeyword_isValid]
          refine and_congr ?_ Iff.rfl
          rw [validateArrayItems_eq]
          cases held : getEntry (ascii "items") entries with
          | none => simp [validDocument]
          | some itemSchema =>
            simp only [Option.some.injEq, forall_eq']
            refine validateItems_isValid path 0 fun item member => ?_
            exact itemsHypothesis itemSchema held (small.items.2 item member)
        | string string =>
          obtain rfl : type = .string := by
            cases type <;> first | rfl | cases accepted
          exact validateString_isValid named sizes string path
        | integer integer =>
          have isNumber : type = .number ∨ type = .integer := by
            cases type <;> first | exact .inl rfl | exact .inr rfl | cases accepted
          exact validateNumber_isValid named isNumber accepted rfl path
        | number number =>
          have isNumber : type = .number ∨ type = .integer := by
            cases type <;> first | exact .inl rfl | exact .inr rfl | cases accepted
          exact validateNumber_isValid named isNumber accepted rfl path
        | boolean boolean | null =>
          refine iff_of_true rfl (satisfies_plain fun other same => ?_)
          obtain rfl := Option.some.inj (named.symm.trans same)
          refine ⟨?_, accepted⟩
          cases type <;> first | exact .inl rfl | exact .inr rfl | cases accepted
      · simp only [accepted]
        refine iff_of_false (by simp [failsAt]) ?_
        rintro ⟨keywords, -, -⟩
        exact accepted ((typed_validatorReading _ _).mp
          (keywords.type _ (schemaType_eq_some named)))

/-- `json_schema_validate` accepts just what satisfies the schema, where each keyword counts
behind the type that it is about. -/
theorem jsonSchemaValidate_iff_satisfies {schema value : JsonValue δ}
    (bounded : BoundedSchema math schema) (small : SmallArrays value) :
    (jsonSchemaValidate math schema value).1 = true ↔
      Satisfies validatorReading math schema value := by
  rw [← validateValue_isValid bounded small (ascii "$"), jsonSchemaValidate]
  split
  · rename_i valid
    exact iff_of_true rfl valid
  · rename_i invalid
    exact iff_of_false (by simp) invalid

end Walk

def ratMath : DoubleMath Rat :=
  { toSize := fun number => UInt64.ofNat number.floor.toNat
    fmod := fun num divisor => num - divisor * (num / divisor).floor }

def namesSchema : JsonValue Rat :=
  .object [(ascii "type", .string (ascii "array")),
    (ascii "items",
      .object [(ascii "type", .string (ascii "string")), (ascii "maxLength", .integer 2)])]

theorem namesSchema_bounded : BoundedSchema ratMath namesSchema := by
  have sized : ∀ entries : List (Bytes × JsonValue Rat),
      (sizeLimit ratMath entries (ascii "minItems") = none ∧
        sizeLimit ratMath entries (ascii "maxItems") = none) ∧
      ((sizeLimit ratMath entries (ascii "minLength")).all (0 ≤ ·) ∧
        (sizeLimit ratMath entries (ascii "maxLength")).all (0 ≤ ·)) →
          SizesFit ratMath entries := by
    rintro entries ⟨⟨minItems, maxItems⟩, minLength, maxLength⟩
    refine ⟨fun keyword member limit held => ?_, fun keyword member limit held => ?_⟩
    · rcases List.mem_pair.mp member with rfl | rfl
      · cases minItems.symm.trans held
      · cases maxItems.symm.trans held
    · rcases List.mem_pair.mp member with rfl | rfl
      · simpa [held] using minLength
      · simpa [held] using maxLength
  refine .object (sized _ (by decide +kernel)) (fun props held => ?_) fun itemSchema held => ?_
  · cases held
  · cases held
    refine .object (sized _ (by decide +kernel)) (fun props held => ?_) fun itemSchema held => ?_
    · cases held
    · cases held

theorem jsonSchemaValidate_iff_satisfies_names :
    (jsonSchemaValidate ratMath namesSchema (.array [.string (ascii "ab")])).1 = true ↔
      Satisfies validatorReading ratMath namesSchema (.array [.string (ascii "ab")]) := by
  refine jsonSchemaValidate_iff_satisfies namesSchema_bounded (.array (by decide) ?_)
  intro item member
  rw [List.mem_singleton.mp member]
  exact .scalar (fun _ => by simp) fun _ => by simp

/-- A length without a type is not looked at. -/
theorem not_jsonSchemaValidate_iff_satisfies :
    ¬ ∀ (entries : List (Bytes × JsonValue Rat)) (value : JsonValue Rat),
      (jsonSchemaValidate ratMath (.object entries) value).1 = true ↔
        Satisfies jsonSchemaReading ratMath (.object entries) value := by
  intro claim
  have accepted : (jsonSchemaValidate ratMath (.object [(ascii "minLength", .integer 3)])
      (.string (ascii "a"))).1 = true := by
    decide +kernel
  obtain ⟨keywords, -, -⟩ := (claim _ _).mp accepted
  have enough := keywords.minLength trivial (ascii "a") rfl 3 (by decide +kernel)
  have short : utf8Length (ascii "a") = 1 := by decide +kernel
  change (3 : Int) ≤ utf8Length (ascii "a") at enough
  rw [short] at enough
  omega

end Jdbx
