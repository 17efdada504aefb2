import Jdbx.Database.SchemaRules

/-!
# Reading a schema back

A schema that is written as JSON and read back accepts the same documents, except for type rules
whose type is none of `json_type_t`: they are written as `any`, and `any` is read as an object.
-/

namespace Jdbx

open Library

variable {δ : Type}

/-! ## What is read back -/

/-- A value of `json_type_t`. -/
def NamesType (typeValue : Int32) : Prop :=
  typeValue ∈ ([0, 1, 2, 3, 4, 5, 6] : List Int32)

instance (typeValue : Int32) : Decidable (NamesType typeValue) :=
  inferInstanceAs (Decidable (_ ∈ _))

def rereadEnum : JsonValue δ → Option (JsonValue δ)
  | .array items => some (jsonClone (jsonClone (.array items)))
  | _ => none

mutual

def rereadSchema : Schema δ → Schema δ
  | .mk name description rules => .mk name description (rereadRules rules)
termination_by structural schema => schema

def rereadRules : List (Bytes × RuleParams δ) → List (Bytes × RuleParams δ)
  | [] => []
  | (fieldPath, params) :: rules => (fieldPath, rereadParams params) :: rereadRules rules
termination_by structural rules => rules

def rereadParams : RuleParams δ → RuleParams δ
  | .typeCheck typeValue => .typeCheck (readTypeValue (typeValueName typeValue))
  | .required required => .required (if required ≠ 0 then 1 else 0)
  | .minLength minLength => .minLength minLength
  | .maxLength maxLength => .maxLength maxLength
  | .minValue minValue => .minValue minValue
  | .maxValue maxValue => .maxValue maxValue
  | .pattern pattern => .pattern pattern
  | .enum enumValues => .enum (enumValues.bind rereadEnum)
  | .nested (some schema) => .nested (some (rereadSchema schema))
  | .nested none => .nested none
termination_by structural params => params

end

mutual

def objectSchema : Schema δ → Schema δ
  | .mk name description rules => .mk name description (objectRules rules)
termination_by structural schema => schema

def objectRules : List (Bytes × RuleParams δ) → List (Bytes × RuleParams δ)
  | [] => []
  | (fieldPath, params) :: rules => (fieldPath, objectParams params) :: objectRules rules
termination_by structural rules => rules

def objectParams : RuleParams δ → RuleParams δ
  | .typeCheck typeValue =>
      .typeCheck (if NamesType typeValue then typeValue else JsonType.object.code)
  | .nested (some schema) => .nested (some (objectSchema schema))
  | params => params
termination_by structural params => params

end

mutual

/-- Every pattern compiles, and no object of an enumeration has a key twice, in the nested
schemas too. -/
def Addable (regex : Regex) : Schema δ → Prop
  | .mk _ _ rules => AddableRules regex rules
termination_by structural schema => schema

def AddableRules (regex : Regex) : List (Bytes × RuleParams δ) → Prop
  | [] => True
  | (_, params) :: rules => AddableParams regex params ∧ AddableRules regex rules
termination_by structural rules => rules

def AddableParams (regex : Regex) : RuleParams δ → Prop
  | .pattern (some pattern) => regex.compiles pattern = true
  | .enum (some values) => DistinctKeys values
  | .nested (some schema) => Addable regex schema
  | _ => True
termination_by structural params => params

end

mutual

/-- The document has a value at the field of a type rule whose type has no name, or so has the
value of a nested schema. -/
def SeesUnknownType : Schema δ → JsonValue δ → Prop
  | .mk _ _ rules, document => RulesSeeUnknownType rules document
termination_by structural schema => schema

def RulesSeeUnknownType : List (Bytes × RuleParams δ) → JsonValue δ → Prop
  | [], _ => False
  | (fieldPath, params) :: rules, document =>
      ParamsSeeUnknownType params (getJsonValueAtPath document fieldPath) ∨
        RulesSeeUnknownType rules document
termination_by structural rules => rules

def ParamsSeeUnknownType : RuleParams δ → Option (JsonValue δ) → Prop
  | .typeCheck typeValue, some _ => ¬ NamesType typeValue
  | .nested (some schema), some value => SeesUnknownType schema value
  | _, _ => False
termination_by structural params => params

end

mutual

def KnownTypes : Schema δ → Prop
  | .mk _ _ rules => RulesKnowTypes rules
termination_by structural schema => schema

def RulesKnowTypes : List (Bytes × RuleParams δ) → Prop
  | [] => True
  | (_, params) :: rules => ParamsKnowTypes params ∧ RulesKnowTypes rules
termination_by structural rules => rules

def ParamsKnowTypes : RuleParams δ → Prop
  | .typeCheck typeValue => NamesType typeValue
  | .nested (some schema) => KnownTypes schema
  | _ => True
termination_by structural params => params

end

def AcceptsDocument [CDouble δ] (regex : Regex) (schema : Schema δ) (document : JsonValue δ) :
    Prop :=
  (dbValidateDocument regex schema document).isValid = true

instance [CDouble δ] (regex : Regex) (schema : Schema δ) (document : JsonValue δ) :
    Decidable (AcceptsDocument regex schema document) :=
  inferInstanceAs (Decidable (_ = true))

def ReadsBackSchema [CDouble δ] (regex : Regex) (schema : Schema δ) : Prop :=
  ∃ back, dbSchemaFromJson regex (dbSchemaToJson schema) = some back ∧
    ∀ document, AcceptsDocument regex back document ↔ AcceptsDocument regex schema document

section Built

variable {regex : Regex} {rule : Bytes × RuleParams δ} {rules : List (Bytes × RuleParams δ)}

theorem addableRules_append :
    AddableRules regex (rules ++ [rule]) ↔ AddableRules regex rules ∧
      AddableParams regex rule.2 := by
  induction rules with
  | nil => simp [AddableRules]
  | cons first rules ih =>
      obtain ⟨fieldPath, params⟩ := first
      rw [List.cons_append, AddableRules, AddableRules, ih, and_assoc]

theorem dbAddSchemaRule_eq_some {name : Bytes} {description : Option Bytes} {next : Schema δ}
    (added : dbAddSchemaRule regex (.mk name description rules) rule = some next) :
    next = .mk name description (rules ++ [rule]) ∧
      ∀ pattern, rule.2 = .pattern (some pattern) → regex.compiles pattern = true := by
  rw [dbAddSchemaRule] at added
  split at added
  · rename_i pattern isPattern
    split_ifs at added with compiles
    refine ⟨(Option.some.inj added).symm, fun other same => ?_⟩
    rw [isPattern] at same
    cases same
    exact compiles
  · rename_i notPattern
    exact ⟨(Option.some.inj added).symm, fun other same => absurd same (notPattern other)⟩

theorem dbAddSchemaRule_of_compiles
    (compiles : ∀ pattern, rule.2 = .pattern (some pattern) → regex.compiles pattern = true)
    (name : Bytes) (description : Option Bytes) (rules : List (Bytes × RuleParams δ)) :
    dbAddSchemaRule regex (.mk name description rules) rule =
      some (.mk name description (rules ++ [rule])) := by
  rw [dbAddSchemaRule]
  split
  · rename_i pattern isPattern
    exact if_pos (compiles pattern isPattern)
  · rfl

theorem BuiltSchema.addable {schema : Schema δ} (built : BuiltSchema regex schema) :
    Addable regex schema := by
  induction built with
  | create name description => trivial
  | @add schema next rule _ distinct nested added addable nestedAddable =>
      obtain ⟨name, description, rules⟩ := schema
      obtain ⟨rfl, compiles⟩ := dbAddSchemaRule_eq_some added
      refine addableRules_append.mpr ⟨addable, ?_⟩
      obtain ⟨fieldPath, params⟩ := rule
      cases params with
      | pattern pattern =>
          cases pattern with
          | none => trivial
          | some pattern => exact compiles pattern rfl
      | enum enumValues =>
          cases enumValues with
          | none => trivial
          | some values => exact distinct values rfl
      | nested held =>
          cases held with
          | none => trivial
          | some inner => exact nestedAddable inner rfl
      | _ => trivial

end Built

section Reading

variable {regex : Regex}

theorem readTypeValue_typeValueName (typeValue : Int32) :
    readTypeValue (typeValueName typeValue) =
      if NamesType typeValue then typeValue else JsonType.object.code := by
  by_cases names : NamesType typeValue
  · rw [if_pos names]
    simp only [NamesType, List.mem_cons, List.not_mem_nil, or_false] at names
    rcases names with rfl | rfl | rfl | rfl | rfl | rfl | rfl <;> decide
  · rw [if_neg names]
    simp only [NamesType, List.mem_cons, List.not_mem_nil, or_false, not_or] at names
    obtain ⟨null, boolean, number, integer, string, array, object⟩ := names
    rw [typeValueName, if_neg null, if_neg boolean, if_neg integer, if_neg number, if_neg string,
      if_neg array, if_neg object]
    decide

theorem rereadParams_compiles {params : RuleParams δ} (addable : AddableParams regex params)
    (pattern : Bytes) (same : rereadParams params = .pattern (some pattern)) :
    regex.compiles pattern = true := by
  cases params with
  | pattern held =>
      cases same
      exact addable
  | nested nested => cases nested <;> cases same
  | _ => cases same

variable [CDouble δ]

theorem readItem_ruleObject (fieldPath typeName : Bytes) (value : Option (JsonValue δ)) :
    readItem regex (ruleObject fieldPath typeName value) =
      (readParams typeName value (value.bind (dbSchemaFromJson regex))).map (fieldPath, ·) := by
  cases value with
  | none => rfl
  | some value => rfl

theorem readParams_paramsToJson (params : RuleParams δ) {nested : Option (Schema δ)}
    (reads : ∀ inner, params = .nested inner → nested = inner.map rereadSchema) :
    readParams (ruleTypeName params) (paramsToJson params) nested =
      some (rereadParams params) := by
  cases params with
  | required required =>
      by_cases isRequired : required = 0
      · subst isRequired
        rfl
      · have written : (paramsToJson (.required required) : Option (JsonValue δ)) =
            some (.boolean true) := by
          rw [paramsToJson, decide_eq_true isRequired]
        rw [written, rereadParams, if_pos isRequired]
        rfl
  | minLength minLength =>
      exact congrArg (fun length => some (RuleParams.minLength length))
        (Int32.toInt32_toInt64 minLength)
  | maxLength maxLength =>
      exact congrArg (fun length => some (RuleParams.maxLength length))
        (Int32.toInt32_toInt64 maxLength)
  | pattern pattern => cases pattern <;> rfl
  | enum enumValues =>
      cases enumValues with
      | none => rfl
      | some values => cases values <;> rfl
  | nested inner =>
      rw [reads inner rfl]
      cases inner <;> rfl
  | typeCheck _ | minValue _ | maxValue _ => rfl

theorem readRules_rulesToJson_cons {fieldPath : Bytes} {params : RuleParams δ}
    (addable : AddableParams regex params)
    (reads : ∀ inner, params = .nested inner →
      (paramsToJson params).bind (dbSchemaFromJson regex) = inner.map rereadSchema)
    (rules before : List (Bytes × RuleParams δ)) (name : Bytes) (description : Option Bytes) :
    readRules regex (rulesToJson ((fieldPath, params) :: rules)) (.mk name description before) =
      readRules regex (rulesToJson rules)
        (.mk name description (before ++ [(fieldPath, rereadParams params)])) := by
  rw [rulesToJson, readRules, readItem_ruleObject, readParams_paramsToJson params reads,
    Option.map_some, Option.bind_some]
  have added : dbAddSchemaRule regex (.mk name description before)
      (fieldPath, rereadParams params) =
        some (.mk name description (before ++ [(fieldPath, rereadParams params)])) :=
    dbAddSchemaRule_of_compiles (rereadParams_compiles addable) name description before
  rw [added, Option.getD_some]

theorem dbSchemaFromJson_written (name : Bytes) (description : Option Bytes)
    (rules : List (Bytes × RuleParams δ)) :
    dbSchemaFromJson regex (dbSchemaToJson (.mk name description rules)) =
      some (readRules regex (rulesToJson rules) (.mk name description [])) := by
  cases description <;> rfl

mutual

theorem dbSchemaFromJson_dbSchemaToJson : ∀ schema : Schema δ, Addable regex schema →
    dbSchemaFromJson regex (dbSchemaToJson schema) = some (rereadSchema schema)
  | .mk name description rules, addable => by
      rw [dbSchemaFromJson_written, readRules_rulesToJson rules addable]
      rfl

theorem readRules_rulesToJson : ∀ rules : List (Bytes × RuleParams δ),
    AddableRules regex rules → ∀ (before : List (Bytes × RuleParams δ)) (name : Bytes)
      (description : Option Bytes),
      readRules regex (rulesToJson rules) (.mk name description before) =
        .mk name description (before ++ rereadRules rules)
  | [], _, before, name, description => by
      rw [rereadRules, List.append_nil]
      rfl
  | (fieldPath, params) :: rules, addable, before, name, description => by
      rw [readRules_rulesToJson_cons addable.1 (nested_paramsToJson params addable.1),
        readRules_rulesToJson rules addable.2, rereadRules, List.append_assoc]
      rfl

theorem nested_paramsToJson : ∀ params : RuleParams δ, AddableParams regex params →
    ∀ inner, params = .nested inner →
      (paramsToJson params).bind (dbSchemaFromJson regex) = inner.map rereadSchema
  | .nested (some schema), addable, _, rfl => dbSchemaFromJson_dbSchemaToJson schema addable
  | .nested none, _, _, rfl => rfl

end

end Reading

/-! ## What is accepted -/

section Accepting

variable {regex : Regex} [CDouble δ]

theorem ruleFailure_reread {params : RuleParams δ} (addable : AddableParams regex params)
    (value : Option (JsonValue δ)) :
    ruleFailure regex value (rereadParams params) =
      ruleFailure regex value (objectParams params) := by
  cases params with
  | typeCheck typeValue => rw [rereadParams, objectParams, readTypeValue_typeValueName]
  | required required =>
      have same : objectParams (.required required : RuleParams δ) = .required required := rfl
      rw [rereadParams, same]
      by_cases isRequired : required = 0
      · subst isRequired
        rfl
      · rw [if_pos isRequired]
        simp [ruleFailure, isRequired]
  | enum enumValues =>
      cases enumValues with
      | none => rfl
      | some values =>
          cases values with
          | array items =>
              obtain ⟨levels, copyable⟩ := addable
              have cloned : jsonClone (.array items : JsonValue δ) = .array items :=
                jsonClone_eq_self_of_copyable copyable
              have same : rereadEnum (.array items : JsonValue δ) = some (.array items) := by
                rw [rereadEnum, cloned, cloned]
              rw [rereadParams, Option.bind_some, same]
              rfl
          | _ => cases value <;> rfl
  | nested inner => cases inner <;> rfl
  | _ => rfl

theorem validateRule_eq (params : RuleParams δ) (fieldPath : Bytes) (value : Option (JsonValue δ))
    (notNested : ∀ schema, params ≠ .nested (some schema)) :
    validateRule regex params fieldPath value =
      (ruleFailure regex value params).elim validDocument (failsAt fieldPath) := by
  cases params with
  | nested inner =>
      cases inner with
      | none => rfl
      | some schema => exact absurd rfl (notNested schema)
  | _ =>
      simp only [validateRule]
      split
      · rename_i failed
        rw [failed]
        rfl
      · rename_i passed
        rw [passed]
        rfl

theorem validateRule_reread_plain {params : RuleParams δ} (addable : AddableParams regex params)
    (fieldPath : Bytes) (value : Option (JsonValue δ))
    (rereadPlain : ∀ schema, rereadParams params ≠ .nested (some schema))
    (objectPlain : ∀ schema, objectParams params ≠ .nested (some schema)) :
    validateRule regex (rereadParams params) fieldPath value =
      validateRule regex (objectParams params) fieldPath value := by
  rw [validateRule_eq _ _ _ rereadPlain, validateRule_eq _ _ _ objectPlain,
    ruleFailure_reread addable value]

mutual

theorem dbValidateDocument_reread : ∀ schema : Schema δ, Addable regex schema →
    ∀ document, dbValidateDocument regex (rereadSchema schema) document =
      dbValidateDocument regex (objectSchema schema) document
  | .mk _ _ rules, addable, document => validateRules_reread rules addable document

theorem validateRules_reread : ∀ rules : List (Bytes × RuleParams δ), AddableRules regex rules →
    ∀ document, validateRules regex (rereadRules rules) document =
      validateRules regex (objectRules rules) document
  | [], _, _ => rfl
  | (fieldPath, params) :: rules, addable, document => by
      rw [rereadRules, objectRules, validateRules, validateRules,
        validateRule_reread params addable.1, validateRules_reread rules addable.2]

theorem validateRule_reread : ∀ params : RuleParams δ, AddableParams regex params →
    ∀ fieldPath value, validateRule regex (rereadParams params) fieldPath value =
      validateRule regex (objectParams params) fieldPath value
  | .nested (some schema), addable, fieldPath, value => by
      cases value with
      | none => rfl
      | some value =>
          rw [rereadParams, objectParams, validateRule, validateRule,
            dbValidateDocument_reread schema addable]
  | .nested none, _, _, _ => rfl
  | .typeCheck _, addable, fieldPath, value =>
      validateRule_reread_plain addable fieldPath value (fun _ same => by cases same)
        (fun _ same => by cases same)
  | .required _, addable, fieldPath, value =>
      validateRule_reread_plain addable fieldPath value (fun _ same => by cases same)
        (fun _ same => by cases same)
  | .enum _, addable, fieldPath, value =>
      validateRule_reread_plain addable fieldPath value (fun _ same => by cases same)
        (fun _ same => by cases same)
  | .minLength _, _, _, _ => rfl
  | .maxLength _, _, _, _ => rfl
  | .minValue _, _, _, _ => rfl
  | .maxValue _, _, _, _ => rfl
  | .pattern _, _, _, _ => rfl

end

theorem validateRules_cons_isValid (fieldPath : Bytes) (params : RuleParams δ)
    (rules : List (Bytes × RuleParams δ)) (document : JsonValue δ) :
    (validateRules regex ((fieldPath, params) :: rules) document).isValid = true ↔
      (validateRule regex params fieldPath (getJsonValueAtPath document fieldPath)).isValid =
          true ∧
        (validateRules regex rules document).isValid = true := by
  simp only [validateRules]
  cases valid : (validateRule regex params fieldPath
      (getJsonValueAtPath document fieldPath)).isValid with
  | true => simp
  | false => simp [valid]

theorem validateRule_nested_isValid (schema : Schema δ) (fieldPath : Bytes) (value : JsonValue δ) :
    (validateRule regex (.nested (some schema)) fieldPath (some value)).isValid = true ↔
      (dbValidateDocument regex schema value).isValid = true := by
  simp only [validateRule]
  cases (dbValidateDocument regex schema value).isValid with
  | true => simp [validDocument]
  | false => simp [nestedFailure]

theorem JsonType.code_names (type : JsonType) : NamesType type.code := by
  cases type <;> decide

theorem validateRule_typeCheck_isValid (typeValue : Int32) (fieldPath : Bytes)
    (value : Option (JsonValue δ)) :
    (validateRule regex (.typeCheck typeValue) fieldPath value).isValid = true ↔
      (validateRule regex (objectParams (.typeCheck typeValue)) fieldPath value).isValid = true ∧
        ¬ ParamsSeeUnknownType (.typeCheck typeValue) value := by
  rw [objectParams]
  by_cases names : NamesType typeValue
  · rw [if_pos names]
    cases value with
    | none => exact (and_iff_left id).symm
    | some value => exact (and_iff_left (not_not.mpr names)).symm
  · cases value with
    | none => exact iff_of_true rfl ⟨rfl, id⟩
    | some value =>
        have different : value.type.code ≠ typeValue :=
          fun same => names (same ▸ value.type.code_names)
        refine iff_of_false ?_ fun both => both.2 names
        simp [validateRule, ruleFailure, different, failsAt]

mutual

theorem dbValidateDocument_isValid : ∀ (schema : Schema δ) (document : JsonValue δ),
    (dbValidateDocument regex schema document).isValid = true ↔
      (dbValidateDocument regex (objectSchema schema) document).isValid = true ∧
        ¬ SeesUnknownType schema document
  | .mk _ _ rules, document => validateRules_isValid rules document

theorem validateRules_isValid : ∀ (rules : List (Bytes × RuleParams δ)) (document : JsonValue δ),
    (validateRules regex rules document).isValid = true ↔
      (validateRules regex (objectRules rules) document).isValid = true ∧
        ¬ RulesSeeUnknownType rules document
  | [], _ => iff_of_true rfl ⟨rfl, id⟩
  | (fieldPath, params) :: rules, document => by
      rw [objectRules, validateRules_cons_isValid, validateRules_cons_isValid,
        validateRule_isValid params fieldPath, validateRules_isValid rules document,
        RulesSeeUnknownType, not_or]
      exact and_and_and_comm

theorem validateRule_isValid : ∀ (params : RuleParams δ) (fieldPath : Bytes)
    (value : Option (JsonValue δ)),
    (validateRule regex params fieldPath value).isValid = true ↔
      (validateRule regex (objectParams params) fieldPath value).isValid = true ∧
        ¬ ParamsSeeUnknownType params value
  | .nested (some schema), fieldPath, some value => by
      rw [objectParams, validateRule_nested_isValid, validateRule_nested_isValid,
        ParamsSeeUnknownType]
      exact dbValidateDocument_isValid schema value
  | .nested (some _), _, none => iff_of_true rfl ⟨rfl, id⟩
  | .nested none, _, _ => iff_of_true rfl ⟨rfl, id⟩
  | .typeCheck typeValue, fieldPath, value =>
      validateRule_typeCheck_isValid typeValue fieldPath value
  | .required _, _, _ => (and_iff_left id).symm
  | .minLength _, _, _ => (and_iff_left id).symm
  | .maxLength _, _, _ => (and_iff_left id).symm
  | .minValue _, _, _ => (and_iff_left id).symm
  | .maxValue _, _, _ => (and_iff_left id).symm
  | .pattern _, _, _ => (and_iff_left id).symm
  | .enum _, _, _ => (and_iff_left id).symm

end

/-- A schema is read back as itself just where no document that passes with objects in place of
the unknown types shows a value to one of them. -/
theorem readsBackSchema_iff {schema : Schema δ} (built : BuiltSchema regex schema) :
    ReadsBackSchema regex schema ↔
      ∀ document, AcceptsDocument regex (objectSchema schema) document →
        ¬ SeesUnknownType schema document := by
  have read := dbSchemaFromJson_dbSchemaToJson schema built.addable
  have same : ∀ document, AcceptsDocument regex (rereadSchema schema) document ↔
      AcceptsDocument regex (objectSchema schema) document := by
    intro document
    rw [AcceptsDocument, AcceptsDocument, dbValidateDocument_reread schema built.addable]
  constructor
  · rintro ⟨back, returned, agrees⟩ document passes
    obtain rfl := Option.some.inj (read.symm.trans returned)
    have accepted := (agrees document).mp ((same document).mpr passes)
    exact ((dbValidateDocument_isValid schema document).mp accepted).2
  · intro unseen
    refine ⟨rereadSchema schema, read, fun document => ?_⟩
    rw [same, AcceptsDocument, AcceptsDocument, dbValidateDocument_isValid schema document]
    exact ⟨fun passes => ⟨passes, unseen document passes⟩, fun both => both.1⟩

end Accepting

mutual

theorem not_seesUnknownType : ∀ (schema : Schema δ) (document : JsonValue δ),
    KnownTypes schema → ¬ SeesUnknownType schema document
  | .mk _ _ rules, document, known => not_rulesSeeUnknownType rules document known

theorem not_rulesSeeUnknownType : ∀ (rules : List (Bytes × RuleParams δ))
    (document : JsonValue δ), RulesKnowTypes rules → ¬ RulesSeeUnknownType rules document
  | [], _, _ => id
  | (_, params) :: rules, document, known =>
      not_or.mpr ⟨not_paramsSeeUnknownType params _ known.1,
        not_rulesSeeUnknownType rules document known.2⟩

theorem not_paramsSeeUnknownType : ∀ (params : RuleParams δ) (value : Option (JsonValue δ)),
    ParamsKnowTypes params → ¬ ParamsSeeUnknownType params value
  | .typeCheck _, some _, known => not_not.mpr known
  | .nested (some schema), some value, known => not_seesUnknownType schema value known
  | .typeCheck _, none, _ => id
  | .nested (some _), none, _ => id
  | .nested none, _, _ => id
  | .required _, _, _ => id
  | .minLength _, _, _ => id
  | .maxLength _, _, _ => id
  | .minValue _, _, _ => id
  | .maxValue _, _, _ => id
  | .pattern _, _, _ => id
  | .enum _, _, _ => id

end

def anyRegex : Regex :=
  { compiles := fun _ => true, accepts := fun _ _ => true }

def nameSchema : Schema Rat :=
  .mk (ascii "name") none [(ascii "first", .minLength 3)]

def userSchema : Schema Rat :=
  .mk (ascii "user") none [(ascii "name", .typeCheck 6), (ascii "name", .nested (some nameSchema))]

theorem BuiltSchema.add_typeCheck {regex : Regex} {name : Bytes} {description : Option Bytes}
    {rules : List (Bytes × RuleParams δ)} (built : BuiltSchema regex (.mk name description rules))
    (fieldPath : Bytes) (typeValue : Int32) :
    BuiltSchema regex (.mk name description (rules ++ [(fieldPath, .typeCheck typeValue)])) := by
  have added : dbAddSchemaRule regex (.mk name description rules)
      (fieldPath, .typeCheck typeValue) =
        some (.mk name description (rules ++ [(fieldPath, .typeCheck typeValue)])) := rfl
  refine .add built (fun values same => ?_) (fun inner same => ?_) added
  · cases same
  · cases same

theorem nameSchema_built : BuiltSchema anyRegex nameSchema := by
  have added : dbAddSchemaRule anyRegex (dbCreateSchema (ascii "name") none)
      (ascii "first", .minLength 3) = some nameSchema := rfl
  refine .add (.create (ascii "name") none) (fun values same => ?_) (fun inner same => ?_) added
  · cases same
  · cases same

theorem userSchema_built : BuiltSchema anyRegex userSchema := by
  have first : BuiltSchema anyRegex
      (.mk (ascii "user") none [(ascii "name", .typeCheck 6)] : Schema Rat) :=
    (BuiltSchema.create (ascii "user") none).add_typeCheck (ascii "name") 6
  have added : dbAddSchemaRule anyRegex
      (.mk (ascii "user") none [(ascii "name", .typeCheck 6)] : Schema Rat)
        (ascii "name", .nested (some nameSchema)) = some userSchema := rfl
  refine .add first (fun values same => ?_) (fun inner same => ?_) added
  · cases same
  · cases same
    exact nameSchema_built

theorem readsBackSchema_iff_userSchema : ReadsBackSchema anyRegex userSchema := by
  refine (readsBackSchema_iff userSchema_built).mpr fun document _ => ?_
  have isObject : NamesType 6 := by
    decide
  exact not_seesUnknownType userSchema document ⟨isObject, ⟨trivial, trivial⟩, trivial⟩

/-- A type rule with the type 7, which is written as `any`. -/
def anySchema : Schema Rat :=
  .mk (ascii "s") none [(ascii "a", .typeCheck 7)]

theorem anySchema_built : BuiltSchema anyRegex anySchema :=
  (BuiltSchema.create (ascii "s") none).add_typeCheck (ascii "a") 7

/-- The schema rejects an object that the one that is read back accepts. -/
theorem not_readsBackSchema_anySchema :
    ¬ ∀ schema : Schema Rat, BuiltSchema anyRegex schema → ReadsBackSchema anyRegex schema := by
  intro claim
  obtain ⟨back, returned, agrees⟩ := claim anySchema anySchema_built
  have read : dbSchemaFromJson anyRegex (dbSchemaToJson anySchema) =
      some (.mk (ascii "s") none [(ascii "a", .typeCheck 6)]) := rfl
  obtain rfl := Option.some.inj (read.symm.trans returned)
  let document : JsonValue Rat := .object [(ascii "a", .object [])]
  have accepted : AcceptsDocument anyRegex
      (.mk (ascii "s") none [(ascii "a", .typeCheck 6)]) document := by
    decide +kernel
  have rejected : ¬ AcceptsDocument anyRegex anySchema document := by
    decide +kernel
  exact rejected ((agrees document).mp accepted)

end Jdbx
