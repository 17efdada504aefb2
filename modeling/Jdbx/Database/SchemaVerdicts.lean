import Jdbx.Database.SchemaRoundTrip

/-!
# The verdict of a schema

What it means that a schema holds of a document, said of its rules one by one: a rule about
a field that is not there holds unless it requires the field.  A null is there like any
other value.
-/

namespace Jdbx

open Library

variable {δ : Type}

/-- The value at the end of a way through objects and arrays. -/
inductive LeadsTo : JsonValue δ → List Bytes → JsonValue δ → Prop where
  | here (value : JsonValue δ) : LeadsTo value [] value
  | member {entries : List (Bytes × JsonValue δ)} {key : Bytes} {way : List Bytes}
      {inner value : JsonValue δ} :
      getEntry key entries = some inner → LeadsTo inner way value →
        LeadsTo (.object entries) (key :: way) value
  | item {items : List (JsonValue δ)} {token : Bytes} {way : List Bytes} {index : Nat}
      {inner value : JsonValue δ} :
      arrayIndex token = some index → items[index]? = some inner → LeadsTo inner way value →
        LeadsTo (.array items) (token :: way) value

def FieldAt (document : JsonValue δ) (fieldPath : Bytes) (value : JsonValue δ) : Prop :=
  LeadsTo document (nonemptyParts 46 fieldPath) value

theorem leadsTo_iff (way : List Bytes) (document value : JsonValue δ) :
    LeadsTo document way value ↔ way.foldlM pathStep document = some value := by
  induction way generalizing document with
  | nil =>
      constructor
      · rintro ⟨⟩
        rfl
      · intro same
        cases same
        exact .here _
  | cons token way ih =>
      rw [List.foldlM_cons]
      constructor
      · intro leads
        cases leads with
        | member held leads =>
            have step : pathStep (.object _) token = some _ := held
            rw [step]
            exact (ih _).mp leads
        | @item items _ _ index inner _ indexed held leads =>
            have step : pathStep (.array items) token = some inner := by
              rw [pathStep, indexed]
              exact held
            rw [step]
            exact (ih inner).mp leads
      · intro found
        obtain ⟨inner, step, found⟩ := Option.bind_eq_some_iff.mp found
        have leads := (ih inner).mpr found
        cases document with
        | object entries => exact .member step leads
        | array items =>
            obtain ⟨index, indexed, held⟩ := Option.bind_eq_some_iff.mp step
            exact .item indexed held leads
        | _ => cases step

theorem fieldAt_iff {document value : JsonValue δ} {fieldPath : Bytes} :
    FieldAt document fieldPath value ↔ getJsonValueAtPath document fieldPath = some value := by
  rw [FieldAt, leadsTo_iff, getJsonValueAtPath,
    tokens_eq_nonemptyParts 46 fieldPath.length fieldPath (Nat.le_refl _)]

section Holds

variable [CDouble δ] (regex : Regex) (present : JsonValue δ → Prop)

mutual

/-- Every rule of the schema holds of the document.  `present` says which values count as
there. -/
def SchemaHolds : Schema δ → JsonValue δ → Prop
  | .mk _ _ rules, document => RulesHold rules document
termination_by structural schema => schema

def RulesHold : List (Bytes × RuleParams δ) → JsonValue δ → Prop
  | [], _ => True
  | (fieldPath, params) :: rules, document =>
      RuleHolds params (fun value => FieldAt document fieldPath value ∧ present value) ∧
        RulesHold rules document
termination_by structural rules => rules

/-- A rule of the value that a field has, if any. -/
def RuleHolds : RuleParams δ → (JsonValue δ → Prop) → Prop
  | .typeCheck typeValue, field => ∀ value, field value → value.type.code = typeValue
  | .required required, field => required ≠ 0 → ∃ value, field value
  | .minLength minLength, field =>
      ∀ string, field (.string string) → minLength.toInt ≤ string.length
  | .maxLength maxLength, field =>
      ∀ string, field (.string string) → string.length ≤ maxLength.toInt
  | .minValue minValue, field =>
      ∀ value, field value →
        ∀ number ∈ comparedNumber value, CDouble.lt number minValue = false
  | .maxValue maxValue, field =>
      ∀ value, field value →
        ∀ number ∈ comparedNumber value, CDouble.lt maxValue number = false
  | .pattern (some pattern), field =>
      ∀ string, field (.string string) → regex.accepts pattern string = true
  | .enum (some (.array items)), field =>
      ∀ value, field value → ∃ item ∈ items, jsonEquals value item = true
  | .nested (some schema), field => ∀ value, field value → SchemaHolds schema value
  | .pattern none, _ | .enum _, _ | .nested none, _ => True
termination_by structural params => params

end

end Holds

mutual

def SizedSchema : Schema δ → Prop
  | .mk _ _ rules => SizedRules rules
termination_by structural schema => schema

def SizedRules : List (Bytes × RuleParams δ) → Prop
  | [] => True
  | (_, params) :: rules => SizedParams params ∧ SizedRules rules
termination_by structural rules => rules

def SizedParams : RuleParams δ → Prop
  | .minLength length | .maxLength length => 0 ≤ length.toInt
  | .nested (some schema) => SizedSchema schema
  | .typeCheck _ | .required _ | .minValue _ | .maxValue _ | .pattern _ | .enum _
  | .nested none => True
termination_by structural params => params

end

/-! ## The verdict -/

theorem sizeOfInt_eq {length : Int32} (nonneg : 0 ≤ length.toInt) :
    (sizeOfInt length : Int) = length.toInt := by
  have same : length.toInt64.toInt = length.toInt := Int32.toInt_toInt64 length
  have nonnegLong : 0 ≤ length.toInt64 := by
    rw [Int64.le_iff_toInt_le, same]
    exact nonneg
  rw [sizeOfInt, Int64.toNat_toUInt64_of_le nonnegLong, Int64.toNatClampNeg, same,
    Int.toNat_of_nonneg nonneg]

section Verdict

variable [CDouble δ] {regex : Regex} {params : RuleParams δ}

def anyValue (_ : JsonValue δ) : Prop := True

theorem ruleHolds_none (flat : ∀ schema, params ≠ .nested (some schema)) :
    RuleHolds regex anyValue params (fun inner => none = some inner) ↔
      ruleFailure regex none params = none := by
  cases params with
  | pattern pattern => cases pattern <;> simp [RuleHolds, ruleFailure]
  | enum enumValues =>
      cases enumValues with
      | none => simp [RuleHolds, ruleFailure]
      | some values => cases values <;> simp [RuleHolds, ruleFailure]
  | nested nested =>
      cases nested with
      | none => simp [RuleHolds, ruleFailure]
      | some schema => exact absurd rfl (flat schema)
  | _ => simp [RuleHolds, ruleFailure]

theorem ruleHolds_some (flat : ∀ schema, params ≠ .nested (some schema))
    (sized : SizedParams params) (value : JsonValue δ) :
    RuleHolds regex anyValue params (fun inner => some value = some inner) ↔
      ruleFailure regex (some value) params = none := by
  cases params with
  | typeCheck typeValue => simp [RuleHolds, ruleFailure]
  | required required => simp [RuleHolds, ruleFailure]
  | minLength minLength =>
      have size := sizeOfInt_eq sized
      cases value with
      | string string =>
          simp only [RuleHolds, ruleFailure, Option.some.injEq, JsonValue.string.injEq,
            forall_eq', ite_eq_right_iff, reduceCtorEq, imp_false]
          omega
      | _ => simp [RuleHolds, ruleFailure]
  | maxLength maxLength =>
      have size := sizeOfInt_eq sized
      cases value with
      | string string =>
          simp only [RuleHolds, ruleFailure, Option.some.injEq, JsonValue.string.injEq,
            forall_eq', ite_eq_right_iff, reduceCtorEq, imp_false]
          omega
      | _ => simp [RuleHolds, ruleFailure]
  | minValue minValue => cases held : comparedNumber value <;> simp [RuleHolds, ruleFailure, held]
  | maxValue maxValue => cases held : comparedNumber value <;> simp [RuleHolds, ruleFailure, held]
  | pattern pattern =>
      cases pattern with
      | none => simp [RuleHolds, ruleFailure]
      | some pattern => cases value <;> simp [RuleHolds, ruleFailure]
  | enum enumValues =>
      cases enumValues with
      | none => simp [RuleHolds, ruleFailure]
      | some values => cases values <;> simp [RuleHolds, ruleFailure]
  | nested nested =>
      cases nested with
      | none => simp [RuleHolds, ruleFailure]
      | some schema => exact absurd rfl (flat schema)

theorem ruleHolds_iff (flat : ∀ schema, params ≠ .nested (some schema))
    (sized : SizedParams params) (value : Option (JsonValue δ)) :
    RuleHolds regex anyValue params (fun inner => value = some inner) ↔
      ruleFailure regex value params = none := by
  cases value with
  | none => exact ruleHolds_none flat
  | some value => exact ruleHolds_some flat sized value

theorem validateRule_flat (flat : ∀ schema, params ≠ .nested (some schema))
    (sized : SizedParams params) (fieldPath : Bytes) (value : Option (JsonValue δ)) :
    (validateRule regex params fieldPath value).isValid = true ↔
      RuleHolds regex anyValue params fun inner => value = some inner := by
  rw [ruleHolds_iff flat sized, validateRule_eq params fieldPath value flat]
  cases ruleFailure regex value params with
  | none => exact iff_of_true rfl rfl
  | some message => exact iff_of_false (by simp [failsAt]) (by simp)

omit [CDouble δ] in
theorem fieldAt_eq (document : JsonValue δ) (fieldPath : Bytes) :
    (fun value => FieldAt document fieldPath value ∧ anyValue value) =
      fun value => getJsonValueAtPath document fieldPath = some value := by
  funext value
  rw [fieldAt_iff, anyValue, and_true]

mutual

theorem acceptsDocument_iff : ∀ {schema : Schema δ}, SizedSchema schema → ∀ document,
    (AcceptsDocument regex schema document ↔ SchemaHolds regex anyValue schema document)
  | .mk _ _ _, sized, document => validateRules_iff sized document

theorem validateRules_iff : ∀ {rules : List (Bytes × RuleParams δ)}, SizedRules rules →
    ∀ document, ((validateRules regex rules document).isValid = true ↔
      RulesHold regex anyValue rules document)
  | [], _, _ => iff_of_true rfl trivial
  | (fieldPath, params) :: rules, sized, document => by
      rw [validateRules_cons_isValid, RulesHold, fieldAt_eq]
      exact and_congr (validateRule_iff sized.1 fieldPath _) (validateRules_iff sized.2 document)

theorem validateRule_iff : ∀ {params : RuleParams δ}, SizedParams params →
    ∀ fieldPath value, ((validateRule regex params fieldPath value).isValid = true ↔
      RuleHolds regex anyValue params fun inner => value = some inner)
  | .nested (some _), _, _, none => iff_of_true rfl fun _ held => by cases held
  | .nested (some schema), sized, fieldPath, some value => by
      rw [validateRule_nested_isValid]
      refine (acceptsDocument_iff sized value).trans ?_
      rw [RuleHolds]
      simp only [Option.some.injEq, forall_eq']
  | .nested none, sized, fieldPath, value
  | .typeCheck _, sized, fieldPath, value
  | .required _, sized, fieldPath, value
  | .minLength _, sized, fieldPath, value
  | .maxLength _, sized, fieldPath, value
  | .minValue _, sized, fieldPath, value
  | .maxValue _, sized, fieldPath, value
  | .pattern _, sized, fieldPath, value
  | .enum _, sized, fieldPath, value => validateRule_flat (by simp) sized fieldPath value

end

end Verdict

section Order

variable [CDouble δ] {regex : Regex} {rules : List (Bytes × RuleParams δ)}

omit [CDouble δ] in
theorem sizedRules_iff :
    SizedRules rules ↔ ∀ rule ∈ rules, SizedParams rule.2 := by
  induction rules with
  | nil => simp [SizedRules]
  | cons rule rules ih => simp [SizedRules, ih]

theorem rulesHold_iff {present : JsonValue δ → Prop} {document : JsonValue δ} :
    RulesHold regex present rules document ↔ ∀ rule ∈ rules,
      RuleHolds regex present rule.2
        fun value => FieldAt document rule.1 value ∧ present value := by
  induction rules with
  | nil => simp [RulesHold]
  | cons rule rules ih => simp [RulesHold, ih]

theorem validateRules_isValid_iff {document : JsonValue δ} :
    (validateRules regex rules document).isValid = true ↔ ∀ rule ∈ rules,
      (validateRule regex rule.2 rule.1 (getJsonValueAtPath document rule.1)).isValid = true := by
  induction rules with
  | nil => simp [validateRules, validDocument]
  | cons rule rules ih => rw [validateRules_cons_isValid, ih, List.forall_mem_cons]

def addRules (regex : Regex) (schema : Schema δ) (rules : List (Bytes × RuleParams δ)) :
    Option (Schema δ) :=
  rules.foldlM (dbAddSchemaRule regex) schema

omit [CDouble δ] in
theorem addRules_eq_some {name : Bytes} {description : Option Bytes} {schema : Schema δ}
    (before : List (Bytes × RuleParams δ)) :
    addRules regex (.mk name description before) rules = some schema ↔
      (∀ rule ∈ rules, ∀ pattern, rule.2 = .pattern (some pattern) →
        regex.compiles pattern = true) ∧
      schema = .mk name description (before ++ rules) := by
  induction rules generalizing before with
  | nil =>
      rw [List.append_nil]
      constructor
      · intro added
        exact ⟨List.forall_mem_nil _, (Option.some.inj added).symm⟩
      · rintro ⟨-, rfl⟩
        rfl
  | cons rule rules ih =>
      rw [addRules, List.foldlM_cons, List.forall_mem_cons]
      constructor
      · intro added
        obtain ⟨next, first, rest⟩ := Option.bind_eq_some_iff.mp added
        obtain ⟨rfl, compiles⟩ := dbAddSchemaRule_eq_some first
        have := (ih _).mp rest
        rw [List.append_assoc] at this
        exact ⟨⟨compiles, this.1⟩, this.2⟩
      · rintro ⟨⟨compiles, rest⟩, rfl⟩
        rw [dbAddSchemaRule_of_compiles compiles]
        refine (ih _).mpr ⟨rest, ?_⟩
        rw [List.append_assoc]
        rfl

/-- The schema that the rules make, in any order, accepts a document just where every rule
holds of the value at its path, if there is one. -/
theorem schemaVerdict_iff_rulesHold {name : Bytes} {description : Option Bytes}
    {rules : List (Bytes × RuleParams δ)} {schema : Schema δ}
    (added : addRules regex (dbCreateSchema name description) rules = some schema) :
    ((∀ rule ∈ rules, SizedParams rule.2) → ∀ document, AcceptsDocument regex schema document ↔
      ∀ rule ∈ rules, RuleHolds regex anyValue rule.2 (FieldAt document rule.1)) ∧
    ∀ reordered, rules.Perm reordered →
      ∃ other, addRules regex (dbCreateSchema name description) reordered = some other ∧
        ∀ document, AcceptsDocument regex other document ↔
          AcceptsDocument regex schema document := by
  obtain ⟨compiles, rfl⟩ := (addRules_eq_some []).mp added
  constructor
  · intro sized document
    have present : ∀ fieldPath, (fun value => FieldAt document fieldPath value ∧ anyValue value) =
        FieldAt document fieldPath :=
      fun fieldPath => funext fun value => propext (and_iff_left trivial)
    refine (validateRules_iff (sizedRules_iff.mpr sized) document).trans (rulesHold_iff.trans ?_)
    exact forall_congr' fun rule => imp_congr_right fun _ => by rw [present]
  · intro reordered same
    refine ⟨.mk name description reordered, (addRules_eq_some []).mpr ⟨fun rule member => ?_, rfl⟩,
      fun document => ?_⟩
    · exact compiles rule (same.mem_iff.mpr member)
    · refine validateRules_isValid_iff.trans (Iff.trans ?_ validateRules_isValid_iff.symm)
      exact forall_congr' fun rule => imp_congr_left same.mem_iff.symm

end Order

/-- Two rules of one field, in either order. -/
theorem schemaVerdict_iff_rulesHold_twoRules :
    let required : Bytes × RuleParams Rat := (ascii "a", .required 1)
    let text : Bytes × RuleParams Rat := (ascii "a", .typeCheck JsonType.string.code)
    let schema := .mk (ascii "s") none [required, text]
    ((∀ rule ∈ [required, text], SizedParams rule.2) →
      ∀ document, AcceptsDocument anyRegex schema document ↔ ∀ rule ∈ [required, text],
        RuleHolds anyRegex anyValue rule.2 (FieldAt document rule.1)) ∧
    ∀ reordered, [required, text].Perm reordered →
      ∃ other, addRules anyRegex (dbCreateSchema (ascii "s") none) reordered = some other ∧
        ∀ document, AcceptsDocument anyRegex other document ↔
          AcceptsDocument anyRegex schema document :=
  schemaVerdict_iff_rulesHold rfl

/-- A required field may hold a null. -/
theorem not_schemaVerdict_withoutNulls :
    ¬ ∀ (rules : List (Bytes × RuleParams Rat)) (schema : Schema Rat),
      addRules anyRegex (dbCreateSchema (ascii "s") none) rules = some schema →
        ∀ document, AcceptsDocument anyRegex schema document ↔
          ∀ rule ∈ rules, RuleHolds anyRegex (· ≠ .null) rule.2 fun value =>
            FieldAt document rule.1 value ∧ value ≠ .null := by
  intro claim
  let document : JsonValue Rat := .object [(ascii "a", .null)]
  have accepted : AcceptsDocument anyRegex
      (.mk (ascii "s") none [(ascii "a", .required 1)]) document := by
    decide +kernel
  have holds := (claim [(ascii "a", .required 1)] _ rfl document).mp accepted _
    (List.mem_singleton_self _)
  obtain ⟨value, found, notNull⟩ := holds (by decide)
  have isNull : getJsonValueAtPath document (ascii "a") = some .null := rfl
  exact notNull (Option.some.inj ((fieldAt_iff.mp found).symm.trans isNull))

end Jdbx
