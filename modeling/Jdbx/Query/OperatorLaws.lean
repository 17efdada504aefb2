import Jdbx.Query.QueryLanguage
import Mathlib.Data.List.Lex

/-!
# Laws of the comparison operators

The operators of `match_comparison_operator` determine one another, as long as the field is
there: `$in` and `$nin` both fail on a missing field.
-/

namespace Jdbx

open Library

variable {δ : Type} [CDouble δ]

def IsOrdered (number : δ) : Prop := CDouble.eq number number = true

/-- The order of doubles: of two that are no NaN exactly one of `<`, `==` and `>` holds, and
an integer is never converted to a NaN. -/
class OrderedDoubles (δ : Type) [CDouble δ] : Prop where
  one : ∀ first second : δ, IsOrdered first → IsOrdered second →
    [CDouble.lt first second, CDouble.eq first second, CDouble.lt second first].count true = 1
  integers : ∀ integer : Int64, IsOrdered (CDouble.ofInt64 integer : δ)

instance : OrderedDoubles Rat where
  one first second _ _ := by
    rcases lt_trichotomy first second with less | same | greater
    · simp [CDouble.lt, CDouble.eq, less, less.ne, less.not_gt]
    · simp [CDouble.lt, CDouble.eq, same]
    · simp [CDouble.lt, CDouble.eq, greater, greater.ne', greater.not_gt]
  integers _ := decide_eq_true rfl

def ComparableValues : JsonValue δ → JsonValue δ → Prop
  | .integer _, .integer _ | .string _, .string _ => True
  | .integer _, .number number | .number number, .integer _ => IsOrdered number
  | .number number, .number other => IsOrdered number ∧ IsOrdered other
  | _, _ => False

/-- The elements of the operand of `$in` and `$nin`. -/
def operandElements : JsonValue δ → List (JsonValue δ)
  | .array items => items
  | _ => []

/-- What the operators say of one field and one operand agrees. -/
structure OperatorLaws (field : Option (JsonValue δ)) (operand : JsonValue δ) : Prop where
  ne : matchComparisonOperator .opNe field operand =
    !matchComparisonOperator .opEq field operand
  nin : matchComparisonOperator .opNin field operand =
    !matchComparisonOperator .opIn field operand
  disjunction : matchComparisonOperator .opIn field operand =
    (operandElements operand).any fun item => matchComparisonOperator .opEq field item
  gte : ∀ value ∈ field, ComparableValues value operand →
    matchComparisonOperator .opGte field operand =
      (matchComparisonOperator .opGt field operand ||
        matchComparisonOperator .opEq field operand)
  lte : ∀ value ∈ field, ComparableValues value operand →
    matchComparisonOperator .opLte field operand =
      (matchComparisonOperator .opLt field operand ||
        matchComparisonOperator .opEq field operand)
  one : ∀ value ∈ field, ComparableValues value operand →
    [matchComparisonOperator .opLt field operand, matchComparisonOperator .opEq field operand,
      matchComparisonOperator .opGt field operand].count true = 1

section Orders

variable {α : Type} [LE α] [LT α] [Std.IsLinearOrder α] [Std.LawfulOrderLT α] [DecidableLT α]
  [DecidableLE α] [BEq α] [LawfulBEq α]

theorem count_order (first second : α) :
    [decide (first < second), first == second, decide (second < first)].count true = 1 := by
  rcases Std.lt_trichotomy first second with less | same | greater
  · have different : first ≠ second := Std.ne_of_lt less
    simp [less, different, Std.not_gt_of_lt less]
  · simp [same, Std.lt_irrefl]
  · have different : first ≠ second := (Std.ne_of_lt greater).symm
    simp [greater, different, Std.not_gt_of_lt greater]

theorem decide_le (first second : α) :
    decide (first ≤ second) = (decide (first < second) || first == second) := by
  rw [Bool.eq_iff_iff]
  simp [Std.le_iff_lt_or_eq]

end Orders

variable {value operand : JsonValue δ}

theorem nin_of_some (value operand : JsonValue δ) :
    matchComparisonOperator .opNin (some value) operand =
      !matchComparisonOperator .opIn (some value) operand := by
  cases operand <;> rfl

theorem in_of_some (value operand : JsonValue δ) :
    matchComparisonOperator .opIn (some value) operand =
      (operandElements operand).any fun item =>
        matchComparisonOperator .opEq (some value) item := by
  cases operand <;> rfl

/-- The laws that speak of an order. -/
structure OrderLaws (value operand : JsonValue δ) : Prop where
  gte : matchComparisonOperator .opGte (some value) operand =
    (matchComparisonOperator .opGt (some value) operand ||
      matchComparisonOperator .opEq (some value) operand)
  lte : matchComparisonOperator .opLte (some value) operand =
    (matchComparisonOperator .opLt (some value) operand ||
      matchComparisonOperator .opEq (some value) operand)
  one : [matchComparisonOperator .opLt (some value) operand,
    matchComparisonOperator .opEq (some value) operand,
    matchComparisonOperator .opGt (some value) operand].count true = 1

variable [OrderedDoubles δ]

theorem orderLaws_of_comparable : ∀ {value operand : JsonValue δ}, ComparableValues value operand →
    OrderLaws value operand
  | .integer field, .integer query, _ => by
      refine ⟨?_, decide_le field query, count_order field query⟩
      exact (decide_le query field).trans (congrArg _ Bool.beq_comm)
  | .string field, .string query, _ => by
      refine ⟨?_, decide_le field query, count_order field query⟩
      exact (decide_le query field).trans (congrArg _ Bool.beq_comm)
  | .integer field, .number query, ordered =>
      ⟨rfl, rfl, OrderedDoubles.one _ query (OrderedDoubles.integers field) ordered⟩
  | .number field, .integer query, ordered =>
      ⟨rfl, rfl, OrderedDoubles.one field _ ordered (OrderedDoubles.integers query)⟩
  | .number field, .number query, ordered =>
      ⟨rfl, rfl, OrderedDoubles.one field query ordered.1 ordered.2⟩

/-- The operators agree on a field just where it is there. -/
theorem operatorLaws_iff (document : JsonValue δ) (path : Bytes) (operand : JsonValue δ) :
    OperatorLaws (queryExtractField document path) operand ↔
      (queryExtractField document path).isSome = true := by
  cases queryExtractField document path with
  | none =>
      refine iff_of_false (fun laws => ?_) Bool.false_ne_true
      exact Bool.false_ne_true laws.nin
  | some value =>
      refine iff_of_true ?_ rfl
      refine ⟨rfl, nin_of_some value operand, in_of_some value operand, ?_, ?_, ?_⟩
      · intro field same comparable
        cases same
        exact (orderLaws_of_comparable comparable).gte
      · intro field same comparable
        cases same
        exact (orderLaws_of_comparable comparable).lte
      · intro field same comparable
        cases same
        exact (orderLaws_of_comparable comparable).one

theorem operatorLaws_age :
    OperatorLaws (queryExtractField (.object [(ascii "age", .integer 30)] : JsonValue Rat)
      (ascii "age")) (.number (61 / 2)) :=
  (operatorLaws_iff _ _ _).mpr (by decide +kernel)

/-- `$nin` does not hold of a field that is missing. -/
theorem not_operatorLaws_missingField :
    ¬∀ (document : JsonValue Rat) (path : Bytes) (operand : JsonValue Rat),
      OperatorLaws (queryExtractField document path) operand := by
  intro laws
  have nin := (laws (.object []) (ascii "age") (.array [.integer 30])).nin
  exact absurd nin (by decide +kernel)

end Jdbx
