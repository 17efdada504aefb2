import Jdbx.Utils.JsonDeepCopy
import Jdbx.Utils.JsonEquality

/-!
# The two copiers

`json_clone` goes down to the leaves of a value.  `json_deep_copy` counts the levels, and puts
null in the place of what stands deeper than `MAX_RECURSION_DEPTH`.
-/

namespace Jdbx

open Library

section Copies

variable {δ : Type} {value : JsonValue δ}

def NullBelow : Nat → JsonValue δ → Prop
  | 0, value => value.type = .null
  | levels + 1, .array items => ∀ item ∈ items, NullBelow levels item
  | levels + 1, .object entries => ∀ entry ∈ entries, NullBelow levels entry.2
  | _ + 1, _ => True

def decidableNullBelow : ∀ (levels : Nat) (value : JsonValue δ), Decidable (NullBelow levels value)
  | 0, value => inferInstanceAs (Decidable (value.type = .null))
  | levels + 1, .array items =>
      letI := fun item => decidableNullBelow levels item
      inferInstanceAs (Decidable (∀ item ∈ items, NullBelow levels item))
  | levels + 1, .object entries =>
      letI := fun entry : Bytes × JsonValue δ => decidableNullBelow levels entry.2
      inferInstanceAs (Decidable (∀ entry ∈ entries, NullBelow levels entry.2))
  | _ + 1, .null | _ + 1, .boolean _ | _ + 1, .number _ | _ + 1, .integer _ | _ + 1, .string _ =>
      isTrue trivial

instance (levels : Nat) (value : JsonValue δ) : Decidable (NullBelow levels value) :=
  decidableNullBelow levels value

theorem eq_null_of_type (isNull : value.type = .null) : value = .null := by
  cases value with
  | null => rfl
  | boolean _ | number _ | integer _ | string _ | array _ | object _ => cases isNull

theorem jsonDeepCopyInternalSafe_object {entries : List (Bytes × JsonValue δ)}
    (distinct : (entryKeys entries).Nodup) (levels : Nat) :
    jsonDeepCopyInternalSafe (levels + 1) (.object entries) =
      .object (entries.map fun entry => (entry.1, jsonDeepCopyInternalSafe levels entry.2)) := by
  have folded := foldl_setEntry_of_nodup
    (entries.map fun entry => (entry.1, jsonDeepCopyInternalSafe levels entry.2)) []
    (by simpa [entryKeys, Function.comp_def] using distinct)
  rw [List.foldl_map, List.nil_append] at folded
  rw [jsonDeepCopyInternalSafe, folded]

theorem jsonDeepCopyInternalSafe_of_nullBelow {levels : Nat} (wellFormed : WellFormed value)
    (shallow : NullBelow levels value) :
    jsonDeepCopyInternalSafe levels value = value := by
  induction levels generalizing value with
  | zero => exact (eq_null_of_type shallow).symm
  | succ levels ih =>
      cases value with
      | array items =>
          have copies : items.map (jsonDeepCopyInternalSafe levels) = items.map id :=
            List.map_congr_left fun item member =>
              ih (wellFormedItems_iff.mp wellFormed item member)
                (shallow item member)
          rw [jsonDeepCopyInternalSafe, copies, List.map_id]
      | object entries =>
          have copies : entries.map (fun entry =>
              (entry.1, jsonDeepCopyInternalSafe levels entry.2)) = entries.map id :=
            List.map_congr_left fun entry member => by
              rw [ih (wellFormedEntries_iff.mp wellFormed.2 entry member).2
                (shallow entry member)]
              rfl
          rw [jsonDeepCopyInternalSafe_object wellFormed.1, copies, List.map_id]
      | null | boolean _ | number _ | integer _ | string _ => rfl

variable [CDouble δ]

theorem nullBelow_of_jsonEquals {levels : Nat} (plain : PlainValue value)
    (same : jsonEquals value (jsonDeepCopyInternalSafe levels value) = true) :
    NullBelow levels value := by
  induction levels generalizing value with
  | zero =>
      cases value with
      | null => rfl
      | boolean _ | number _ | integer _ | string _ | array _ | object _ => cases same
  | succ levels ih =>
      cases value with
      | array items =>
          rw [jsonDeepCopyInternalSafe, jsonEquals, Bool.and_eq_true, beq_iff_eq,
            jsonEqualsItems_iff, List.forall₂_map_right_iff] at same
          intro item member
          obtain ⟨place, bound, rfl⟩ := List.getElem_of_mem member
          exact ih (plain.item _ member)
            ((List.forall₂_iff_get.mp same).2 place bound bound)
      | object entries =>
          rw [jsonDeepCopyInternalSafe_object plain.1.1, jsonEquals, Bool.and_eq_true,
            jsonEqualsEntries_iff] at same
          intro entry member
          obtain ⟨copied, found, equal⟩ := same.2 entry member
          rw [getEntry_map_value, getEntry_eq_some_of_mem plain.1.1 member] at found
          rw [← Option.some.inj found] at equal
          exact ih (plain.entry entry member) equal
      | null | boolean _ | number _ | integer _ | string _ => trivial

def CopiersAgree (value : JsonValue δ) : Prop :=
  jsonEquals value (jsonDeepCopy value) = true ∧ jsonEquals value (jsonClone value) = true ∧
    jsonEquals (jsonDeepCopy value) (jsonClone value) = true

instance (value : JsonValue δ) : Decidable (CopiersAgree value) :=
  inferInstanceAs (Decidable (_ ∧ _ ∧ _))

/-- A clone is equal to the value, and the copiers agree exactly where the limit of
`json_deep_copy` cuts off nothing but null. -/
theorem copiersAgree_iff {value : JsonValue δ} (plain : PlainValue value) :
    jsonEquals value (jsonClone value) = true ∧
      (CopiersAgree value ↔ NullBelow (maxRecursionDepth + 1) value) := by
  have equal : jsonEquals value value = true :=
    (jsonEquals_iff plain plain).mpr (.refl value)
  rw [CopiersAgree, jsonClone_eq_self plain.1]
  refine ⟨equal, fun agree => nullBelow_of_jsonEquals plain agree.1, fun shallow => ?_⟩
  have copied : jsonDeepCopy value = value :=
    jsonDeepCopyInternalSafe_of_nullBelow plain.1 shallow
  rw [copied]
  exact ⟨equal, equal, equal⟩

end Copies

def nestedArrays (value : JsonValue Rat) : Nat → JsonValue Rat
  | 0 => value
  | levels + 1 => .array [nestedArrays value levels]

theorem copiersAgree_hundredLevels :
    jsonEquals (nestedArrays (.boolean true) 100)
        (jsonClone (nestedArrays (.boolean true) 100)) = true ∧
      CopiersAgree (nestedArrays (.boolean true) 100) :=
  have plain : PlainValue (nestedArrays (.boolean true) 100) := by
    decide +kernel
  ⟨(copiersAgree_iff plain).1, (copiersAgree_iff plain).2.mpr (by decide +kernel)⟩

/-- One level more, and the copy holds null in the place of the boolean. -/
theorem not_copiersAgree_deeper :
    PlainValue (nestedArrays (.boolean true) 101) ∧
      jsonEquals (jsonDeepCopy (nestedArrays (.boolean true) 101))
        (nestedArrays .null 101) = true ∧
        ¬ CopiersAgree (nestedArrays (.boolean true) 101) := by
  decide +kernel

end Jdbx
