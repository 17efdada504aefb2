import Jdbx.Library.CString
import Jdbx.Library.Entries

/-!
# JSON values

`json_value_t` with its accessors and its object and array operations.  A
`NULL` pointer is `none`.  An object keeps its entries in insertion order, and
strings and keys are C strings.

Numbers with a fraction or an exponent are C doubles.  Their arithmetic is the
class `CDouble`; nothing here depends on how a double rounds.
-/

namespace Jdbx

open Library

/-- The operations on `double` that the program uses. -/
class CDouble (δ : Type) where
  /-- `(double)i` -/
  ofInt64 : Int64 → δ
  /-- `(int64_t)d` -/
  toInt64 : δ → Int64
  /-- `(int)d` -/
  toInt32 : δ → Int32
  /-- The constant `0.1`. -/
  tenth : δ
  add : δ → δ → δ
  mul : δ → δ → δ
  div : δ → δ → δ
  neg : δ → δ
  /-- `a == b` -/
  eq : δ → δ → Bool
  /-- `a < b` -/
  lt : δ → δ → Bool
  /-- `printf("%g")` -/
  formatG : δ → Bytes

/-- Exact rationals in place of doubles, for evaluating the model where nothing
is rounded. -/
instance : CDouble Rat where
  ofInt64 i := i.toInt
  toInt64 number := Int64.ofInt number.floor
  toInt32 number := Int32.ofInt number.floor
  tenth := 1 / 10
  add := (· + ·)
  mul := (· * ·)
  div := (· / ·)
  neg number := -number
  eq number other := decide (number = other)
  lt number other := decide (number < other)
  formatG number := formatInt64 (Int64.ofInt number.floor)

inductive JsonValue (δ : Type) where
  | null
  | boolean (boolean : Bool)
  | number (number : δ)
  | integer (integer : Int64)
  | string (string : Bytes)
  | array (items : List (JsonValue δ))
  | object (entries : List (Bytes × JsonValue δ))
  deriving Inhabited

inductive JsonType where
  | null
  | boolean
  | number
  | integer
  | string
  | array
  | object
  deriving DecidableEq, Repr

namespace JsonValue

variable {δ : Type}

/-- The `type` field. -/
def type : JsonValue δ → JsonType
  | .null => .null
  | .boolean _ => .boolean
  | .number _ => .number
  | .integer _ => .integer
  | .string _ => .string
  | .array _ => .array
  | .object _ => .object

end JsonValue

/-! ## Accessors -/

section Accessors

variable {δ : Type}

def jsonGetString : Option (JsonValue δ) → Option Bytes
  | some (.string string) => some string
  | _ => none

def jsonGetBoolean : Option (JsonValue δ) → Bool
  | some (.boolean boolean) => boolean
  | _ => false

def jsonGetNumber [CDouble δ] : Option (JsonValue δ) → δ
  | some (.number number) => number
  | some (.integer integer) => CDouble.ofInt64 integer
  | _ => CDouble.ofInt64 0

def jsonGetInteger [CDouble δ] : Option (JsonValue δ) → Int64
  | some (.integer integer) => integer
  | some (.number number) => CDouble.toInt64 number
  | _ => 0

def jsonArrayAppend (array value : JsonValue δ) : JsonValue δ :=
  match array with
  | .array items => .array (items ++ [value])
  | other => other

def jsonArrayGet (array : JsonValue δ) (index : Nat) : Option (JsonValue δ) :=
  match array with
  | .array items => items[index]?
  | _ => none

def jsonArraySize : JsonValue δ → Nat
  | .array items => items.length
  | _ => 0

def jsonArrayRemove (array : JsonValue δ) (index : Nat) : JsonValue δ :=
  match array with
  | .array items => .array (items.eraseIdx index)
  | other => other

def jsonObjectSet (object : JsonValue δ) (key : Bytes) (value : JsonValue δ) : JsonValue δ :=
  match object with
  | .object entries => .object (setEntry key value entries)
  | other => other

def jsonObjectGet (object : JsonValue δ) (key : Bytes) : Option (JsonValue δ) :=
  match object with
  | .object entries => getEntry key entries
  | _ => none

def jsonObjectHas (object : JsonValue δ) (key : Bytes) : Bool :=
  (jsonObjectGet object key).isSome

def jsonObjectSize : JsonValue δ → Nat
  | .object entries => entries.length
  | _ => 0

/-- `json_object_get_keys`, as the strings of the array it returns. -/
def jsonObjectGetKeys : JsonValue δ → Option (List Bytes)
  | .object entries => some (entryKeys entries)
  | _ => none

def jsonObjectRemove (object : JsonValue δ) (key : Bytes) : JsonValue δ :=
  match object with
  | .object entries => .object (removeEntry key entries)
  | other => other

@[simp]
theorem jsonObjectGet_set_self (entries : List (Bytes × JsonValue δ)) (key : Bytes)
    (value : JsonValue δ) :
    jsonObjectGet (jsonObjectSet (.object entries) key value) key = some value := by
  simp [jsonObjectSet, jsonObjectGet]

theorem jsonObjectGet_set_of_ne (object : JsonValue δ) {key tested : Bytes}
    (different : tested ≠ key) (value : JsonValue δ) :
    jsonObjectGet (jsonObjectSet object key value) tested = jsonObjectGet object tested := by
  cases object with
  | object entries => exact getEntry_setEntry_of_ne different value entries
  | null | boolean _ | number _ | integer _ | string _ | array _ => rfl

end Accessors

section Recursive

variable {δ : Type}

mutual

def jsonClone : JsonValue δ → JsonValue δ
  | .null => .null
  | .boolean boolean => .boolean boolean
  | .number number => .number number
  | .integer integer => .integer integer
  | .string string => .string string
  | .array items => .array (jsonCloneItems items)
  | .object entries => .object (jsonCloneEntries [] entries)
termination_by structural value => value

/-- The array loop of `json_clone`. -/
def jsonCloneItems : List (JsonValue δ) → List (JsonValue δ)
  | [] => []
  | item :: items => jsonClone item :: jsonCloneItems items
termination_by structural items => items

/-- The object loop of `json_clone`, which sets every entry in the entries
cloned so far. -/
def jsonCloneEntries (cloned : List (Bytes × JsonValue δ)) :
    List (Bytes × JsonValue δ) → List (Bytes × JsonValue δ)
  | [] => cloned
  | (key, value) :: entries => jsonCloneEntries (setEntry key (jsonClone value) cloned) entries
termination_by structural entries => entries

end

mutual

/-- `json_equals` on two values. -/
def jsonEquals [CDouble δ] : JsonValue δ → JsonValue δ → Bool
  | .null, .null => true
  | .boolean boolean, .boolean other => boolean == other
  | .number number, .number other => CDouble.eq number other
  | .integer integer, .integer other => integer == other
  | .integer integer, .number other => CDouble.eq (CDouble.ofInt64 integer) other
  | .number number, .integer other => CDouble.eq number (CDouble.ofInt64 other)
  | .string string, .string other => string == other
  | .array items, .array others => items.length == others.length && jsonEqualsItems items others
  | .object entries, .object others =>
      entries.length == others.length && jsonEqualsEntries entries others
  | _, _ => false
termination_by structural value => value

/-- The array loop of `json_equals`. -/
def jsonEqualsItems [CDouble δ] : List (JsonValue δ) → List (JsonValue δ) → Bool
  | [], _ => true
  | item :: items, other :: others => jsonEquals item other && jsonEqualsItems items others
  | _ :: _, [] => false
termination_by structural items => items

/-- The object loop of `json_equals`, which looks every key up in the other
object. -/
def jsonEqualsEntries [CDouble δ] :
    List (Bytes × JsonValue δ) → List (Bytes × JsonValue δ) → Bool
  | [], _ => true
  | (key, value) :: entries, others =>
      (match getEntry key others with
        | some other => jsonEquals value other
        | none => false) && jsonEqualsEntries entries others
termination_by structural entries => entries

end

end Recursive

/-! ## Well-formed values -/

section WellFormed

variable {δ : Type}

mutual

/-- Strings and keys are C strings, and the keys of every object are distinct.
`json_object_set` and `json_create_string` build nothing else. -/
def WellFormed : JsonValue δ → Prop
  | .string string => NulFree string
  | .array items => WellFormedItems items
  | .object entries => (entryKeys entries).Nodup ∧ WellFormedEntries entries
  | _ => True
termination_by structural value => value

def WellFormedItems : List (JsonValue δ) → Prop
  | [] => True
  | item :: items => WellFormed item ∧ WellFormedItems items
termination_by structural items => items

def WellFormedEntries : List (Bytes × JsonValue δ) → Prop
  | [] => True
  | (key, value) :: entries => NulFree key ∧ WellFormed value ∧ WellFormedEntries entries
termination_by structural entries => entries

end

mutual

/-- No `JSON_NUMBER` anywhere. -/
def NumberFree : JsonValue δ → Prop
  | .number _ => False
  | .array items => NumberFreeItems items
  | .object entries => NumberFreeEntries entries
  | _ => True
termination_by structural value => value

def NumberFreeItems : List (JsonValue δ) → Prop
  | [] => True
  | item :: items => NumberFree item ∧ NumberFreeItems items
termination_by structural items => items

def NumberFreeEntries : List (Bytes × JsonValue δ) → Prop
  | [] => True
  | (_, value) :: entries => NumberFree value ∧ NumberFreeEntries entries
termination_by structural entries => entries

end

mutual

def decidableWellFormed : (value : JsonValue δ) → Decidable (WellFormed value)
  | .null | .boolean _ | .number _ | .integer _ => isTrue trivial
  | .string string => inferInstanceAs (Decidable (NulFree string))
  | .array items => decidableWellFormedItems items
  | .object entries =>
      letI := decidableWellFormedEntries entries
      inferInstanceAs (Decidable (_ ∧ WellFormedEntries entries))
termination_by structural value => value

def decidableWellFormedItems :
    (items : List (JsonValue δ)) → Decidable (WellFormedItems items)
  | [] => isTrue trivial
  | item :: items =>
      letI := decidableWellFormed item
      letI := decidableWellFormedItems items
      inferInstanceAs (Decidable (WellFormed item ∧ WellFormedItems items))
termination_by structural items => items

def decidableWellFormedEntries :
    (entries : List (Bytes × JsonValue δ)) → Decidable (WellFormedEntries entries)
  | [] => isTrue trivial
  | (key, value) :: entries =>
      letI := decidableWellFormed value
      letI := decidableWellFormedEntries entries
      inferInstanceAs (Decidable (NulFree key ∧ WellFormed value ∧ WellFormedEntries entries))
termination_by structural entries => entries

end

instance (value : JsonValue δ) : Decidable (WellFormed value) :=
  decidableWellFormed value

mutual

def decidableNumberFree : (value : JsonValue δ) → Decidable (NumberFree value)
  | .null | .boolean _ | .integer _ | .string _ => isTrue trivial
  | .number _ => isFalse id
  | .array items => decidableNumberFreeItems items
  | .object entries => decidableNumberFreeEntries entries
termination_by structural value => value

def decidableNumberFreeItems :
    (items : List (JsonValue δ)) → Decidable (NumberFreeItems items)
  | [] => isTrue trivial
  | item :: items =>
      letI := decidableNumberFree item
      letI := decidableNumberFreeItems items
      inferInstanceAs (Decidable (NumberFree item ∧ NumberFreeItems items))
termination_by structural items => items

def decidableNumberFreeEntries :
    (entries : List (Bytes × JsonValue δ)) → Decidable (NumberFreeEntries entries)
  | [] => isTrue trivial
  | (_, value) :: entries =>
      letI := decidableNumberFree value
      letI := decidableNumberFreeEntries entries
      inferInstanceAs (Decidable (NumberFree value ∧ NumberFreeEntries entries))
termination_by structural entries => entries

end

instance (value : JsonValue δ) : Decidable (NumberFree value) :=
  decidableNumberFree value

theorem wellFormedItems_iff {items : List (JsonValue δ)} :
    WellFormedItems items ↔ ∀ item ∈ items, WellFormed item := by
  induction items with
  | nil => simp [WellFormedItems]
  | cons item items ih => simp [WellFormedItems, ih]

theorem wellFormedEntries_iff {entries : List (Bytes × JsonValue δ)} :
    WellFormedEntries entries ↔
      ∀ entry ∈ entries, NulFree entry.1 ∧ WellFormed entry.2 := by
  induction entries with
  | nil => simp [WellFormedEntries]
  | cons entry entries ih =>
      obtain ⟨key, value⟩ := entry
      simp [WellFormedEntries, ih, and_assoc]

mutual

theorem jsonClone_eq_self : ∀ {value : JsonValue δ}, WellFormed value → jsonClone value = value
  | .null, _ | .boolean _, _ | .number _, _ | .integer _, _ | .string _, _ => rfl
  | .array items, wellFormed => by
      rw [jsonClone, jsonCloneItems_eq_self wellFormed]
  | .object entries, ⟨distinct, wellFormed⟩ => by
      rw [jsonClone, jsonCloneEntries_eq_append wellFormed [] distinct]
      rfl

theorem jsonCloneItems_eq_self :
    ∀ {items : List (JsonValue δ)}, WellFormedItems items → jsonCloneItems items = items
  | [], _ => rfl
  | item :: items, ⟨headWellFormed, tailWellFormed⟩ => by
      rw [jsonCloneItems, jsonClone_eq_self headWellFormed,
        jsonCloneItems_eq_self tailWellFormed]

theorem jsonCloneEntries_eq_append :
    ∀ {entries : List (Bytes × JsonValue δ)}, WellFormedEntries entries →
      ∀ cloned, (entryKeys (cloned ++ entries)).Nodup →
        jsonCloneEntries cloned entries = cloned ++ entries
  | [], _ => by
      intro cloned _
      rw [jsonCloneEntries, List.append_nil]
  | (key, value) :: entries, ⟨_, headWellFormed, tailWellFormed⟩ => by
      intro cloned distinct
      have fresh : key ∉ entryKeys cloned := by
        intro member
        rw [entryKeys, List.map_append, List.nodup_append] at distinct
        exact distinct.2.2 key member key (by simp) rfl
      rw [jsonCloneEntries, jsonClone_eq_self headWellFormed, setEntry_of_not_mem fresh,
        jsonCloneEntries_eq_append tailWellFormed]
      · rw [List.append_assoc, List.singleton_append]
      · rwa [List.append_assoc, List.singleton_append]

end

mutual

theorem jsonEquals_self [CDouble δ] :
    ∀ {value : JsonValue δ}, WellFormed value → NumberFree value →
      jsonEquals value value = true
  | .null, _, _ => rfl
  | .boolean _, _, _ | .integer _, _, _ | .string _, _, _ => by
      simp [jsonEquals]
  | .array items, wellFormed, numberFree => by
      rw [jsonEquals, jsonEqualsItems_self wellFormed numberFree]
      simp
  | .object entries, ⟨distinct, wellFormed⟩, numberFree => by
      rw [jsonEquals, jsonEqualsEntries_of_mem wellFormed numberFree]
      · simp
      · exact fun key value member => getEntry_eq_some_of_mem distinct member

theorem jsonEqualsItems_self [CDouble δ] :
    ∀ {items : List (JsonValue δ)}, WellFormedItems items → NumberFreeItems items →
      jsonEqualsItems items items = true
  | [], _, _ => rfl
  | item :: items, ⟨headWellFormed, tailWellFormed⟩, ⟨headFree, tailFree⟩ => by
      rw [jsonEqualsItems, jsonEquals_self headWellFormed headFree,
        jsonEqualsItems_self tailWellFormed tailFree]
      rfl

theorem jsonEqualsEntries_of_mem [CDouble δ] :
    ∀ {entries : List (Bytes × JsonValue δ)}, WellFormedEntries entries →
      NumberFreeEntries entries → ∀ (others : List (Bytes × JsonValue δ)),
      (∀ key value, (key, value) ∈ entries → getEntry key others = some value) →
        jsonEqualsEntries entries others = true
  | [], _, _ => by
      intro others _
      rfl
  | (key, value) :: entries, ⟨_, headWellFormed, tailWellFormed⟩, ⟨headFree, tailFree⟩ => by
      intro others found
      have tailFound : ∀ key value, (key, value) ∈ entries → getEntry key others = some value :=
        fun key value member => found key value (List.mem_cons_of_mem _ member)
      rw [jsonEqualsEntries, found key value List.mem_cons_self,
        jsonEqualsEntries_of_mem tailWellFormed tailFree others tailFound]
      simpa using jsonEquals_self headWellFormed headFree

end

end WellFormed

end Jdbx
