import Jdbx.Query.QueryLanguage

/-!
# The meaning of a query

`QuerySatisfied` says what a query means for a document, entry by entry, and is
independent of the expression trees.  A comparison of a field with a value is
the one of `match_comparison_operator` on the field that the dotted path names.
-/

namespace Jdbx

open Library

def operatorNamed (name : Bytes) : Option QueryOperator :=
  getEntry name operators

theorem probeOperator_eq_field_or_mem (table : OperatorTable) (name : Bytes)
    (probes index : Nat) :
    probeOperator table name probes index = .opField ∨
      some (name, probeOperator table name probes index) ∈ table := by
  induction probes generalizing index with
  | zero => exact Or.inl rfl
  | succ probes ih =>
      rw [probeOperator]
      split
      · exact Or.inl rfl
      · rename_i stored operator found
        split
        · rename_i same
          right
          have slot : table[index]? = some (some (stored, operator)) :=
            Option.join_eq_some_iff.mp found
          rw [← same]
          exact List.mem_of_getElem? slot
        · exact ih _

theorem mem_operators_of_mem_table :
    ∀ slot ∈ operatorHashTable, ∀ entry ∈ slot, entry ∈ operators := by
  decide +kernel

theorem queryParseOperator_of_mem :
    ∀ entry ∈ operators, queryParseOperator entry.1 = entry.2 := by
  decide +kernel

theorem queryParseOperator_eq (name : Bytes) :
    queryParseOperator name = (operatorNamed name).getD .opField := by
  cases found : operatorNamed name with
  | none =>
      rcases probeOperator_eq_field_or_mem operatorHashTable name operatorHashSize
          (hashOperatorName name) with field | stored
      · exact field
      · have member := mem_operators_of_mem_table _ stored _ rfl
        have missing : name ∉ entryKeys operators := getEntry_eq_none_iff.mp found
        exact absurd (List.mem_map_of_mem member) missing
  | some operator =>
      exact queryParseOperator_of_mem (name, operator) (mem_of_getEntry_eq_some found)

theorem operators_name :
    ∀ entry ∈ operators, isOperatorKey entry.1 = true ∧ 46 ∉ entry.1 ∧
      entry.2 ≠ .opField ∧ entry.2 ≠ .opRoot := by
  decide +kernel

def logicalNamed (name : Bytes) : Option QueryOperator :=
  (operatorNamed name).filter isLogical

theorem isLogicalKey_eq (key : Bytes) : isLogicalKey key = (logicalNamed key).isSome := by
  rw [isLogicalKey, logicalNamed, queryParseOperator_eq]
  cases found : operatorNamed key with
  | none => simp [isLogical]
  | some operator =>
      have name := operators_name _ (mem_of_getEntry_eq_some found)
      cases logical : isLogical operator <;> simp [name.1, logical, Option.filter]

theorem logicalNamed_path (path key : Bytes) : logicalNamed (path ++ 46 :: key) = none := by
  cases found : operatorNamed (path ++ 46 :: key) with
  | none => simp [logicalNamed, found]
  | some operator =>
      have name := operators_name _ (mem_of_getEntry_eq_some found)
      exact absurd (by simp) name.2.1

section Meaning

variable {δ : Type} [CDouble δ]

def FieldCompares (document : JsonValue δ) (path : Bytes) (op : QueryOperator)
    (value : JsonValue δ) : Prop :=
  matchComparisonOperator op (queryExtractField document path) value = true

def combination (op : QueryOperator) (all any : Prop) : Prop :=
  match op with
  | .opAnd => all
  | .opOr => any
  | .opNor => ¬ any
  | _ => False

mutual

def FilterHolds (document : JsonValue δ) : JsonValue δ → Prop
  | .object entries => EntriesHold document entries
  | _ => False
termination_by structural filter => filter

def EntriesHold (document : JsonValue δ) : List (Bytes × JsonValue δ) → Prop
  | [] => True
  | (key, value) :: entries => EntryHolds document key value ∧ EntriesHold document entries
termination_by structural entries => entries

def AllFiltersHold (document : JsonValue δ) : List (JsonValue δ) → Prop
  | [] => True
  | filter :: filters => FilterHolds document filter ∧ AllFiltersHold document filters
termination_by structural filters => filters

def AnyFilterHolds (document : JsonValue δ) : List (JsonValue δ) → Prop
  | [] => False
  | filter :: filters => FilterHolds document filter ∨ AnyFilterHolds document filters
termination_by structural filters => filters

/-- An entry: a logical operator on its operand, or a field with a plain value,
an operator object or a nested document. -/
def EntryHolds (document : JsonValue δ) (key : Bytes) : JsonValue δ → Prop
  | .array items =>
      match logicalNamed key with
      | some op => combination op (AllFiltersHold document items) (AnyFilterHolds document items)
      | none => FieldCompares document key .opEq (.array items)
  | .object entries =>
      match logicalNamed key with
      | some op => op = .opNot ∧ ¬ EntriesHold document entries
      | none =>
          if entries = [] then FieldCompares document key .opEq (.object entries)
          else FieldEntriesHold document key entries
  | value => logicalNamed key = none ∧ FieldCompares document key .opEq value
termination_by structural value => value

/-- An operator object is the conjunction of its operators, a nested document
the conjunction of its fields by dotted path. -/
def FieldEntriesHold (document : JsonValue δ) (path : Bytes) :
    List (Bytes × JsonValue δ) → Prop
  | [] => True
  | (key, value) :: entries =>
      (if isOperatorKey key then OperatorHolds document path key value
        else EntryHolds document (path ++ 46 :: key) value) ∧
        FieldEntriesHold document path entries
termination_by structural entries => entries

def OperatorHolds (document : JsonValue δ) (path name : Bytes) : JsonValue δ → Prop
  | .array items =>
      match operatorNamed name with
      | none => False
      | some .opElemMatch => False
      | some op =>
          if isLogical op then
            combination op (AllFiltersHold document items) (AnyFilterHolds document items)
          else FieldCompares document path op (.array items)
  | .object entries =>
      match operatorNamed name with
      | none => False
      | some .opNot =>
          ¬ (if entries = [] then FieldCompares document path .opEq (.object entries)
            else FieldEntriesHold document path entries)
      | some .opElemMatch =>
          ∃ items element, queryExtractField document path = some (.array items) ∧
            .object element ∈ items ∧ EntriesHold (.object element) entries
      | some op => isLogical op = false ∧ FieldCompares document path op (.object entries)
  | value =>
      match operatorNamed name with
      | none => False
      | some .opElemMatch => False
      | some op => isLogical op = false ∧ FieldCompares document path op value
termination_by structural value => value

end

/-- A document satisfies a query, given on its own or under `query` beside the
options. -/
def QuerySatisfied (document query : JsonValue δ) : Prop :=
  match jsonObjectGet query (ascii "query") with
  | some filter => FilterHolds document filter
  | none => FilterHolds document query

end Meaning

end Jdbx
