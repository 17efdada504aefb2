import Jdbx.Utils.JsonParse

/-!
# Deep copies

`json_deep_copy` gives up below 100 levels.  `json_parse` reads at most 20, so
that the copy of a parsed value is the value.
-/

namespace Jdbx

open Library

variable {δ : Type}

/-- `MAX_RECURSION_DEPTH` of json_deep_copy.c. -/
def maxRecursionDepth : Nat := 100

/-- `json_deep_copy_internal_safe` with `levels` levels left. -/
def jsonDeepCopyInternalSafe : Nat → JsonValue δ → JsonValue δ
  | 0, _ => .null
  | levels + 1, .array items => .array (items.map (jsonDeepCopyInternalSafe levels))
  | levels + 1, .object entries =>
      .object (entries.foldl
        (fun copied entry => setEntry entry.1 (jsonDeepCopyInternalSafe levels entry.2) copied) [])
  | _ + 1, scalar => scalar

def jsonDeepCopy (value : JsonValue δ) : JsonValue δ :=
  jsonDeepCopyInternalSafe (maxRecursionDepth + 1) value

/-- At most `levels` levels deep, and the keys of every object are distinct. -/
def Copyable : Nat → JsonValue δ → Prop
  | 0, _ => False
  | levels + 1, .array items => ∀ item ∈ items, Copyable levels item
  | levels + 1, .object entries =>
      (entryKeys entries).Nodup ∧ ∀ entry ∈ entries, Copyable levels entry.2
  | _ + 1, _ => True

theorem Copyable.succ : ∀ {levels : Nat} {value : JsonValue δ},
    Copyable levels value → Copyable (levels + 1) value := by
  intro levels
  induction levels with
  | zero =>
      intro value copyable
      exact copyable.elim
  | succ levels ih =>
      intro value copyable
      cases value with
      | array items => exact fun item member => ih (copyable item member)
      | object entries => exact ⟨copyable.1, fun entry member => ih (copyable.2 entry member)⟩
      | null | boolean _ | number _ | integer _ | string _ => trivial

theorem Copyable.mono {levels more : Nat} {value : JsonValue δ} (enough : levels ≤ more)
    (copyable : Copyable levels value) : Copyable more value := by
  induction enough with
  | refl => exact copyable
  | step _ ih => exact ih.succ

theorem Copyable.set {levels : Nat} {object value : JsonValue δ}
    (copyable : Copyable (levels + 1) object) (flat : Copyable levels value) (key : Bytes) :
    Copyable (levels + 1) (jsonObjectSet object key value) := by
  cases object with
  | object entries =>
      refine ⟨entryKeys_setEntry_nodup copyable.1 _ _, fun entry member => ?_⟩
      rcases mem_setEntry member with same | old
      · rw [same]
        exact flat
      · exact copyable.2 entry old
  | null | boolean _ | number _ | integer _ | string _ | array _ => exact copyable

theorem jsonDeepCopyInternalSafe_eq_self : ∀ {levels : Nat} {value : JsonValue δ},
    Copyable levels value → jsonDeepCopyInternalSafe levels value = value := by
  intro levels
  induction levels with
  | zero =>
      intro value copyable
      exact copyable.elim
  | succ levels ih =>
      intro value copyable
      cases value with
      | array items =>
          have copies : items.map (jsonDeepCopyInternalSafe levels) = items.map id :=
            List.map_congr_left fun item member => ih (copyable item member)
          rw [jsonDeepCopyInternalSafe, copies, List.map_id]
      | object entries =>
          have copies : entries.map (fun entry =>
              (entry.1, jsonDeepCopyInternalSafe levels entry.2)) = entries.map id :=
            List.map_congr_left fun entry member => by
              rw [ih (copyable.2 entry member)]
              rfl
          have folded := foldl_setEntry_of_nodup
            (entries.map fun entry => (entry.1, jsonDeepCopyInternalSafe levels entry.2)) []
            (by simpa [copies] using copyable.1)
          rw [List.foldl_map, copies, List.map_id, List.nil_append] at folded
          rw [jsonDeepCopyInternalSafe, folded]
      | null | boolean _ | number _ | integer _ | string _ => rfl

theorem jsonDeepCopy_eq_self {levels : Nat} {value : JsonValue δ}
    (shallow : levels ≤ maxRecursionDepth + 1) (copyable : Copyable levels value) :
    jsonDeepCopy value = value :=
  jsonDeepCopyInternalSafe_eq_self (copyable.mono shallow)

theorem jsonDeepCopy_object (entries : List (Bytes × JsonValue δ)) :
    ∃ copied, jsonDeepCopy (.object entries) = .object copied ∧ (entryKeys copied).Nodup := by
  have distinct : ∀ copied : List (Bytes × JsonValue δ), (entryKeys copied).Nodup →
      (entryKeys (entries.foldl (fun copied entry =>
        setEntry entry.1 (jsonDeepCopyInternalSafe maxRecursionDepth entry.2) copied)
          copied)).Nodup := by
    induction entries with
    | nil => exact fun _ held => held
    | cons entry entries ih => exact fun _ held => ih _ (entryKeys_setEntry_nodup held _ _)
  exact ⟨_, rfl, distinct [] List.nodup_nil⟩

theorem jsonObjectGet_jsonDeepCopy {entries : List (Bytes × JsonValue δ)}
    (distinct : (entryKeys entries).Nodup) (key : Bytes) :
    jsonObjectGet (jsonDeepCopy (.object entries)) key =
      (getEntry key entries).map (jsonDeepCopyInternalSafe maxRecursionDepth) := by
  have folded := foldl_setEntry_of_nodup
    (entries.map fun entry => (entry.1, jsonDeepCopyInternalSafe maxRecursionDepth entry.2)) []
    (by simpa [entryKeys, Function.comp_def] using distinct)
  rw [List.foldl_map, List.nil_append] at folded
  rw [jsonDeepCopy, jsonDeepCopyInternalSafe, jsonObjectGet, folded]
  exact getEntry_map_value _ key entries

theorem jsonCloneItems_eq_map (items : List (JsonValue δ)) :
    jsonCloneItems items = items.map jsonClone := by
  induction items with
  | nil => rfl
  | cons item items ih => rw [jsonCloneItems, ih, List.map_cons]

theorem jsonCloneEntries_eq_foldl (entries : List (Bytes × JsonValue δ)) :
    ∀ cloned, jsonCloneEntries cloned entries =
      entries.foldl (fun cloned entry => setEntry entry.1 (jsonClone entry.2) cloned) cloned := by
  induction entries with
  | nil =>
      intro cloned
      rfl
  | cons entry entries ih =>
      intro cloned
      rw [jsonCloneEntries, ih, List.foldl_cons]

theorem jsonClone_eq_self_of_copyable : ∀ {levels : Nat} {value : JsonValue δ},
    Copyable levels value → jsonClone value = value := by
  intro levels
  induction levels with
  | zero =>
      intro value copyable
      exact copyable.elim
  | succ levels ih =>
      intro value copyable
      cases value with
      | array items =>
          have clones : items.map jsonClone = items.map id :=
            List.map_congr_left fun item member => ih (copyable item member)
          rw [jsonClone, jsonCloneItems_eq_map, clones, List.map_id]
      | object entries =>
          have clones : entries.map (fun entry => (entry.1, jsonClone entry.2)) =
              entries.map id :=
            List.map_congr_left fun entry member => by
              rw [ih (copyable.2 entry member)]
              rfl
          have folded := foldl_setEntry_of_nodup
            (entries.map fun entry => (entry.1, jsonClone entry.2)) []
            (by simpa [clones] using copyable.1)
          rw [List.foldl_map, clones, List.map_id, List.nil_append] at folded
          rw [jsonClone, jsonCloneEntries_eq_foldl, folded]
      | null | boolean _ | number _ | integer _ | string _ => rfl

section Parsed

variable [CDouble δ]

theorem parseScalar_copyable {text rest : Bytes} {value : JsonValue δ}
    (parsed : parseScalar text = some (value, rest)) (levels : Nat) :
    Copyable (levels + 1) value := by
  unfold parseScalar at parsed
  split at parsed
  · exact absurd parsed (by simp)
  · rename_i byte tail
    split_ifs at parsed with quote isTrue isFalse isNull digit
    · obtain ⟨result, _, equal⟩ := Option.map_eq_some_iff.mp parsed
      cases equal
      trivial
    all_goals
      cases parsed
    iterate 3
      trivial
    split_ifs <;> trivial

omit [CDouble δ] in
theorem objectOfMembers_copyable {levels : Nat} {members : List (Bytes × JsonValue δ)}
    (copyable : ∀ member ∈ members, Copyable levels member.2) :
    Copyable (levels + 1) (.object (objectOfMembers members)) := by
  have loop : ∀ (members : List (Bytes × JsonValue δ)) (entries : List (Bytes × JsonValue δ)),
      (∀ member ∈ members, Copyable levels member.2) →
        Copyable (levels + 1) (.object entries) →
          Copyable (levels + 1) (.object (members.foldl
            (fun entries member => setEntry member.1 member.2 entries) entries)) := by
    intro members
    induction members with
    | nil =>
        intro entries _ before
        exact before
    | cons member members ih =>
        intro entries copyable before
        apply ih
        · exact fun other inTail => copyable other (List.mem_cons_of_mem _ inTail)
        · exact before.set (copyable member List.mem_cons_self) member.1
  exact loop members [] copyable ⟨List.nodup_nil, by simp⟩

omit [CDouble δ] in
theorem parseMember_copyable {levels : Nat}
    {parseValue : Bytes → Option (JsonValue δ × Bytes)}
    (reads : ∀ text value rest, parseValue text = some (value, rest) → Copyable levels value)
    {text rest : Bytes} {member : Bytes × JsonValue δ}
    (parsed : parseMember parseValue text = some (member, rest)) :
    Copyable levels member.2 := by
  unfold parseMember at parsed
  split at parsed
  · exact absurd parsed (by simp)
  · split at parsed
    · obtain ⟨result, valueParsed, equal⟩ := Option.map_eq_some_iff.mp parsed
      cases equal
      exact reads _ _ _ valueParsed
    · exact absurd parsed (by simp)

mutual

theorem parseValueWithDepth_copyable :
    ∀ (levels : Nat) (text : Bytes) (value : JsonValue δ) (rest : Bytes),
      parseValueWithDepth levels text = some (value, rest) → Copyable levels value
  | 0, _, _, _, parsed => by
      exact absurd parsed (by simp [parseValueWithDepth])
  | levels + 1, text, value, rest, parsed => by
      rw [parseValueWithDepth] at parsed
      split at parsed
      · exact (parseObjectWithDepth_copyable levels _ value rest parsed).succ
      · exact (parseArrayWithDepth_copyable levels _ value rest parsed).succ
      · exact parseScalar_copyable parsed levels

theorem parseObjectWithDepth_copyable :
    ∀ (levels : Nat) (text : Bytes) (value : JsonValue δ) (rest : Bytes),
      parseObjectWithDepth levels text = some (value, rest) → Copyable levels value
  | 0, _, _, _, parsed => by
      exact absurd parsed (by simp [parseObjectWithDepth])
  | levels + 1, text, value, rest, parsed => by
      rw [parseObjectWithDepth] at parsed
      split at parsed
      · cases parsed
        exact ⟨List.nodup_nil, by simp⟩
      · obtain ⟨result, loop, equal⟩ := Option.map_eq_some_iff.mp parsed
        cases equal
        apply objectOfMembers_copyable
        exact parseDelimited_forall (fun _ _ _ => parseMember_copyable fun text value rest =>
          parseValueWithDepth_copyable levels text value rest) _ _ _ _ loop

theorem parseArrayWithDepth_copyable :
    ∀ (levels : Nat) (text : Bytes) (value : JsonValue δ) (rest : Bytes),
      parseArrayWithDepth levels text = some (value, rest) → Copyable levels value
  | 0, _, _, _, parsed => by
      exact absurd parsed (by simp [parseArrayWithDepth])
  | levels + 1, text, value, rest, parsed => by
      rw [parseArrayWithDepth] at parsed
      split at parsed
      · cases parsed
        exact fun item member => absurd member List.not_mem_nil
      · obtain ⟨result, loop, equal⟩ := Option.map_eq_some_iff.mp parsed
        cases equal
        exact parseDelimited_forall (fun text value rest =>
          parseValueWithDepth_copyable levels text value rest) _ _ _ _ loop

end

theorem jsonParse_copyable {text : Bytes} {value : JsonValue δ}
    (parsed : jsonParse text = some value) : Copyable (maxJsonRecursionDepth + 1) value := by
  rw [jsonParse] at parsed
  split_ifs at parsed
  obtain ⟨result, valueParsed, rfl⟩ := Option.map_eq_some_iff.mp parsed
  exact parseValueWithDepth_copyable _ _ _ _ valueParsed

end Parsed

end Jdbx
