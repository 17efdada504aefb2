import Jdbx.Utils.JsonRoundTrip
import Mathlib.Data.List.Forall2
import Mathlib.Data.List.Perm.Subperm
import Mathlib.Logic.Relation

/-!
# Equality of JSON values

Two values are the same up to the order of the members of their objects.  `json_equals` decides
this for values without doubles whose objects have distinct keys.
-/

namespace Jdbx

open Library List

section Related

variable {α β γ : Type}

theorem forall₂_swap_of_mem {related : α → β → Prop} {back : β → α → Prop} {items : List α}
    {others : List β} (swaps : ∀ item ∈ items, ∀ other, related item other → back other item)
    (all : Forall₂ related items others) : Forall₂ back others items := by
  induction all with
  | nil => exact .nil
  | cons first _ ih =>
      refine .cons (swaps _ mem_cons_self _ first) (ih ?_)
      exact fun item member => swaps item (mem_cons_of_mem _ member)

theorem forall₂_trans_of_mem {first : α → β → Prop} {second : β → γ → Prop} {both : α → γ → Prop}
    {items : List α} {others : List β} {last : List γ}
    (composes : ∀ item ∈ items, ∀ other third, first item other → second other third →
      both item third)
    (one : Forall₂ first items others) (two : Forall₂ second others last) :
    Forall₂ both items last := by
  induction one generalizing last with
  | nil =>
      cases two
      exact .nil
  | cons head _ ih =>
      cases two with
      | cons head' tail =>
          refine .cons (composes _ mem_cons_self _ _ head head') (ih ?_ tail)
          exact fun item member => composes item (mem_cons_of_mem _ member)

variable {κ ν ω : Type} [DecidableEq κ] {related : ν → ω → Prop} {entries : List (κ × ν)}
  {others : List (κ × ω)}

def SameKey (related : ν → ω → Prop) (entry : κ × ν) (other : κ × ω) : Prop :=
  entry.1 = other.1 ∧ related entry.2 other.2

def Arranged (related : ν → ω → Prop) (entries : List (κ × ν)) (others : List (κ × ω)) : Prop :=
  ∃ arranged, Forall₂ (SameKey related) entries arranged ∧ arranged.Perm others

theorem exists_arranged
    (found : ∀ entry ∈ entries, ∃ other, getEntry entry.1 others = some other ∧
      related entry.2 other) :
    ∃ arranged, Forall₂ (SameKey related) entries arranged ∧ arranged ⊆ others := by
  induction entries with
  | nil => exact ⟨[], .nil, nil_subset others⟩
  | cons entry entries ih =>
      obtain ⟨arranged, all, inside⟩ := ih fun other member =>
        found other (mem_cons_of_mem entry member)
      obtain ⟨other, isOther, holds⟩ := found entry mem_cons_self
      refine ⟨(entry.1, other) :: arranged, .cons ⟨rfl, holds⟩ all, ?_⟩
      exact cons_subset.mpr ⟨mem_of_getEntry_eq_some isOther, inside⟩

omit [DecidableEq κ] in
theorem entryKeys_of_forall₂ {arranged : List (κ × ω)}
    (all : Forall₂ (SameKey related) entries arranged) :
    entryKeys entries = entryKeys arranged := by
  induction all with
  | nil => rfl
  | cons first _ ih =>
      rw [entryKeys, entryKeys, map_cons, map_cons, first.1]
      exact congrArg _ ih

theorem arranged_iff (distinct : (entryKeys entries).Nodup)
    (othersDistinct : (entryKeys others).Nodup) :
    Arranged related entries others ↔ entries.length = others.length ∧
      ∀ entry ∈ entries, ∃ other, getEntry entry.1 others = some other ∧
        related entry.2 other := by
  constructor
  · rintro ⟨arranged, all, permuted⟩
    refine ⟨all.length_eq.trans permuted.length_eq, fun entry member => ?_⟩
    obtain ⟨other, isArranged, sameKey, holds⟩ :
        ∃ other ∈ arranged, SameKey related entry other := by
      clear permuted
      induction all with
      | nil => cases member
      | cons first _ ih =>
          rcases mem_cons.mp member with rfl | member
          · exact ⟨_, mem_cons_self, first⟩
          · rw [entryKeys, map_cons, nodup_cons] at distinct
            obtain ⟨other, isRest, holds⟩ := ih distinct.2 member
            exact ⟨other, mem_cons_of_mem _ isRest, holds⟩
    refine ⟨other.2, ?_, holds⟩
    rw [sameKey]
    exact getEntry_eq_some_of_mem othersDistinct (permuted.mem_iff.mp isArranged)
  · rintro ⟨sameLength, found⟩
    obtain ⟨arranged, all, inside⟩ := exists_arranged found
    rw [entryKeys_of_forall₂ all] at distinct
    have part := subperm_of_subset (Nodup.of_map _ distinct) inside
    refine ⟨arranged, all, part.perm_of_length_le ?_⟩
    rw [← sameLength, all.length_eq]

omit [DecidableEq κ] in
theorem Arranged.swap {back : ω → ν → Prop} (arranged : Arranged related entries others)
    (swaps : ∀ entry ∈ entries, ∀ other, related entry.2 other → back other entry.2) :
    Arranged back others entries := by
  obtain ⟨middle, all, permuted⟩ := arranged
  have swapped : Forall₂ (SameKey back) middle entries :=
    forall₂_swap_of_mem (fun entry member other same =>
      ⟨same.1.symm, swaps entry member other.2 same.2⟩) all
  exact perm_comp_forall₂ permuted.symm swapped

omit [DecidableEq κ] in
theorem Arranged.trans {related : ν → ν → Prop} {entries others last : List (κ × ν)}
    (one : Arranged related entries others) (two : Arranged related others last)
    (composes : ∀ entry ∈ entries, ∀ other third, related entry.2 other → related other third →
      related entry.2 third) : Arranged related entries last := by
  obtain ⟨middle, all, permuted⟩ := one
  obtain ⟨middle', all', permuted'⟩ := two
  obtain ⟨arranged, beside, reordered⟩ := perm_comp_forall₂ permuted all'
  refine ⟨arranged, ?_, reordered.trans permuted'⟩
  exact forall₂_trans_of_mem (fun entry member other third same sameToo =>
    ⟨same.1.trans sameToo.1, composes entry member other.2 third.2 same.2 sameToo.2⟩) all beside

end Related

/-! ## The same value -/

section Values

variable {δ : Type} {entries others : List (Bytes × JsonValue δ)} {value : JsonValue δ}

theorem JsonValue.members_induction {motive : JsonValue δ → Prop}
    (scalar : ∀ value, (∀ items, value ≠ .array items) → (∀ entries, value ≠ .object entries) →
      motive value)
    (array : ∀ items, (∀ item ∈ items, motive item) → motive (.array items))
    (object : ∀ entries, (∀ entry ∈ entries, motive entry.2) → motive (.object entries)) :
    ∀ value, motive value
  | .array items => array items fun item _ => members_induction scalar array object item
  | .object entries => object entries fun entry _ => members_induction scalar array object entry.2
  | .null | .boolean _ | .number _ | .integer _ | .string _ => scalar _ nofun nofun
termination_by value => sizeOf value
decreasing_by
  · rename_i member
    have smaller := sizeOf_lt_of_mem member
    simp only [JsonValue.array.sizeOf_spec]
    omega
  · rename_i member
    have smaller := sizeOf_lt_of_mem member
    have part : sizeOf entry.2 < sizeOf entry := by
      cases entry
      simp only [Prod.mk.sizeOf_spec]
      omega
    simp only [JsonValue.object.sizeOf_spec]
    omega

mutual

def SameValue : JsonValue δ → JsonValue δ → Prop
  | .array items, .array others => SameItems items others
  | .object entries, .object others =>
      ∃ arranged : List (Bytes × JsonValue δ), SameEntries entries arranged ∧
        arranged.Perm others
  | .null, .null => True
  | .boolean boolean, .boolean other => boolean = other
  | .number number, .number other => number = other
  | .integer integer, .integer other => integer = other
  | .string string, .string other => string = other
  | _, _ => False
termination_by structural value => value

def SameItems : List (JsonValue δ) → List (JsonValue δ) → Prop
  | [], [] => True
  | item :: items, other :: others => SameValue item other ∧ SameItems items others
  | _, _ => False
termination_by structural items => items

def SameEntries : List (Bytes × JsonValue δ) → List (Bytes × JsonValue δ) → Prop
  | [], [] => True
  | (key, value) :: entries, (otherKey, other) :: others =>
      key = otherKey ∧ SameValue value other ∧ SameEntries entries others
  | _, _ => False
termination_by structural entries => entries

end

attribute [grind =] SameValue SameItems SameEntries

theorem sameItems_iff {items others : List (JsonValue δ)} :
    SameItems items others ↔ Forall₂ SameValue items others := by
  induction items generalizing others with
  | nil => cases others <;> simp [SameItems]
  | cons item items ih =>
      cases others with
      | nil => simp [SameItems]
      | cons other others => rw [SameItems, forall₂_cons, ih]

theorem sameEntries_iff :
    SameEntries entries others ↔ Forall₂ (SameKey SameValue) entries others := by
  induction entries generalizing others with
  | nil => cases others <;> simp [SameEntries]
  | cons entry entries ih =>
      cases others with
      | nil => simp [SameEntries]
      | cons other others => rw [SameEntries, forall₂_cons, ih, SameKey, and_assoc]

theorem sameValue_array {items others : List (JsonValue δ)} :
    SameValue (.array items) (.array others) ↔ Forall₂ SameValue items others := by
  rw [SameValue, sameItems_iff]

theorem sameValue_object :
    SameValue (.object entries) (.object others) ↔ Arranged SameValue entries others := by
  simp only [SameValue, sameEntries_iff, Arranged]

theorem SameValue.array_left {items : List (JsonValue δ)} (same : SameValue (.array items) value) :
    ∃ others, value = .array others ∧ Forall₂ SameValue items others := by
  cases value with
  | array others => exact ⟨others, rfl, sameValue_array.mp same⟩
  | null | boolean _ | number _ | integer _ | string _ | object _ => cases same

theorem SameValue.object_left {entries : List (Bytes × JsonValue δ)}
    (same : SameValue (.object entries) value) :
    ∃ others, value = .object others ∧ Arranged SameValue entries others := by
  cases value with
  | object others => exact ⟨others, rfl, sameValue_object.mp same⟩
  | null | boolean _ | number _ | integer _ | string _ | array _ => cases same

theorem sameValue_scalar (noArray : ∀ items, value ≠ .array items)
    (noObject : ∀ entries, value ≠ .object entries) (other : JsonValue δ) :
    SameValue value other ↔ value = other := by
  cases value with
  | array items => exact absurd rfl (noArray items)
  | object entries => exact absurd rfl (noObject entries)
  | null | boolean _ | number _ | integer _ | string _ => cases other <;> simp [SameValue]

theorem SameValue.refl (value : JsonValue δ) : SameValue value value := by
  induction value using JsonValue.members_induction with
  | scalar value noArray noObject => exact (sameValue_scalar noArray noObject value).mpr rfl
  | array items each => exact sameValue_array.mpr (forall₂_same.mpr each)
  | object entries each =>
      refine sameValue_object.mpr ⟨entries, forall₂_same.mpr ?_, .refl entries⟩
      exact fun entry member => ⟨rfl, each entry member⟩

theorem SameValue.symm {value other : JsonValue δ} (same : SameValue value other) :
    SameValue other value := by
  induction value using JsonValue.members_induction generalizing other with
  | scalar value noArray noObject =>
      rw [sameValue_scalar noArray noObject] at same
      exact same ▸ .refl value
  | array items each =>
      obtain ⟨others, rfl, all⟩ := same.array_left
      exact sameValue_array.mpr
        (forall₂_swap_of_mem (fun item member _ holds => each item member holds) all)
  | object entries each =>
      obtain ⟨others, rfl, arranged⟩ := same.object_left
      exact sameValue_object.mpr (arranged.swap fun entry member _ holds => each entry member holds)

theorem SameValue.trans {value other third : JsonValue δ} (one : SameValue value other)
    (two : SameValue other third) : SameValue value third := by
  induction value using JsonValue.members_induction generalizing other third with
  | scalar value noArray noObject =>
      rw [sameValue_scalar noArray noObject] at one
      exact one ▸ two
  | array items each =>
      obtain ⟨others, rfl, all⟩ := one.array_left
      obtain ⟨last, rfl, all'⟩ := two.array_left
      refine sameValue_array.mpr (forall₂_trans_of_mem ?_ all all')
      exact fun item member _ _ holds holds' => each item member holds holds'
  | object entries each =>
      obtain ⟨others, rfl, arranged⟩ := one.object_left
      obtain ⟨last, rfl, arranged'⟩ := two.object_left
      exact sameValue_object.mpr (arranged.trans arranged'
        fun entry member _ _ holds holds' => each entry member holds holds')

end Values

/-! ## What the comparison decides -/

section Comparison

variable {δ : Type} [CDouble δ]

theorem jsonEqualsItems_iff {items others : List (JsonValue δ)} :
    items.length = others.length ∧ jsonEqualsItems items others = true ↔
      Forall₂ (fun item other => jsonEquals item other = true) items others := by
  induction items generalizing others with
  | nil => cases others <;> simp [jsonEqualsItems]
  | cons item items ih =>
      cases others with
      | nil => simp [jsonEqualsItems]
      | cons other others =>
          rw [forall₂_cons, ← ih, jsonEqualsItems, length_cons, length_cons,
            Nat.add_right_cancel_iff, Bool.and_eq_true, and_left_comm]

theorem jsonEqualsEntries_iff {entries others : List (Bytes × JsonValue δ)} :
    jsonEqualsEntries entries others = true ↔ ∀ entry ∈ entries,
      ∃ other, getEntry entry.1 others = some other ∧ jsonEquals entry.2 other = true := by
  induction entries with
  | nil => simp [jsonEqualsEntries]
  | cons entry entries ih =>
      rw [jsonEqualsEntries, Bool.and_eq_true, ih, forall_mem_cons]
      refine and_congr_left' ?_
      cases getEntry entry.1 others <;> simp

theorem forall₂_congr_of_mem {α β : Type} {first second : α → β → Prop} {items : List α}
    {others : List β}
    (same : ∀ item ∈ items, ∀ other ∈ others, first item other ↔ second item other) :
    Forall₂ first items others ↔ Forall₂ second items others := by
  induction items generalizing others with
  | nil => cases others <;> simp
  | cons item items ih =>
      cases others with
      | nil => simp
      | cons other others =>
          rw [forall₂_cons, forall₂_cons, same item mem_cons_self other mem_cons_self,
            ih]
          exact fun inner member outer member' =>
            same inner (mem_cons_of_mem _ member) outer (mem_cons_of_mem _ member')

/-- The values that `json_equals` is about: distinct keys and no doubles. -/
def PlainValue (value : JsonValue δ) : Prop := WellFormed value ∧ NumberFree value

omit [CDouble δ] in
instance (value : JsonValue δ) : Decidable (PlainValue value) :=
  inferInstanceAs (Decidable (_ ∧ _))

omit [CDouble δ] in
theorem PlainValue.item {items : List (JsonValue δ)} (plain : PlainValue (.array items)) :
    ∀ item ∈ items, PlainValue item := fun item member =>
  ⟨wellFormedItems_iff.mp plain.1 item member, numberFreeItems_iff.mp plain.2 item member⟩

omit [CDouble δ] in
theorem PlainValue.entry {entries : List (Bytes × JsonValue δ)}
    (plain : PlainValue (.object entries)) :
    ∀ entry ∈ entries, PlainValue entry.2 := fun entry member =>
  ⟨(wellFormedEntries_iff.mp plain.1.2 entry member).2,
    numberFreeEntries_iff.mp plain.2 entry member⟩

theorem jsonEquals_iff {value other : JsonValue δ} (plain : PlainValue value)
    (otherPlain : PlainValue other) : jsonEquals value other = true ↔ SameValue value other := by
  induction value using JsonValue.members_induction generalizing other with
  | scalar value noArray noObject =>
      rw [sameValue_scalar noArray noObject]
      cases value with
      | array items => exact absurd rfl (noArray items)
      | object entries => exact absurd rfl (noObject entries)
      | number _ => exact plain.2.elim
      | null | boolean _ | integer _ | string _ =>
          cases other with
          | number _ => exact otherPlain.2.elim
          | null | boolean _ | integer _ | string _ | array _ | object _ => simp [jsonEquals]
  | array items each =>
      cases other with
      | array others =>
          rw [jsonEquals, Bool.and_eq_true, beq_iff_eq, jsonEqualsItems_iff, sameValue_array]
          exact forall₂_congr_of_mem fun item member inner member' =>
            each item member (plain.item item member) (otherPlain.item inner member')
      | null | boolean _ | number _ | integer _ | string _ | object _ =>
          simp [jsonEquals, SameValue]
  | object entries each =>
      cases other with
      | object others =>
          rw [jsonEquals, Bool.and_eq_true, beq_iff_eq, jsonEqualsEntries_iff, sameValue_object,
            arranged_iff plain.1.1 otherPlain.1.1]
          refine and_congr_right fun _ => forall₂_congr fun entry member => ?_
          refine exists_congr fun inner => and_congr_right fun found => ?_
          exact each entry member (plain.entry entry member)
            (otherPlain.entry _ (mem_of_getEntry_eq_some found))
      | null | boolean _ | number _ | integer _ | string _ | array _ => simp [jsonEquals, SameValue]

theorem jsonEquals_equivalence :
    Equivalence fun value other : {value : JsonValue δ // PlainValue value} =>
      jsonEquals value.1 other.1 = true where
  refl value := (jsonEquals_iff value.2 value.2).mpr (.refl value.1)
  symm := by
    intro value other same
    rw [jsonEquals_iff value.2 other.2] at same
    exact (jsonEquals_iff other.2 value.2).mpr same.symm
  trans := by
    intro value other third one two
    rw [jsonEquals_iff value.2 other.2] at one
    rw [jsonEquals_iff other.2 third.2] at two
    exact (jsonEquals_iff value.2 third.2).mpr (one.trans two)

end Comparison

section Identity

variable {δ : Type} [DecidableEq δ]

mutual

def identical : JsonValue δ → JsonValue δ → Bool
  | .null, .null => true
  | .boolean boolean, .boolean other => boolean == other
  | .number number, .number other => number == other
  | .integer integer, .integer other => integer == other
  | .string string, .string other => string == other
  | .array items, .array others => identicalItems items others
  | .object entries, .object others => identicalEntries entries others
  | _, _ => false
termination_by structural value => value

def identicalItems : List (JsonValue δ) → List (JsonValue δ) → Bool
  | [], [] => true
  | item :: items, other :: others => identical item other && identicalItems items others
  | _, _ => false
termination_by structural items => items

def identicalEntries : List (Bytes × JsonValue δ) → List (Bytes × JsonValue δ) → Bool
  | [], [] => true
  | (key, value) :: entries, (otherKey, other) :: others =>
      key == otherKey && identical value other && identicalEntries entries others
  | _, _ => false
termination_by structural entries => entries

end

attribute [grind =] identical identicalItems identicalEntries

mutual

theorem identical_iff : ∀ {value other : JsonValue δ},
    identical value other = true ↔ value = other
  | .null, other | .boolean _, other | .number _, other | .integer _, other | .string _, other => by
      cases other <;> simp [identical]
  | .array items, other => by
      cases other with
      | array others => rw [identical, identicalItems_iff, JsonValue.array.injEq]
      | _ => simp [identical]
  | .object entries, other => by
      cases other with
      | object others => rw [identical, identicalEntries_iff, JsonValue.object.injEq]
      | _ => simp [identical]

theorem identicalItems_iff : ∀ {items others : List (JsonValue δ)},
    identicalItems items others = true ↔ items = others
  | [], others => by
      cases others <;> simp [identicalItems]
  | item :: items, others => by
      cases others with
      | nil => simp [identicalItems]
      | cons other others =>
          rw [identicalItems, Bool.and_eq_true, identical_iff, identicalItems_iff, cons.injEq]

theorem identicalEntries_iff : ∀ {entries others : List (Bytes × JsonValue δ)},
    identicalEntries entries others = true ↔ entries = others
  | [], others => by
      cases others <;> simp [identicalEntries]
  | (key, value) :: entries, others => by
      cases others with
      | nil => simp [identicalEntries]
      | cons other others =>
          rw [identicalEntries, Bool.and_eq_true, Bool.and_eq_true, identical_iff,
            identicalEntries_iff, beq_iff_eq, cons.injEq, Prod.ext_iff]

end

instance : DecidableEq (JsonValue δ) :=
  fun _ _ => decidable_of_iff _ identical_iff

end Identity

end Jdbx
